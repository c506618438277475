import FontCatalog.Search.Copies

/-! Buckets compared side by side. The buckets come in any order and each is compared on its own, slot by
slot; whose turn it is, is open. All of them raise one count. -/
namespace FontCatalog.Copies
set_option autoImplicit false

/-! ## Files -/

/-- What is learnt of files: the size that a file is said to have, and its bytes. Of each file only one of
the two may be had, or none. -/
structure Files where
  size? : Path → Option Nat
  read? : Path → Option ByteArray

namespace Files

def ofTree (t : FileTree) : Files where
  size? := Copies.size? t
  read? p := (t.read p).toOption

/-- The bytes of a file that has a size and can be read. -/
def bytes? (v : Files) (p : Path) : Option ByteArray := (v.size? p).bind fun _ => v.read? p

/-- The digest of the file of a slot, if it can be read. -/
def digest? (v : Files) (digest : Digest) (s : Slot) : Option ByteArray := (v.read? s.path).map digest

/-- The slots by size, those of a size in their order. -/
def buckets (v : Files) (slots : List Slot) : List (Nat × List Slot) :=
  slots.foldl (fun bs s => match v.size? s.path with
    | some size => addToBucket size s bs
    | none => bs) []

end Files

/-! ## One bucket -/

/-- A slot enters with the digest that `key` has for it; one without a digest neither wins nor loses. -/
def Contest.judge (key : Slot → Option ByteArray) (c : Contest) (s : Slot) : Contest :=
  match key s with
  | none => c
  | some k =>
    let (winners, loser) := meet k s c.winners
    ⟨winners, loser.toList ++ c.losers⟩

/-- The comparison of one bucket, as far as it has come. -/
structure Comparison where
  ahead : List Slot
  /-- Whether the first of these has been counted. -/
  counted : Bool := false
  contest : Contest := {}

namespace Comparison

/-- A slot is counted, and after that its file is read and compared. The number is what the step adds to
the count. -/
def step (key : Slot → Option ByteArray) (c : Comparison) : Nat × Comparison :=
  match c.ahead with
  | [] => (0, c)
  | s :: rest =>
    if c.counted then (0, ⟨rest, false, c.contest.judge key s⟩) else (1, { c with counted := true })

end Comparison

/-! ## All buckets -/

structure Comparing where
  count : Nat
  parts : List Comparison

namespace Comparing

/-- The files without a size and those alone in their bucket are counted at once; the other buckets are to
be compared. -/
def start (v : Files) (paths : List Path) (order : List (Nat × List Slot)) (count : Nat) : Comparing where
  count := count + ((slotsOf paths).filter fun s => (v.size? s.path).isNone).length
    + (order.filter fun b => b.2.length == 1).length
  parts := (order.filter fun b => b.2.length != 1).map fun b => { ahead := b.2 }

/-- The turn of one part. -/
def turn (key : Slot → Option ByteArray) (c : Comparing) (number : Nat) : Comparing :=
  match c.parts[number]? with
  | none => c
  | some part =>
    let (n, part) := part.step key
    ⟨c.count + n, c.parts.set number part⟩

def after (key : Slot → Option ByteArray) (c : Comparing) (turns : List Nat) : Comparing :=
  turns.foldl (turn key) c

def isDone (c : Comparing) : Bool := c.parts.all (·.ahead.isEmpty)

/-- The files that have not lost, in their order. -/
def survivors (c : Comparing) (paths : List Path) : List Path :=
  let lost := c.parts.flatMap (·.contest.losers)
  ((slotsOf paths).filter fun s => !lost.contains s.position).map (·.path)

end Comparing

end FontCatalog.Copies
