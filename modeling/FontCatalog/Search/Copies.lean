import FontCatalog.FileTree

/-! Leaving out copies. Files of one size are compared by a digest of their bytes; of files with the same
digest the one with the smallest path stays. A file that cannot be read stays too, so that the failure
shows later. -/
namespace FontCatalog.Copies
set_option autoImplicit false

-- Digests are compared by the core library's test, whatever else is imported.
instance instDecidableEqDigest : DecidableEq ByteArray := ByteArray.instDecidableEq

/-- A path at its place in the list. -/
structure Slot where
  position : Nat
  path : Path
  deriving DecidableEq, Repr

/-! ## Sizes -/

/-- The size that a file is said to have, none if there is no file. -/
def size? (t : FileTree) (p : Path) : Option Nat :=
  match t.status true p with
  | .ok (_, .file data) => some data.size
  | _ => none

/-- Adds a slot to the bucket of its size. -/
def addToBucket (size : Nat) (s : Slot) : List (Nat × List Slot) → List (Nat × List Slot)
  | [] => [(size, [s])]
  | (k, slots) :: rest =>
    if k = size then (k, slots ++ [s]) :: rest else (k, slots) :: addToBucket size s rest

/-- The slots by size, those of a size in their order. -/
def buckets (t : FileTree) (slots : List Slot) : List (Nat × List Slot) :=
  slots.foldl (fun bs s => match size? t s.path with
    | some size => addToBucket size s bs
    | none => bs) []

/-! ## Digests -/

/-- What stands for the bytes of a file where files are compared. -/
abbrev Digest := ByteArray → ByteArray

/-- The files of one bucket so far: the winner for each digest, and the positions that have lost. -/
structure Contest where
  winners : List (ByteArray × Slot) := []
  losers : List Nat := []

/-- A slot with the digest of its file meets the winner so far. -/
def meet (key : ByteArray) (s : Slot) :
    List (ByteArray × Slot) → List (ByteArray × Slot) × Option Nat
  | [] => ([(key, s)], none)
  | (k, w) :: rest =>
    if k = key then
      if compare s.path w.path = .lt then ((k, s) :: rest, some w.position)
      else ((k, w) :: rest, some s.position)
    else
      let (rest, loser) := meet key s rest
      ((k, w) :: rest, loser)

def Contest.enter (digest : Digest) (t : FileTree) (c : Contest) (s : Slot) : Contest :=
  match t.read s.path with
  | .error _ => c
  | .ok data =>
    let (winners, loser) := meet (digest data) s c.winners
    ⟨winners, loser.toList ++ c.losers⟩

/-- The positions in a bucket that are copies of another file. -/
def losers (digest : Digest) (t : FileTree) (bucket : List Slot) : List Nat :=
  if bucket.length ≤ 1 then [] else (bucket.foldl (Contest.enter digest t) {}).losers

/-! ## Files -/

def slotsOf (paths : List Path) : List Slot := paths.zipIdx.map fun (p, i) => ⟨i, p⟩

/-- The files that are no copies, in their order. -/
def uniqueBy (digest : Digest) (t : FileTree) (paths : List Path) : List Path :=
  let slots := slotsOf paths
  let lost := (buckets t slots).flatMap fun b => losers digest t b.2
  (slots.filter fun s => !lost.contains s.position).map (·.path)

/-- The same with the bytes themselves compared. -/
def unique (t : FileTree) (paths : List Path) : List Path := uniqueBy id t paths

/-- How many files are counted as examined: those without a size, those alone in their bucket, and
those that are compared. -/
def examined (t : FileTree) (paths : List Path) : Nat :=
  let slots := slotsOf paths
  (slots.filter fun s => (size? t s.path).isNone).length
    + ((buckets t slots).flatMap fun b => b.2).length

end FontCatalog.Copies
