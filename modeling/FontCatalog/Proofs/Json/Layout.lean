import FontCatalog.Json.Reader
import FontCatalog.Proofs.Json.Lexer

/-! Compact and indented text are two layouts of one grammar: they differ in the white space before
elements, before closing brackets and after colons. -/
namespace FontCatalog.Json
set_option autoImplicit false
open FontCatalog.Text

/-! ## Induction -/

/-- Whatever holds of a list if it holds of its items, and of an object if it holds of the values in
it, and of everything else, holds of all values. -/
theorem induct {P : Json → Prop} (null : P .null) (bool : ∀ b, P (.bool b))
    (number : ∀ n, P (.number n)) (text : ∀ s, P (.text s))
    (list : ∀ items, (∀ v ∈ items, P v) → P (.list items))
    (object : ∀ members, (∀ m ∈ members, P m.2) → P (.object members)) (v : Json) : P v :=
  @Json.rec P (fun items => ∀ v ∈ items, P v) (fun members => ∀ m ∈ members, P m.2) (fun m => P m.2)
    null bool number text list object (List.forall_mem_nil _)
    (fun _ _ hv hrest => List.forall_mem_cons.2 ⟨hv, hrest⟩) (List.forall_mem_nil _)
    (fun _ _ hm hrest => List.forall_mem_cons.2 ⟨hm, hrest⟩) (fun _ _ hv => hv) v

/-! ## Layouts -/

/-- The white space before an element or a closing bracket at a depth, and after a colon. -/
structure Layout where
  line : Nat → Bytes
  gap : Bytes
  line_blank : ∀ depth, Blank (line depth)
  gap_blank : Blank gap

/-- The elements after the first one, and what closes the list. -/
def listed {α : Type} (line close : Bytes) (text : α → Bytes) : List α → Bytes
  | [] => close
  | x :: xs => byte ',' :: (line ++ (text x ++ listed line close text xs))

/-- A member with `text` for what stands after its name. -/
def named (name : String) (text : Bytes) : Bytes := byte '"' :: (textBody name ++ byte '"' :: text)

mutual
/-- The text of a value at a depth. -/
def spell (l : Layout) (depth : Nat) : Json → Bytes
  | .list (v :: rest) =>
    byte '[' :: (l.line (depth + 1) ++ (v.spell l (depth + 1) ++ spellItems l depth rest))
  | .object ((n, v) :: rest) =>
    byte '\x7b' :: (l.line (depth + 1) ++
      (named n (byte ':' :: (l.gap ++ v.spell l (depth + 1))) ++ spellMembers l depth rest))
  | v => encodeChars v.write

def spellItems (l : Layout) (depth : Nat) : List Json → Bytes
  | [] => l.line depth ++ [byte ']']
  | v :: rest => byte ',' :: (l.line (depth + 1) ++ (v.spell l (depth + 1) ++ spellItems l depth rest))

def spellMembers (l : Layout) (depth : Nat) : List (String × Json) → Bytes
  | [] => l.line depth ++ [byte '\x7d']
  | (n, v) :: rest =>
    byte ',' :: (l.line (depth + 1) ++
      (named n (byte ':' :: (l.gap ++ v.spell l (depth + 1))) ++ spellMembers l depth rest))
end

/-- What stands after the name of a member. -/
def spellValue (l : Layout) (depth : Nat) (m : String × Json) : Bytes :=
  byte ':' :: (l.gap ++ m.2.spell l (depth + 1))

theorem spellItems_eq (l : Layout) (depth : Nat) (items : List Json) :
    spellItems l depth items =
      listed (l.line (depth + 1)) (l.line depth ++ [byte ']']) (spell l (depth + 1)) items := by
  induction items with
  | nil => rw [spellItems, listed]
  | cons v rest ih => rw [spellItems, listed, ih]

theorem spellMembers_eq (l : Layout) (depth : Nat) (members : List (String × Json)) :
    spellMembers l depth members =
      listed (l.line (depth + 1)) (l.line depth ++ [byte '\x7d'])
        (fun m => named m.1 (spellValue l depth m)) members := by
  induction members with
  | nil => rw [spellMembers, listed]
  | cons m rest ih => rw [spellMembers, listed, ih, spellValue]

/-! ## The two layouts in use -/

def compact : Layout where
  line _ := []
  gap := []
  line_blank _ := List.forall_mem_nil _
  gap_blank := List.forall_mem_nil _

def indented : Layout where
  line depth := byte '\n' :: List.replicate (2 * depth) (byte ' ')
  gap := [byte ' ']
  line_blank depth := by
    intro b hb
    rcases List.mem_cons.1 hb with rfl | hb
    · decide
    · rw [List.eq_of_mem_replicate hb]
      decide
  gap_blank := List.forall_mem_singleton.2 (by decide)

theorem encodeChars_writeItems (items : List Json)
    (h : ∀ v ∈ items, ∀ depth, encodeChars v.write = v.spell compact depth) (depth : Nat) :
    encodeChars (writeItems items) = spellItems compact depth items := by
  induction items with
  | nil => rfl
  | cons v rest ih =>
    rw [writeItems, spellItems, encodeChars_cons, encodeChars_append, h v List.mem_cons_self,
      ih fun w hw => h w (List.mem_cons_of_mem _ hw)]
    rfl

theorem encodeChars_writeMembers (members : List (String × Json))
    (h : ∀ m ∈ members, ∀ depth, encodeChars m.2.write = m.2.spell compact depth) (depth : Nat) :
    encodeChars (writeMembers members) = spellMembers compact depth members := by
  induction members with
  | nil => rfl
  | cons m rest ih =>
    obtain ⟨n, v⟩ := m
    have hv : encodeChars v.write = v.spell compact (depth + 1) := h (n, v) List.mem_cons_self _
    rw [writeMembers, spellMembers, encodeChars_cons, encodeChars_append, encodeChars_writeText,
      encodeChars_cons, encodeChars_append, hv, ih fun w hw => h w (List.mem_cons_of_mem _ hw), named]
    simp [compact, utf8EncodeChar_byte]

/-- Compact text has the compact layout. -/
theorem encodeChars_write (v : Json) (depth : Nat) : encodeChars v.write = v.spell compact depth := by
  induction v using induct generalizing depth with
  | null | bool | number | text => rw [spell] <;> simp
  | list items ih =>
    cases items with
    | nil => rw [spell] <;> simp
    | cons v rest =>
      rw [write, spell, encodeChars_cons, encodeChars_append, ih v List.mem_cons_self,
        encodeChars_writeItems rest fun w hw => ih w (List.mem_cons_of_mem _ hw)]
      rfl
  | object members ih =>
    cases members with
    | nil => rw [spell] <;> simp
    | cons m rest =>
      obtain ⟨n, v⟩ := m
      have hv : encodeChars v.write = v.spell compact (depth + 1) := ih (n, v) List.mem_cons_self _
      rw [write, spell, encodeChars_cons, encodeChars_append, encodeChars_writeText, encodeChars_cons,
        encodeChars_append, hv,
        encodeChars_writeMembers rest (fun w hw => ih w (List.mem_cons_of_mem _ hw)) depth, named]
      simp [compact, utf8EncodeChar_byte]

theorem encodeChars_newLine (depth : Nat) : encodeChars (newLine depth) = indented.line depth := by
  have hascii : ∀ c ∈ newLine depth, c.toNat ≤ 0x7F := by
    intro c hc
    rcases List.mem_cons.1 hc with rfl | hc
    · decide
    · rw [List.eq_of_mem_replicate hc]
      decide
  rw [encodeChars_ascii hascii, newLine, List.map_cons, List.map_replicate]
  rfl

theorem encodeChars_writePrettyItems (items : List Json)
    (h : ∀ v ∈ items, ∀ depth, encodeChars (v.writePretty depth) = v.spell indented depth)
    (depth : Nat) :
    encodeChars (writePrettyItems depth items) = spellItems indented depth items := by
  induction items with
  | nil =>
    rw [writePrettyItems, spellItems, encodeChars_append, encodeChars_newLine]
    rfl
  | cons v rest ih =>
    rw [writePrettyItems, spellItems, encodeChars_cons, encodeChars_append, encodeChars_append,
      encodeChars_newLine, h v List.mem_cons_self,
      ih fun w hw => h w (List.mem_cons_of_mem _ hw), List.append_assoc]
    rfl

theorem encodeChars_writePrettyMembers (members : List (String × Json))
    (h : ∀ m ∈ members, ∀ depth, encodeChars (m.2.writePretty depth) = m.2.spell indented depth)
    (depth : Nat) :
    encodeChars (writePrettyMembers depth members) = spellMembers indented depth members := by
  induction members with
  | nil =>
    rw [writePrettyMembers, spellMembers, encodeChars_append, encodeChars_newLine]
    rfl
  | cons m rest ih =>
    obtain ⟨n, v⟩ := m
    have hv : encodeChars (v.writePretty (depth + 1)) = v.spell indented (depth + 1) :=
      h (n, v) List.mem_cons_self _
    simp only [writePrettyMembers, encodeChars_cons, encodeChars_append]
    rw [spellMembers, encodeChars_newLine, encodeChars_writeText, hv,
      ih fun w hw => h w (List.mem_cons_of_mem _ hw), named]
    simp [indented, utf8EncodeChar_byte]

/-- Indented text has the indented layout. -/
theorem encodeChars_writePretty (v : Json) (depth : Nat) :
    encodeChars (v.writePretty depth) = v.spell indented depth := by
  induction v using induct generalizing depth with
  | null | bool | number | text => rw [spell, writePretty] <;> simp
  | list items ih =>
    cases items with
    | nil => rw [spell, writePretty] <;> simp
    | cons v rest =>
      simp only [writePretty, encodeChars_cons, encodeChars_append]
      rw [spell, encodeChars_newLine, ih v List.mem_cons_self,
        encodeChars_writePrettyItems rest fun w hw => ih w (List.mem_cons_of_mem _ hw),
        List.append_assoc]
      rfl
  | object members ih =>
    cases members with
    | nil => rw [spell, writePretty] <;> simp
    | cons m rest =>
      obtain ⟨n, v⟩ := m
      have hv : encodeChars (v.writePretty (depth + 1)) = v.spell indented (depth + 1) :=
        ih (n, v) List.mem_cons_self _
      simp only [writePretty, encodeChars_cons, encodeChars_append]
      rw [spell, encodeChars_newLine, encodeChars_writeText, hv,
        encodeChars_writePrettyMembers rest (fun w hw => ih w (List.mem_cons_of_mem _ hw)) depth, named]
      simp [indented, utf8EncodeChar_byte]

/-! ## Rendered values -/

theorem encode_render (v : Json) : encode v.render = v.spell compact 0 := by
  rw [encode, render, String.toList_ofList, encodeChars_write]

theorem encode_renderPretty (v : Json) : encode v.renderPretty = v.spell indented 0 := by
  rw [encode, renderPretty, String.toList_ofList, encodeChars_writePretty]

end FontCatalog.Json
