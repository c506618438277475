import FontCatalog.Proofs.Toml.Values

/-! Documents of sections read back. A section is a header and a line for each of its keys; any number of empty
lines may stand in front of a header and at the end. -/
namespace FontCatalog.Toml
set_option autoImplicit false

/-- Sections by name, and in each of them the lines by key. -/
abbrev Sections := List (String × List (String × Written))

/-! ## Writing -/

/-- The text of sections; `blanks` counts the empty lines in front of each, and `last` those at the end. -/
def layOut (blanks : String → Nat) (last : Nat) : Sections → List Char
  | [] => List.replicate last '\n'
  | (name, lines) :: rest =>
    List.replicate (blanks name) '\n' ++
      ((writeSection name (lines.map fun (k, w) => (k, w.render))).toList ++ layOut blanks last rest)

/-- What is read from the lines of a section, -/
def lineValues (lines : List (String × Written)) : List (String × Value) := lines.map fun (k, w) => (k, w.value)

/-- and from sections. -/
def sectionsValue (sections : Sections) : Value :=
  .table (sections.map fun (name, lines) => (name, .table (lineValues lines)))

/-- Whether a name can stand without quotes. -/
def IsBareName (name : String) : Prop := name.toList ≠ [] ∧ name.toList.all isBare = true

instance (name : String) : Decidable (IsBareName name) := inferInstanceAs (Decidable (_ ∧ _))

/-- What sections must be like to be read back: bare names, each once, and no number too large. -/
structure Readable (sections : Sections) : Prop where
  names : ∀ s ∈ sections, IsBareName s.1
  distinct : (sections.map (·.1)).Nodup
  keys : ∀ s ∈ sections, ∀ l ∈ s.2, IsBareName l.1
  keysDistinct : ∀ s ∈ sections, (s.2.map (·.1)).Nodup
  fit : ∀ s ∈ sections, ∀ l ∈ s.2, l.2.Fits

theorem readable_of_names {all : Sections} (names : List (String × List String))
    (hnames : (all.map fun s => (s.1, s.2.map (·.1))) = names)
    (hbare : ∀ s ∈ names, IsBareName s.1 ∧ (∀ k ∈ s.2, IsBareName k) ∧ s.2.Nodup)
    (hdistinct : (names.map (·.1)).Nodup) (hfit : ∀ s ∈ all, ∀ l ∈ s.2, l.2.Fits) : Readable all := by
  subst hnames
  rw [List.map_map] at hdistinct
  have hall := List.forall_mem_map.1 hbare
  exact {
    names := fun s hs => (hall s hs).1
    distinct := hdistinct
    keys := fun s hs => List.forall_mem_map.1 (hall s hs).2.1
    keysDistinct := fun s hs => (hall s hs).2.2
    fit := hfit }

/-! ## Keys -/

theorem ne_of_isBare {c d : Char} (hc : isBare c = true) (hd : isBare d = false) : c ≠ d := by
  rintro rfl
  exact Bool.false_ne_true (hd.symm.trans hc)

theorem isBlank_of_isBare {c : Char} (h : isBare c = true) : isBlank c = false := by
  rw [isBlank, Bool.or_eq_false_iff]
  exact ⟨beq_false_of_ne (ne_of_isBare h rfl), beq_false_of_ne (ne_of_isBare h rfl)⟩

section
variable {name : String} (hname : IsBareName name)
include hname

theorem IsBareName.exists_cons : ∃ c more, name.toList = c :: more ∧ isBare c = true := by
  obtain ⟨hne, hall⟩ := hname
  obtain ⟨c, more, hcons⟩ := List.exists_cons_of_ne_nil hne
  exact ⟨c, more, hcons, List.all_eq_true.1 hall c (hcons ▸ List.mem_cons_self)⟩

theorem skipBlanks_name (rest : List Char) : skipBlanks (name.toList ++ rest) = name.toList ++ rest := by
  obtain ⟨c, more, hcons, hc⟩ := hname.exists_cons
  rw [hcons]
  exact List.dropWhile_cons_of_neg (by rw [isBlank_of_isBare hc]; decide)

theorem readKeyPart_name {d : Char} (hd : isBare d = false) (rest : List Char) :
    readKeyPart (name.toList ++ d :: rest) = some (name, d :: rest) := by
  obtain ⟨c, more, hcons, hc⟩ := hname.exists_cons
  have htake : (name.toList ++ d :: rest).takeWhile isBare = name.toList := by
    rw [List.takeWhile_append_of_pos (List.all_eq_true.1 hname.2), List.takeWhile_cons_of_neg (by simp [hd]),
      List.append_nil]
  have hdrop : (name.toList ++ d :: rest).dropWhile isBare = d :: rest := by
    rw [List.dropWhile_append_of_pos (List.all_eq_true.1 hname.2), List.dropWhile_cons_of_neg (by simp [hd])]
  unfold readKeyPart
  split
  · next heq =>
    rw [hcons] at heq
    exact absurd (List.cons.inj heq).1 (ne_of_isBare hc rfl)
  · next heq =>
    rw [hcons] at heq
    exact absurd (List.cons.inj heq).1 (ne_of_isBare hc rfl)
  · dsimp only
    rw [htake, hdrop, if_neg hname.1, String.ofList_toList]

theorem readKey_name {d e : Char} {rest next : List Char} (hd : isBare d = false)
    (hskip : skipBlanks (d :: rest) = e :: next) (he : e ≠ '.') :
    readKey (name.toList ++ d :: rest) = some ([name], e :: next) := by
  rw [readKey, maxKeyParts, readKeyParts, skipBlanks_name hname, readKeyPart_name hname hd]
  dsimp only
  rw [hskip]
  split
  · next heq => exact absurd (List.cons.inj heq).1 he
  · rfl

/-! ## Headers and lines -/

theorem readHeader_name (rest : List Char) :
    readHeader ('[' :: (name.toList ++ ']' :: '\n' :: rest)) = some (.table [name], rest) := by
  obtain ⟨c, more, hcons, hc⟩ := hname.exists_cons
  have hkey : readKey (name.toList ++ ']' :: '\n' :: rest) = some ([name], ']' :: '\n' :: rest) :=
    readKey_name hname rfl rfl (by decide)
  unfold readHeader
  split
  · next heq =>
    rw [hcons] at heq
    exact absurd (List.cons.inj (List.cons.inj heq).2).1 (ne_of_isBare hc rfl)
  · next heq =>
    obtain ⟨-, rfl⟩ := List.cons.inj heq
    rw [hkey]
    rfl
  · next hother => exact absurd rfl (hother _)

end

/-- The line of a key, without the line end. -/
def lineText (key : String) (w : Written) : List Char := key.toList ++ " = ".toList ++ w.render.toList

theorem writeTexts_head (ss : List String) : ∃ more, (writeTexts ss).toList = '[' :: more := by
  rcases ss with _ | ⟨s, _ | ⟨s', ss⟩⟩
  · exact ⟨_, rfl⟩
  · rw [writeTexts, String.toList_append, String.toList_append, List.append_assoc]
    exact ⟨_, rfl⟩
  · rw [writeTexts_many, String.toList_append, String.toList_append, List.append_assoc]
    exact ⟨_, rfl⟩

theorem Written.render_head (w : Written) : ∃ c more, w.render.toList = c :: more ∧ isBlank c = false := by
  cases w with
  | text s =>
    obtain ⟨more, h | h⟩ := writeText_head s
    · exact ⟨_, more, h, rfl⟩
    · exact ⟨_, more, h, rfl⟩
  | texts ss =>
    obtain ⟨more, h⟩ := writeTexts_head ss
    exact ⟨_, more, h, rfl⟩
  | boolean b => cases b <;> exact ⟨_, _, rfl, rfl⟩
  | number n =>
    obtain ⟨d, ds, hcons, hd⟩ := toString_head n
    refine ⟨d, ds, hcons, ?_⟩
    rw [isBlank, Bool.or_eq_false_iff]
    exact ⟨beq_false_of_ne (ne_of_isDigit hd rfl), beq_false_of_ne (ne_of_isDigit hd rfl)⟩

theorem readPair_line {name : String} (hname : IsBareName name) {length : Nat} {w : Written} (hw : w.Fits)
    (hlength : w.render.toList.length ≤ length) (rest : List Char) :
    readPair (readValue length maxDepth) (lineText name w ++ '\n' :: rest) =
      some (([name], w.value), '\n' :: rest) := by
  have hvalue : readValue length maxDepth (w.render.toList ++ '\n' :: rest) = some (w.value, '\n' :: rest) :=
    readValue_written hw hlength rest
  have hskip : skipBlanks (' ' :: (w.render.toList ++ '\n' :: rest)) = w.render.toList ++ '\n' :: rest := by
    obtain ⟨c, more, hcons, hc⟩ := w.render_head
    rw [hcons]
    have hblank : ¬isBlank c = true := by rw [hc]; decide
    exact List.dropWhile_cons_of_neg hblank
  have hkey : readKey (lineText name w ++ '\n' :: rest) =
      some ([name], '=' :: ' ' :: (w.render.toList ++ '\n' :: rest)) := by
    rw [lineText, List.append_assoc, List.append_assoc]
    exact readKey_name hname rfl rfl (by decide)
  unfold readPair
  rw [hkey]
  simp only [hskip, hvalue]
  rfl

/-! ## Sections -/

theorem skipLines_empty {n length : Nat} (h : n ≤ length) (cs : List Char) :
    skipLines length (List.replicate n '\n' ++ cs) = skipLines (length - n) cs := by
  obtain ⟨k, rfl⟩ := Nat.exists_eq_add_of_le' h
  rw [Nat.add_sub_cancel]
  clear h
  induction n with
  | zero => rfl
  | succ n ih => exact (skipLines_line _ _).trans ih

theorem skipLines_nil (length : Nat) : skipLines length [] = [] := by cases length <;> rfl

/-- The lines of a section as they are read, before they are entered in a table. -/
def linePairs (lines : List (String × Written)) : List (List String × Value) :=
  lines.map fun (k, w) => ([k], w.value)

def sectionOf (s : String × List (String × Written)) : Section := ⟨some (.table [s.1]), linePairs s.2⟩

/-- The lines of a section. -/
def linesText (lines : List (String × Written)) : List Char := lines.flatMap fun (k, w) => lineText k w ++ ['\n']

theorem writeSection_toList (name : String) (lines : List (String × Written)) :
    (writeSection name (lines.map fun (k, w) => (k, w.render))).toList =
      '[' :: (name.toList ++ ']' :: '\n' :: linesText lines) := by
  have hline (l : String × Written) :
      (l.1 ++ " = " ++ l.2.render ++ "\n").toList = lineText l.1 l.2 ++ ['\n'] := by
    simp only [lineText, String.toList_append]
    rfl
  simp only [writeSection, String.toList_append, String.toList_join, List.map_map, List.flatMap_map, linesText,
    Function.comp_apply, hline, List.append_assoc]
  rfl

section
variable {length fuel : Nat} {cs rest : List Char} {pairs : List (List String × Value)} {sections : List Section}
  {name : String}

theorem readSections_header (hname : IsBareName name)
    (hskip : skipLines length cs = '[' :: (name.toList ++ ']' :: '\n' :: rest))
    (h : readSections length fuel rest = some (pairs, sections)) :
    readSections length (fuel + 1) cs = some ([], ⟨some (.table [name]), pairs⟩ :: sections) := by
  rw [readSections, hskip]
  simp only [readHeader_name hname, h]

theorem readSections_line (hname : IsBareName name) {w : Written} (hw : w.Fits)
    (hlength : w.render.toList.length ≤ length) (h : readSections length fuel rest = some (pairs, sections)) :
    readSections length (fuel + 1) (lineText name w ++ '\n' :: rest) =
      some (([name], w.value) :: pairs, sections) := by
  have hread := readPair_line hname hw hlength rest
  have hend : endLine ('\n' :: rest) = some rest := rfl
  obtain ⟨c, more, hcons, hc⟩ := hname.exists_cons
  have htext : lineText name w ++ '\n' :: rest =
      c :: (more ++ " = ".toList ++ w.render.toList ++ '\n' :: rest) := by
    rw [lineText, hcons]
    rfl
  rw [htext] at hread ⊢
  rw [readSections, skipLines_of_mark ⟨ne_of_isBare hc rfl, ne_of_isBare hc rfl, ne_of_isBare hc rfl,
    isBlank_of_isBare hc⟩]
  split
  · next heq => cases heq
  · next heq => exact absurd (List.cons.inj heq).1 (ne_of_isBare hc rfl)
  · next heq => exact absurd (List.cons.inj heq).1 (ne_of_isBare hc rfl)
  · simp only [hread, hend, h]

end

/-! A part of the text is never longer than the text, and each step takes at least one character of it. -/

section
variable {length : Nat}

theorem readSections_lines {lines : List (String × Written)} (hnames : ∀ l ∈ lines, IsBareName l.1)
    (hfit : ∀ l ∈ lines, l.2.Fits) {rest : List Char} {sections : List Section}
    (h : ∀ fuel, rest.length < fuel → readSections length fuel rest = some ([], sections)) :
    ∀ fuel, (linesText lines ++ rest).length < fuel → (linesText lines ++ rest).length ≤ length →
      readSections length fuel (linesText lines ++ rest) =
        some (linePairs lines, sections) := by
  induction lines with
  | nil => exact fun fuel hfuel _ => h fuel hfuel
  | cons l lines ih =>
    intro fuel hfuel hlength
    obtain ⟨hname, hnames⟩ := List.forall_mem_cons.1 hnames
    obtain ⟨hl, hfit⟩ := List.forall_mem_cons.1 hfit
    have htext : linesText (l :: lines) ++ rest = lineText l.1 l.2 ++ '\n' :: (linesText lines ++ rest) := by
      simp only [linesText, List.flatMap_cons, List.append_assoc]
      rfl
    obtain ⟨fuel, rfl⟩ := Nat.exists_eq_add_one_of_ne_zero (Nat.ne_zero_of_lt hfuel)
    rw [htext] at hfuel hlength ⊢
    have hsplit : (lineText l.1 l.2).length = l.1.toList.length + 3 + l.2.render.toList.length := by
      rw [lineText, List.length_append, List.length_append]
      rfl
    rw [List.length_append, List.length_cons, hsplit] at hfuel hlength
    exact readSections_line hname hl (by omega) (ih hnames hfit fuel (by omega) (by omega))

theorem readSections_layOut (blanks : String → Nat) (last : Nat) {all : Sections}
    (hnames : ∀ s ∈ all, IsBareName s.1) (hkeys : ∀ s ∈ all, ∀ l ∈ s.2, IsBareName l.1)
    (hfit : ∀ s ∈ all, ∀ l ∈ s.2, l.2.Fits) (hlength : (layOut blanks last all).length ≤ length) :
    ∀ fuel, (layOut blanks last all).length < fuel →
      readSections length fuel (layOut blanks last all) =
        some ([], all.map sectionOf) := by
  induction all with
  | nil =>
    intro fuel hfuel
    obtain ⟨fuel, rfl⟩ := Nat.exists_eq_add_one_of_ne_zero (Nat.ne_zero_of_lt hfuel)
    have hskip := skipLines_empty (n := last) (by simpa [layOut] using hlength) []
    rw [skipLines_nil, List.append_nil] at hskip
    rw [layOut, readSections, hskip]
    rfl
  | cons s all ih =>
    intro fuel hfuel
    obtain ⟨name, lines⟩ := s
    obtain ⟨hname, hnames⟩ := List.forall_mem_cons.1 hnames
    obtain ⟨hkey, hkeys⟩ : (∀ l ∈ lines, IsBareName l.1) ∧ _ := List.forall_mem_cons.1 hkeys
    obtain ⟨hl, hfit⟩ : (∀ l ∈ lines, l.2.Fits) ∧ _ := List.forall_mem_cons.1 hfit
    obtain ⟨fuel, rfl⟩ := Nat.exists_eq_add_one_of_ne_zero (Nat.ne_zero_of_lt hfuel)
    rw [layOut, writeSection_toList] at hfuel hlength ⊢
    simp only [List.length_append, List.length_replicate, List.length_cons] at hfuel hlength
    have hlines := readSections_lines hkey hl (ih hnames hkeys hfit (by omega)) fuel
      (by rw [List.length_append]; omega) (by rw [List.length_append]; omega)
    refine readSections_header hname ?_ hlines
    rw [skipLines_empty (by omega), List.cons_append, List.append_assoc]
    exact skipLines_of_mark (by decide) _

end

/-! ## Tables -/

theorem lookup_eq_none {α : Type} {name : String} {es : List (String × α)} (h : name ∉ es.map (·.1)) :
    lookup name es = none := by
  induction es with
  | nil => rfl
  | cons e es ih =>
    rw [List.map_cons, List.mem_cons, not_or] at h
    rw [lookup, if_neg (Ne.symm h.1), ih h.2]

/-- The names so far and one more are new to each other. -/
theorem nodup_concat {es : List String} {name : String} {rest : List String} (h : (es ++ name :: rest).Nodup) :
    name ∉ es ∧ (es ++ [name] ++ rest).Nodup := by
  refine ⟨fun hmem => ?_, by rwa [List.append_assoc]⟩
  exact (List.nodup_append.1 h).2.2 name hmem name List.mem_cons_self rfl

theorem addValue_name {name : String} {es : Entries} (h : lookup name es = none) (v : Value) :
    addValue [name] v es = some (es ++ [(name, .value v)]) := by
  simp [addValue, within, h]

def lineItems (lines : List (String × Written)) : Entries := lines.map fun (k, w) => (k, .value w.value)

def headedItem (s : String × List (String × Written)) : String × Item := (s.1, .table .headed (lineItems s.2))

theorem addValues_lines {lines : List (String × Written)} {es : Entries}
    (h : (es.map (·.1) ++ lines.map (·.1)).Nodup) :
    addValues (linePairs lines) es = some (es ++ lineItems lines) := by
  unfold linePairs lineItems
  induction lines generalizing es with
  | nil => rw [List.map_nil, List.map_nil, List.append_nil, addValues]
  | cons l lines ih =>
    obtain ⟨hnew, hrest⟩ := nodup_concat h
    rw [List.map_cons, addValues, addValue_name (lookup_eq_none hnew)]
    dsimp only
    rw [ih (by simpa using hrest), List.append_assoc]
    rfl

theorem addSection_name {name : String} {es sub : Entries} {pairs : List (List String × Value)}
    (h : lookup name es = none) (hpairs : addValues pairs [] = some sub) :
    addSection ⟨some (.table [name]), pairs⟩ es = some (es ++ [(name, .table .headed sub)]) := by
  simp [addSection, within, h, hpairs]

theorem addSection_nil (es : Entries) : addSection ⟨none, []⟩ es = some es := rfl

theorem addSections_named {all : Sections} {es : Entries} (hkeys : ∀ s ∈ all, (s.2.map (·.1)).Nodup)
    (h : (es.map (·.1) ++ all.map (·.1)).Nodup) :
    addSections (all.map sectionOf) es = some (es ++ all.map headedItem) := by
  induction all generalizing es with
  | nil => rw [List.map_nil, List.map_nil, List.append_nil, addSections]
  | cons s all ih =>
    obtain ⟨hs, hkeys⟩ := List.forall_mem_cons.1 hkeys
    obtain ⟨hnew, hrest⟩ := nodup_concat h
    have hlines := @addValues_lines s.2 [] hs
    rw [List.map_cons, addSections, sectionOf, addSection_name (lookup_eq_none hnew) hlines]
    dsimp only
    rw [ih hkeys (by simpa using hrest), List.append_assoc]
    rfl

theorem entryValues_lines (lines : List (String × Written)) :
    entryValues (lineItems lines) = lineValues lines := by
  unfold lineItems lineValues
  induction lines with
  | nil => rfl
  | cons l lines ih => rw [List.map_cons, entryValues, ih, Item.toValue, List.map_cons]

theorem entryValues_sections (all : Sections) :
    entryValues (all.map headedItem) = all.map fun (name, lines) => (name, .table (lineValues lines)) := by
  induction all with
  | nil => rfl
  | cons s all ih =>
    rw [List.map_cons, headedItem, entryValues, ih, Item.toValue, entryValues_lines, List.map_cons]

/-! ## Documents -/

theorem layOut_head (blanks : String → Nat) (last : Nat) (all : Sections) :
    layOut blanks last all = [] ∨
      ∃ more, layOut blanks last all = '\n' :: more ∨ layOut blanks last all = '[' :: more := by
  cases all with
  | nil =>
    cases last with
    | zero => exact .inl rfl
    | succ last => exact .inr ⟨_, .inl rfl⟩
  | cons s all =>
    rw [layOut, writeSection_toList]
    cases blanks s.1 with
    | zero => exact .inr ⟨_, .inr rfl⟩
    | succ n => exact .inr ⟨_, .inl rfl⟩

/-- Sections are read back as they were written, however many empty lines stand between them. -/
theorem parse_layOut (blanks : String → Nat) (last : Nat) {all : Sections} (h : Readable all) :
    parse (String.ofList (layOut blanks last all)) = some (sectionsValue all) := by
  have hmark : dropMark (layOut blanks last all) = layOut blanks last all := by
    obtain hnil | ⟨more, hline | hbracket⟩ := layOut_head blanks last all
    · rw [hnil]
      rfl
    · rw [hline]
      rfl
    · rw [hbracket]
      rfl
  have hread := readSections_layOut blanks last h.names h.keys h.fit (Nat.le_refl _) _ (Nat.lt_succ_self _)
  have hadd := @addSections_named all [] h.keysDistinct h.distinct
  rw [List.nil_append] at hadd
  unfold parse
  dsimp only
  rw [String.toList_ofList, hmark, hread]
  dsimp only
  rw [addSections, addSection_nil]
  dsimp only
  rw [hadd, Option.map_some, entryValues_sections, sectionsValue]

end FontCatalog.Toml
