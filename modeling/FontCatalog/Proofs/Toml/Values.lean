import FontCatalog.Proofs.Json.Lexer
import FontCatalog.Proofs.Toml.Strings
import FontCatalog.Toml.Reader

/-! Values read back from what is written for them: strings, arrays of strings, numbers and truth values. -/
namespace FontCatalog.Toml
set_option autoImplicit false

/-! ## Blanks -/

theorem skipLines_of_mark {c : Char} {rest : List Char} (h : c ≠ '\n' ∧ c ≠ '\r' ∧ c ≠ '#' ∧ isBlank c = false)
    (n : Nat) : skipLines n (c :: rest) = c :: rest := by
  obtain ⟨hline, hreturn, hhash, hblank⟩ := h
  have hskip : skipBlanks (c :: rest) = c :: rest := List.dropWhile_cons_of_neg (by rw [hblank]; decide)
  cases n with
  | zero => rfl
  | succ n =>
    have hcomment : skipComment (c :: rest) = c :: rest := by
      unfold skipComment
      split <;> simp_all
    have hnone : afterNewline? (c :: rest) = none := by
      unfold afterNewline?
      split <;> simp_all
    rw [skipLines, hskip, hcomment, hnone]

/-- Blanks in front of a value are passed over, if a line may be read at all. -/
theorem skipLines_indent {c : Char} {rest : List Char}
    (h : c ≠ '\n' ∧ c ≠ '\r' ∧ c ≠ '#' ∧ isBlank c = false) (n : Nat) :
    skipLines (n + 1) ("    ".toList ++ c :: rest) = c :: rest := by
  have hskip : skipBlanks ("    ".toList ++ c :: rest) = skipBlanks (c :: rest) := rfl
  have hsame : skipLines (n + 1) (c :: rest) = c :: rest := skipLines_of_mark h (n + 1)
  rw [skipLines] at hsame ⊢
  rw [hskip]
  exact hsame

theorem skipLines_line (n : Nat) (rest : List Char) : skipLines (n + 1) ('\n' :: rest) = skipLines n rest := rfl

/-! ## Strings -/

theorem writeText_head (s : String) :
    ∃ more, (writeText s).toList = '"' :: more ∨ (writeText s).toList = '\'' :: more := by
  unfold writeText
  dsimp only
  generalize quotesFor s.toList = quotes
  cases quotes <;> simp only [String.toList_append, List.append_assoc]
  case basic | basicBlock => exact ⟨_, .inl rfl⟩
  case literal | literalBlock => exact ⟨_, .inr rfl⟩

theorem readValue_text (length depth : Nat) (s : String) {rest : List Char} (hdouble : rest.head? ≠ some '"')
    (hsingle : rest.head? ≠ some '\'') :
    readValue length depth ((writeText s).toList ++ rest) = some (.text s, rest) := by
  have hread := readString_writeText s hdouble hsingle
  obtain ⟨more, hhead | hhead⟩ := writeText_head s
  · rw [hhead, List.cons_append] at hread ⊢
    rw [readValue, hread]
    rfl
  · rw [hhead, List.cons_append] at hread ⊢
    rw [readValue, hread]
    rfl

/-! ## Arrays -/

section
variable {length fuel : Nat} {item : Reading Value} {acc : List Value} {cs more next rest : List Char} {c : Char}
  {v : Value}

theorem readItems_end (hskip : skipLines length cs = ']' :: next) :
    readItems length item (fuel + 1) acc cs = some (acc.reverse, next) := by
  rw [readItems, hskip]
  rfl

theorem readItems_comma (hskip : skipLines length cs = c :: more) (hc : c ≠ ']')
    (hitem : item (c :: more) = some (v, rest)) (hrest : skipLines length rest = ',' :: next) :
    readItems length item (fuel + 1) acc cs = readItems length item fuel (v :: acc) next := by
  rw [readItems, hskip]
  split
  · next h => exact absurd (List.cons.inj h).1 hc
  · rw [hitem]
    dsimp only
    rw [hrest]
    rfl

theorem readItems_last (hskip : skipLines length cs = c :: more) (hc : c ≠ ']')
    (hitem : item (c :: more) = some (v, rest)) (hrest : skipLines length rest = ']' :: next) :
    readItems length item (fuel + 1) acc cs = some ((v :: acc).reverse, next) := by
  rw [readItems, hskip]
  split
  · next h => exact absurd (List.cons.inj h).1 hc
  · rw [hitem]
    dsimp only
    rw [hrest]
    rfl

end

/-- The lines of an array, one for each string. -/
def itemLines (ss : List String) : List Char :=
  ss.flatMap fun s => "    ".toList ++ (writeText s).toList ++ ",\n".toList

theorem length_le_itemLines (ss : List String) : ss.length ≤ (itemLines ss).length := by
  induction ss with
  | nil => exact Nat.zero_le _
  | cons s ss ih =>
    have hspace : "    ".toList.length = 4 := rfl
    have hlines : (itemLines (s :: ss)).length =
        "    ".toList.length + (writeText s).toList.length + ",\n".toList.length + (itemLines ss).length := by
      rw [itemLines, List.flatMap_cons, List.length_append, List.length_append, List.length_append, itemLines]
    rw [List.length_cons]
    omega

theorem readItems_lines {length depth : Nat} (hlength : 2 ≤ length) (rest : List Char) (ss : List String) :
    ∀ (fuel : Nat) (acc : List Value), ss.length < fuel →
      readItems length (readValue length depth) fuel acc ('\n' :: (itemLines ss ++ ']' :: rest)) =
        some (acc.reverse ++ ss.map .text, rest) := by
  obtain ⟨n, rfl⟩ := Nat.exists_eq_add_of_le' hlength
  induction ss with
  | nil =>
    intro fuel acc hfuel
    obtain ⟨fuel, rfl⟩ := Nat.exists_eq_add_one_of_ne_zero (Nat.ne_zero_of_lt hfuel)
    rw [List.map_nil, List.append_nil]
    exact readItems_end ((skipLines_line _ _).trans (skipLines_of_mark (by decide) _))
  | cons s ss ih =>
    intro fuel acc hfuel
    obtain ⟨fuel, rfl⟩ := Nat.exists_eq_add_one_of_ne_zero (Nat.ne_zero_of_lt hfuel)
    let next := '\n' :: (itemLines ss ++ ']' :: rest)
    have hvalue : readValue (n + 2) depth ((writeText s).toList ++ ',' :: next) = some (.text s, ',' :: next) :=
      readValue_text _ _ s (by simp) (by simp)
    have hnext := ih fuel (.text s :: acc) (Nat.lt_of_succ_lt_succ hfuel)
    have hread : acc.reverse ++ (s :: ss).map Value.text = (Value.text s :: acc).reverse ++ ss.map .text :=
      reverse_append_cons acc (Value.text s) (ss.map .text)
    have hlines : itemLines (s :: ss) ++ ']' :: rest =
        "    ".toList ++ ((writeText s).toList ++ ',' :: next) := by
      simp only [itemLines, List.flatMap_cons, List.append_assoc]
      rfl
    rw [hread, ← hnext, hlines]
    obtain ⟨more, hhead⟩ := writeText_head s
    rcases hhead with hhead | hhead
    all_goals
      rw [hhead] at hvalue ⊢
      exact readItems_comma ((skipLines_line _ _).trans (skipLines_indent (by decide) _)) (by decide) hvalue
        (skipLines_of_mark (by decide) _)

/-! ## Numbers -/

theorem isDigit_toDigits (n : Nat) : ∀ c ∈ Nat.toDigits 10 n, c.isDigit = true :=
  fun _ hc => Nat.isDigit_of_mem_toDigits (by decide) (by decide) hc

theorem toString_head (n : Nat) : ∃ d ds, (toString n).toList = d :: ds ∧ d.isDigit = true := by
  have hwritten : (toString n).toList = Nat.toDigits 10 n := Nat.toList_repr
  obtain ⟨d, ds, hcons⟩ := List.exists_cons_of_ne_nil (Nat.toDigits_ne_nil (n := n) (b := 10))
  exact ⟨d, ds, hwritten.trans hcons, isDigit_toDigits n d (hcons ▸ List.mem_cons_self)⟩

theorem isDigit_of_isDigit {c : Char} (h : c.isDigit = true) : isDigit c = true := by
  rw [isDigit, Bool.and_eq_true, decide_eq_true_eq, decide_eq_true_eq]
  exact Json.toNat_of_isDigit h

theorem ne_of_isDigit {c d : Char} (hc : c.isDigit = true) (hd : d.isDigit = false) : c ≠ d := by
  rintro rfl
  exact Bool.false_ne_true (hd.symm.trans hc)

theorem digitValue_of_isDigit {c : Char} (h : c.isDigit = true) : digitValue c = c.toNat - '0'.toNat := by
  have hdigit : '0' ≤ c ∧ c ≤ '9' := Json.toNat_of_isDigit h
  rw [digitValue, hexValue?, if_pos hdigit]
  rfl

section
variable {ds : List Char} (hds : ∀ c ∈ ds, c.isDigit = true) (rest : List Char)
include hds

theorem valueOf_digits (n : Nat) :
    ds.foldl (fun n c => n * 10 + digitValue c) n = Nat.ofDigitChars 10 ds n := by
  induction ds generalizing n with
  | nil => rfl
  | cons c ds ih =>
    obtain ⟨hc, hrest⟩ := List.forall_mem_cons.1 hds
    rw [List.foldl_cons, ih hrest, Nat.ofDigitChars_cons, digitValue_of_isDigit hc, Nat.mul_comm]

theorem moreDigits_digits : moreDigits isDigit (ds ++ '\n' :: rest) = some (ds, '\n' :: rest) := by
  induction ds with
  | nil => rfl
  | cons c ds ih =>
    obtain ⟨hc, hrest⟩ := List.forall_mem_cons.1 hds
    have hmark : c ≠ '_' := ne_of_isDigit hc rfl
    rw [List.cons_append, moreDigits, if_pos (isDigit_of_isDigit hc), ih hrest]
    · rfl
    all_goals simp [hmark]

/-- Behind so many digits in front of a line end there is one more digit, or the line end. -/
theorem readFixed_digits {k n : Nat} {more : List Char} (h : readFixed k (ds ++ '\n' :: rest) = some (n, more)) :
    ∃ c tail, more = c :: tail ∧ (c.isDigit = true ∨ c = '\n') := by
  unfold readFixed at h
  dsimp only at h
  split at h
  · next hfixed =>
    cases h
    by_cases hk : k ≤ ds.length
    · rw [List.drop_append_of_le_length hk]
      cases hdrop : ds.drop k with
      | nil => exact ⟨'\n', rest, rfl, .inr rfl⟩
      | cons c tail =>
        exact ⟨c, _, rfl, .inl (hds c (List.mem_of_mem_drop (hdrop ▸ List.mem_cons_self)))⟩
    · have hline : '\n' ∈ (ds ++ '\n' :: rest).take k := by
        obtain ⟨more, hmore⟩ := Nat.exists_eq_add_of_lt (Nat.not_le.1 hk)
        rw [hmore, Nat.add_assoc, List.take_length_add_append]
        exact List.mem_append_right _ List.mem_cons_self
      cases List.all_eq_true.1 hfixed.2 _ hline
  · cases h

theorem beginsTime_digits : beginsTime (ds ++ '\n' :: rest) = false := by
  unfold beginsTime readTwo
  cases hfixed : readFixed 2 (ds ++ '\n' :: rest) with
  | none => rfl
  | some found =>
    obtain ⟨n, more⟩ := found
    obtain ⟨c, tail, rfl, hc⟩ := readFixed_digits hds rest hfixed
    have hcolon : c ≠ ':' := by
      rintro rfl
      rcases hc with hc | hc <;> cases hc
    dsimp only
    split
    · next heq =>
      split at heq <;> cases heq
      exact absurd rfl hcolon
    · rfl

theorem readFigure_digits : readFigure (ds ++ '\n' :: rest) = readNumber (ds ++ '\n' :: rest) := by
  unfold readFigure
  rw [beginsTime_digits hds]
  split
  · next hfixed =>
    obtain ⟨c, tail, hmore, hc⟩ := readFixed_digits hds rest hfixed
    cases hmore
    rcases hc with hc | hc <;> cases hc
  · rfl

end

theorem readWhole_digits (n : Nat) (rest : List Char) :
    readWhole (Nat.toDigits 10 n ++ '\n' :: rest) = some (Nat.toDigits 10 n, '\n' :: rest) := by
  have hdigits := isDigit_toDigits n
  by_cases hzero : n = 0
  · subst hzero
    rfl
  · obtain ⟨d, ds, hcons, hd⟩ := Json.toDigits_head hzero
    rw [hcons] at hdigits ⊢
    obtain ⟨hdigit, hmore⟩ := List.forall_mem_cons.1 hdigits
    rw [List.cons_append, readWhole, readDigits, if_pos (isDigit_of_isDigit hdigit), moreDigits_digits hmore]
    · rfl
    · simp [hd]

theorem readDecimal_digits {n : Nat} (hn : (n : Int) ≤ maxInteger) (rest : List Char) :
    readDecimal false (Nat.toDigits 10 n ++ '\n' :: rest) = some (.integer n, '\n' :: rest) := by
  have hdigits := isDigit_toDigits n
  have hvalue : valueOf 10 (Nat.toDigits 10 n) = n :=
    (valueOf_digits hdigits 0).trans Nat.ofDigitChars_ten_toDigits
  have hinteger : integerOf (n : Int) = some (.integer n) := by
    refine if_pos ⟨?_, hn⟩
    rw [minInteger]
    omega
  rw [readDecimal, readWhole_digits]
  simp [readFraction, readExponent, hvalue, hinteger]

theorem readNumber_of_head {c : Char} {cs : List Char} (hc : c.isDigit = true)
    (hbase : c = '0' → cs.head? = some '\n') : readNumber (c :: cs) = readDecimal false (c :: cs) := by
  have hother {d : Char} (hd : d.isDigit = false) : c ≠ d := ne_of_isDigit hc hd
  have hsign : readSign (c :: cs) = (none, c :: cs) := by
    rw [readSign]
    · exact fun rest heq => hother rfl (List.cons.inj heq).1
    · exact fun rest heq => hother rfl (List.cons.inj heq).1
  have hzero {d : Char} (hd : d ≠ '\n') (rest : List Char) : c :: cs ≠ '0' :: d :: rest := by
    intro heq
    obtain ⟨hc, rfl⟩ := List.cons.inj heq
    exact hd (Option.some.inj (hbase hc))
  rw [readNumber]
  · rw [hsign]
    dsimp only
    split
    · next heq => exact absurd (List.cons.inj heq).1 (hother rfl)
    · next heq => exact absurd (List.cons.inj heq).1 (hother rfl)
    · rfl
  · exact hzero (by decide)
  · exact hzero (by decide)
  · exact hzero (by decide)

theorem readFigure_number {n : Nat} (hn : (n : Int) ≤ maxInteger) (rest : List Char) :
    readFigure ((toString n).toList ++ '\n' :: rest) = some (.integer n, '\n' :: rest) := by
  have hdigits := isDigit_toDigits n
  have hwritten : (toString n).toList = Nat.toDigits 10 n := Nat.toList_repr
  rw [hwritten, readFigure_digits hdigits, ← readDecimal_digits hn]
  by_cases hzero : n = 0
  · subst hzero
    exact readNumber_of_head rfl fun _ => rfl
  · obtain ⟨d, ds, hcons, hd⟩ := Json.toDigits_head hzero
    rw [hcons] at hdigits ⊢
    exact readNumber_of_head (hdigits d List.mem_cons_self) fun h => absurd h hd

/-! ## Values -/

/-- What is written as a value. -/
inductive Written where
  | text (s : String)
  | texts (ss : List String)
  | boolean (b : Bool)
  | number (n : Nat)

namespace Written

def render : Written → String
  | text s => writeText s
  | texts ss => writeTexts ss
  | boolean b => writeBoolean b
  | number n => toString n

def value : Written → Value
  | text s => .text s
  | texts ss => .array (ss.map .text)
  | boolean b => .boolean b
  | number n => .integer n

/-- Whether a number is no larger than an integer can be. -/
def Fits : Written → Prop
  | number n => (n : Int) ≤ maxInteger
  | _ => True

end Written

theorem writeTexts_many (s s' : String) (ss : List String) :
    writeTexts (s :: s' :: ss) =
      "[\n" ++ String.join ((s :: s' :: ss).map fun s => "    " ++ writeText s ++ ",\n") ++ "]" := rfl

theorem readValue_texts {length depth : Nat} {ss : List String} (hlength : (writeTexts ss).toList.length ≤ length)
    (rest : List Char) :
    readValue length (depth + 1) ((writeTexts ss).toList ++ rest) = some (.array (ss.map .text), rest) := by
  have hitems {inner : List Char} (h : readItems length (readValue length depth) (length + 1) [] inner =
      some (ss.map .text, rest)) :
      readValue length (depth + 1) ('[' :: inner) = some (.array (ss.map .text), rest) := by
    rw [readValue, h]
    rfl
  rcases ss with _ | ⟨s, _ | ⟨s', ss⟩⟩
  · exact hitems (readItems_end (skipLines_of_mark (by decide) _))
  · have hvalue : readValue length depth ((writeText s).toList ++ ']' :: rest) = some (.text s, ']' :: rest) :=
      readValue_text _ _ s (by simp) (by simp)
    have hwritten : (writeTexts [s]).toList ++ rest = '[' :: ((writeText s).toList ++ ']' :: rest) := by
      rw [writeTexts, String.toList_append, String.toList_append, List.append_assoc, List.append_assoc]
      rfl
    rw [hwritten]
    refine hitems ?_
    obtain ⟨more, hhead | hhead⟩ := writeText_head s
    all_goals
      rw [hhead] at hvalue ⊢
      exact readItems_last (skipLines_of_mark (by decide) _) (by decide) hvalue (skipLines_of_mark (by decide) _)
  · have hwritten : (writeTexts (s :: s' :: ss)).toList = '[' :: '\n' :: (itemLines (s :: s' :: ss) ++ [']']) := by
      rw [writeTexts_many, String.toList_append, String.toList_append, String.toList_join, List.flatMap_map]
      simp only [String.toList_append]
      rfl
    have hlines := length_le_itemLines (s :: s' :: ss)
    rw [hwritten] at hlength ⊢
    simp only [List.length_cons, List.length_append] at hlength hlines
    rw [List.cons_append, List.cons_append, List.append_assoc]
    refine hitems (readItems_lines (by omega) rest _ _ [] ?_)
    simp only [List.length_cons]
    omega

theorem readValue_written {length depth : Nat} {w : Written} (hw : w.Fits)
    (hlength : w.render.toList.length ≤ length) (rest : List Char) :
    readValue length (depth + 1) (w.render.toList ++ '\n' :: rest) = some (w.value, '\n' :: rest) := by
  cases w with
  | text s => exact readValue_text _ _ s (by simp) (by simp)
  | texts ss => exact readValue_texts hlength _
  | boolean b => cases b <;> rfl
  | number n =>
    have hfigure : readFigure ((toString n).toList ++ '\n' :: rest) = some (.integer n, '\n' :: rest) :=
      readFigure_number hw rest
    obtain ⟨d, ds, hcons, hd⟩ := toString_head n
    have hother {c : Char} (hc : c.isDigit = false) : d ≠ c := ne_of_isDigit hd hc
    rw [Written.render, Written.value]
    rw [hcons, List.cons_append] at hfigure ⊢
    rw [readValue]
    · exact hfigure
    all_goals exact fun _ heq => hother rfl (List.cons.inj heq).1

end FontCatalog.Toml
