import FontCatalog.Toml.Lexer
import FontCatalog.Toml.Writer
import Mathlib.Data.List.Basic

/-! Strings read back from the quotes in which they are written. Where quotes may stand in a string as they are, at
most two of them stand in a row, so three in a row belong to the end; of more than three the first ones belong to
the string. -/
namespace FontCatalog.Toml
set_option autoImplicit false

/-! ## Escapes -/

/-- What is written for a character that is no double quote. -/
def escaped (block : Bool) (c : Char) : List Char :=
  if c = '\x08' then ['\\', 'b']
  else if c = '\t' then ['\\', 't']
  else if c = '\n' then if block then ['\n'] else ['\\', 'n']
  else if c = '\x0c' then ['\\', 'f']
  else if c = '\r' then ['\\', 'r']
  else if c = '\\' then ['\\', '\\']
  else if c.toNat < 0x20 ∨ c.toNat = 0x7F then '\\' :: 'u' :: hex4 c.toNat
  else [c]

theorem escape_quote (block : Bool) (free run : Nat) (cs : List Char) :
    escape block free run ('"' :: cs) =
      if run < free then '"' :: escape block free (run + 1) cs else '\\' :: '"' :: escape block free 0 cs := rfl

theorem escape_cons {c : Char} (h : c ≠ '"') (block : Bool) (free run : Nat) (cs : List Char) :
    escape block free run (c :: cs) = escaped block c ++ escape block free 0 cs := by
  rw [escape, if_neg h]
  rfl

theorem charOfHex?_hex4 {n : Nat} (h : n < 0x80) : charOfHex? (hex4 n) = some (Char.ofNat n) := by
  have hall : ∀ n : Fin 0x80, charOfHex? (hex4 n) = some (Char.ofNat n) := by decide +kernel
  exact hall ⟨n, h⟩

theorem isShown_of_not_control {c : Char} (h : isControl c = false) (hline : c ≠ '\n') : isShown c = true := by
  by_cases htab : c = '\t'
  · rw [htab]
    rfl
  · simp only [isControl, isShown, bne_iff_ne.2 htab, bne_iff_ne.2 hline, Bool.and_true, Bool.or_eq_false_iff,
      decide_eq_false_iff_not, beq_eq_false_iff_ne, beq_eq_false_iff_ne.2 htab, Bool.false_or, Bool.and_eq_true,
      decide_eq_true_eq, bne_iff_ne] at h ⊢
    omega

/-- How a character is written: by an escape of one letter, as a line end, by its number, or as it is. -/
inductive Escaped (block : Bool) (c : Char) : List Char → Prop
  | letter (x : Char) (h : simpleEscape? x = some c) (hx : isBlank x = false) : Escaped block c ['\\', x]
  | line (hc : c = '\n') (h : block = true) : Escaped block c ['\n']
  | number (h : c.toNat < 0x80) : Escaped block c ('\\' :: 'u' :: hex4 c.toNat)
  | plain (h : isShown c = true) (hback : c ≠ '\\') (hline : c ≠ '\n') : Escaped block c [c]

theorem escaped_spec (block : Bool) (c : Char) : Escaped block c (escaped block c) := by
  by_cases hback : c = '\\'
  · subst hback
    exact .letter '\\' rfl rfl
  unfold escaped
  split
  · next h => exact .letter 'b' (congrArg some h.symm) rfl
  split
  · next h => exact .letter 't' (congrArg some h.symm) rfl
  split
  · next h =>
    split
    · next hblock => exact .line h hblock
    · exact .letter 'n' (congrArg some h.symm) rfl
  split
  · next h => exact .letter 'f' (congrArg some h.symm) rfl
  split
  · next h => exact .letter 'r' (congrArg some h.symm) rfl
  split
  · exact .number (by omega)
  · next hline _ _ hcontrol =>
    refine .plain ?_ hback hline
    simp only [isShown, Bool.or_eq_true, Bool.and_eq_true, decide_eq_true_eq, bne_iff_ne]
    omega

/-! ## One line -/

/-- What has been read, the last one first, with one more. -/
theorem reverse_append_cons {α : Type} (acc : List α) (x : α) (rest : List α) :
    acc.reverse ++ x :: rest = (x :: acc).reverse ++ rest := by
  rw [List.append_cons, List.reverse_cons]

section
variable (acc : List Char) (rest : List Char)

theorem readBasic_plain {c : Char} (h : isShown c = true) (hquote : c ≠ '"') (hback : c ≠ '\\') :
    readBasic acc (c :: rest) = readBasic (c :: acc) rest := by
  rw [readBasic.eq_def]
  split <;> simp_all

theorem readBasic_letter {c x : Char} (h : simpleEscape? x = some c) :
    readBasic acc ('\\' :: x :: rest) = readBasic (c :: acc) rest := by
  unfold simpleEscape? at h
  split at h <;> cases h <;> simp [readBasic, simpleEscape?]

theorem readBasic_number {n : Nat} (h : n < 0x80) :
    readBasic acc ('\\' :: 'u' :: (hex4 n ++ rest)) = readBasic (Char.ofNat n :: acc) rest := by
  have hhex := charOfHex?_hex4 h
  rw [hex4] at hhex ⊢
  simp only [List.map_cons, List.map_nil, List.cons_append, List.nil_append] at hhex ⊢
  rw [readBasic, hhex]
  rfl

theorem readBasic_escaped {c : Char} (h : c ≠ '"') :
    readBasic acc (escaped false c ++ rest) = readBasic (c :: acc) rest := by
  have hspec := escaped_spec false c
  generalize escaped false c = written at hspec ⊢
  cases hspec with
  | letter x hx => exact readBasic_letter acc rest hx
  | line hc hblock => cases hblock
  | number hn =>
    have hnumber := readBasic_number acc rest hn
    rwa [Char.ofNat_toNat] at hnumber
  | plain hshown hback => exact readBasic_plain acc rest hshown h hback

theorem readBasic_escape (run : Nat) (cs : List Char) :
    readBasic acc (escape false 0 run cs ++ '"' :: rest) = some (String.ofList (acc.reverse ++ cs), rest) := by
  induction cs generalizing acc run with
  | nil =>
    rw [List.append_nil]
    rfl
  | cons c cs ih =>
    have hread := reverse_append_cons acc c cs
    rw [hread]
    by_cases hc : c = '"'
    · subst hc
      rw [escape_quote, if_neg (Nat.not_lt_zero run)]
      exact (readBasic_letter acc _ rfl).trans (ih _ 0)
    · rw [escape_cons hc, List.append_assoc, readBasic_escaped _ _ hc]
      exact ih _ 0

theorem readLiteral_shown {cs : List Char} (h : ∀ c ∈ cs, isShown c = true ∧ c ≠ '\'') :
    readLiteral acc (cs ++ '\'' :: rest) = some (String.ofList (acc.reverse ++ cs), rest) := by
  induction cs generalizing acc with
  | nil =>
    rw [List.append_nil]
    rfl
  | cons c cs ih =>
    obtain ⟨⟨hshown, hquote⟩, hrest⟩ := List.forall_mem_cons.1 h
    have hstep : readLiteral acc (c :: (cs ++ '\'' :: rest)) = readLiteral (c :: acc) (cs ++ '\'' :: rest) := by
      rw [readLiteral.eq_def]
      split <;> simp_all
    have hread := reverse_append_cons acc c cs
    rw [List.cons_append, hstep, ih _ hrest, hread]

end

/-! ## Several lines -/

theorem closeBlock_replicate {quote : Char} {rest : List Char} (h : rest.head? ≠ some quote) (acc : List Char)
    {n : Nat} (hn : n ≤ 2) :
    closeBlock quote acc (List.replicate n quote ++ rest) =
      (String.ofList (acc.reverse ++ List.replicate n quote), rest) := by
  have hrest : rest.takeWhile (· == quote) = [] := by
    cases rest with
    | nil => rfl
    | cons c rest => exact List.takeWhile_cons_of_neg (by simpa using h)
  have htake : ((List.replicate n quote ++ rest).takeWhile (· == quote)).length = n := by
    rw [List.takeWhile_append_of_pos (by simp), hrest, List.append_nil, List.length_replicate]
  rw [closeBlock, htake, Nat.min_eq_left hn, List.drop_left' (List.length_replicate ..), List.reverse_append,
    List.reverse_replicate]

section
variable (acc rest : List Char)

theorem readBasicBlock_quote (h : ∀ more, rest ≠ '"' :: '"' :: more) :
    readBasicBlock false acc ('"' :: rest) = readBasicBlock false ('"' :: acc) rest := by
  rw [readBasicBlock]
  · rfl
  · exact fun more _ hmore => h more hmore
  all_goals simp

theorem readBasicBlock_plain {c : Char} (h : isShown c = true) (hquote : c ≠ '"') (hback : c ≠ '\\')
    (hline : c ≠ '\n') : readBasicBlock false acc (c :: rest) = readBasicBlock false (c :: acc) rest := by
  have hreturn : c ≠ '\r' := by
    rintro rfl
    cases h
  rw [readBasicBlock.eq_def]
  split <;> simp_all

theorem readBasicBlock_line :
    readBasicBlock false acc ('\n' :: rest) = readBasicBlock false ('\n' :: acc) rest := by
  rw [readBasicBlock]
  rfl

theorem readBasicBlock_letter {c x : Char} (h : simpleEscape? x = some c) :
    readBasicBlock false acc ('\\' :: x :: rest) = readBasicBlock false (c :: acc) rest := by
  unfold simpleEscape? at h
  split at h <;> cases h <;>
    simp [readBasicBlock, simpleEscape?, joinsLines, skipBlanks, isBlank, afterNewline?]

theorem readBasicBlock_number {n : Nat} (h : n < 0x80) :
    readBasicBlock false acc ('\\' :: 'u' :: (hex4 n ++ rest)) =
      readBasicBlock false (Char.ofNat n :: acc) rest := by
  have hhex := charOfHex?_hex4 h
  rw [hex4] at hhex ⊢
  simp only [List.map_cons, List.map_nil, List.cons_append, List.nil_append] at hhex ⊢
  rw [readBasicBlock, hhex]
  rfl

theorem readBasicBlock_escaped {c : Char} (h : c ≠ '"') :
    readBasicBlock false acc (escaped true c ++ rest) = readBasicBlock false (c :: acc) rest := by
  have hspec := escaped_spec true c
  generalize escaped true c = written at hspec ⊢
  cases hspec with
  | letter x hx => exact readBasicBlock_letter acc rest hx
  | line hc =>
    rw [hc]
    exact readBasicBlock_line acc rest
  | number hn =>
    have hnumber := readBasicBlock_number acc rest hn
    rwa [Char.ofNat_toNat] at hnumber
  | plain hshown hback hline => exact readBasicBlock_plain acc rest hshown h hback hline

end

theorem escaped_head {c : Char} (h : c ≠ '"') (block : Bool) (rest : List Char) :
    (escaped block c ++ rest).head? ≠ some '"' := by
  have hspec := escaped_spec block c
  generalize escaped block c = written at hspec ⊢
  cases hspec with
  | plain => simpa using h
  | _ => simp

/-- After two double quotes, a third one is escaped. -/
theorem escape_head {cs : List Char} (h : cs ≠ []) (rest : List Char) :
    (escape true 2 2 cs ++ rest).head? ≠ some '"' := by
  obtain ⟨c, cs, rfl⟩ := List.exists_cons_of_ne_nil h
  by_cases hc : c = '"'
  · rw [hc, escape_quote]
    simp
  · rw [escape_cons hc, List.append_assoc]
    exact escaped_head hc true _

/-- Behind a double quote two more begin only at the end of the string. -/
theorem escape_ne_two {run : Nat} (hrun : run < 2) {cs : List Char} (hnil : cs ≠ [])
    (htwo : ¬(cs = ['"'] ∧ run = 0)) (rest more : List Char) :
    escape true 2 (run + 1) cs ++ rest ≠ '"' :: '"' :: more := by
  intro hmore
  have hhead := congrArg List.head? hmore
  obtain ⟨c, cs, rfl⟩ := List.exists_cons_of_ne_nil hnil
  by_cases hc : c = '"'
  · subst hc
    by_cases hzero : run = 0
    · subst hzero
      rw [escape_quote, if_pos (by decide), List.cons_append] at hmore
      have hnext := congrArg List.head? (List.cons.inj hmore).2
      exact escape_head (fun hcs => htwo ⟨by rw [hcs], rfl⟩) rest hnext
    · obtain rfl : run = 1 := by omega
      exact escape_head (List.cons_ne_nil _ _) rest hhead
  · rw [escape_cons hc, List.append_assoc] at hhead
    exact escaped_head hc true _ hhead

theorem readBasicBlock_escape {rest : List Char} (h : rest.head? ≠ some '"') (acc : List Char) (run : Nat)
    (cs : List Char) :
    readBasicBlock false acc (escape true 2 run cs ++ '"' :: '"' :: '"' :: rest) =
      some (String.ofList (acc.reverse ++ cs), rest) := by
  induction cs generalizing acc run with
  | nil => exact congrArg some (closeBlock_replicate h acc (n := 0) (by decide))
  | cons c cs ih =>
    have hread := reverse_append_cons acc c cs
    by_cases hc : c = '"'
    · subst hc
      rw [escape_quote]
      split
      · next hrun =>
        by_cases hnil : cs = []
        · subst hnil
          exact congrArg some (closeBlock_replicate h acc (n := 1) (by decide))
        by_cases htwo : cs = ['"'] ∧ run = 0
        · obtain ⟨rfl, rfl⟩ := htwo
          exact congrArg some (closeBlock_replicate h acc (n := 2) (by decide))
        · rw [hread, ← ih _ (run + 1)]
          exact readBasicBlock_quote _ _ (escape_ne_two hrun hnil htwo _)
      · rw [hread]
        exact (readBasicBlock_letter acc _ rfl).trans (ih _ 0)
    · rw [hread, escape_cons hc, List.append_assoc, readBasicBlock_escaped _ _ hc]
      exact ih _ 0

theorem le_longestRun (c : Char) (cs : List Char) (run : Nat) : run ≤ longestRun c run cs := by
  induction cs generalizing run with
  | nil => exact Nat.le_refl _
  | cons d cs ih =>
    rw [longestRun]
    split
    · exact Nat.le_of_succ_le (ih (run + 1))
    · exact Nat.le_max_left ..

section
variable (acc rest : List Char)

theorem readLiteralBlock_quote (h : ∀ more, rest ≠ '\'' :: '\'' :: more) :
    readLiteralBlock acc ('\'' :: rest) = readLiteralBlock ('\'' :: acc) rest := by
  rw [readLiteralBlock]
  · rfl
  · exact fun more _ hmore => h more hmore
  all_goals simp

theorem readLiteralBlock_other {c : Char} (h : isControl c = false) (hquote : c ≠ '\'') :
    readLiteralBlock acc (c :: rest) = readLiteralBlock (c :: acc) rest := by
  by_cases hline : c = '\n'
  · rw [hline]
    rfl
  have hshown := isShown_of_not_control h hline
  have hreturn : c ≠ '\r' := by
    rintro rfl
    cases hshown
  rw [readLiteralBlock.eq_def]
  split <;> simp_all

end

theorem readLiteralBlock_run {rest : List Char} (h : rest.head? ≠ some '\'') (acc : List Char) (run : Nat)
    {cs : List Char} (hrun : longestRun '\'' run cs ≤ 2) (hcs : ∀ c ∈ cs, isControl c = false) :
    readLiteralBlock acc (cs ++ '\'' :: '\'' :: '\'' :: rest) =
      some (String.ofList (acc.reverse ++ cs), rest) := by
  induction cs generalizing acc run with
  | nil => exact congrArg some (closeBlock_replicate h acc (n := 0) (by decide))
  | cons c cs ih =>
    have hread := reverse_append_cons acc c cs
    obtain ⟨hc, hrest⟩ := List.forall_mem_cons.1 hcs
    rw [longestRun] at hrun
    by_cases hquote : c = '\''
    · subst hquote
      rw [if_pos rfl] at hrun
      by_cases hnil : cs = []
      · subst hnil
        exact congrArg some (closeBlock_replicate h acc (n := 1) (by decide))
      by_cases htwo : cs = ['\'']
      · subst htwo
        exact congrArg some (closeBlock_replicate h acc (n := 2) (by decide))
      · rw [hread, ← ih _ (run + 1) hrun hrest]
        refine readLiteralBlock_quote _ _ fun more hmore => ?_
        -- three in a row would be too many
        obtain ⟨d, cs, rfl⟩ := List.exists_cons_of_ne_nil hnil
        obtain ⟨rfl, hbehind⟩ := List.cons.inj hmore
        have htail : cs ≠ [] := fun hcs => htwo (by rw [hcs])
        obtain ⟨e, cs, rfl⟩ := List.exists_cons_of_ne_nil htail
        obtain ⟨rfl, -⟩ := List.cons.inj hbehind
        have hlong := le_longestRun '\'' cs (run + 1 + 1 + 1)
        rw [longestRun, if_pos rfl, longestRun, if_pos rfl] at hrun
        omega
    · rw [if_neg hquote] at hrun
      rw [hread, ← ih _ 0 (Nat.le_trans (Nat.le_max_right ..) hrun) hrest]
      exact readLiteralBlock_other _ _ hc hquote

/-! ## Strings -/

theorem ne_of_longestRun {c : Char} {cs : List Char} (h : longestRun c 0 cs = 0) : ∀ d ∈ cs, d ≠ c := by
  induction cs with
  | nil => exact List.forall_mem_nil _
  | cons d cs ih =>
    rw [longestRun] at h
    split at h
    · have hone := le_longestRun c cs 1
      rw [Nat.zero_add] at h
      omega
    · next hd => exact List.forall_mem_cons.2 ⟨hd, ih (by omega)⟩

/-- Where a string is written between three quotes, the line end in front of it is not part of it. -/
theorem dropNewline_blockStart {cs body : List Char}
    (h : cs.contains '\n' = false → body.head? ≠ some '\n' ∧ body.head? ≠ some '\r') :
    dropNewline (blockStart cs ++ body) = body := by
  unfold blockStart
  split
  · rfl
  · next hline =>
    obtain ⟨hnewline, hreturn⟩ := h (by simpa using hline)
    cases body with
    | nil => rfl
    | cons c body =>
      have hnone : afterNewline? (c :: body) = none := by
        unfold afterNewline?
        split <;> simp_all
      rw [List.nil_append, dropNewline, hnone]
      rfl

/-- What is known of a string that is written in these quotes. -/
inductive Suits (cs : List Char) : Quotes → Prop
  | basic : Suits cs .basic
  | literal (hne : cs ≠ []) (h : ∀ c ∈ cs, isShown c = true ∧ c ≠ '\'') : Suits cs .literal
  | basicBlock : Suits cs .basicBlock
  | literalBlock (h : ∀ c ∈ cs, isControl c = false) (hrun : longestRun '\'' 0 cs ≤ 2) : Suits cs .literalBlock

theorem quotesFor_suits (cs : List Char) : Suits cs (quotesFor cs) := by
  have hcontrol (h : (!cs.any isControl) = true) : ∀ c ∈ cs, isControl c = false := by simpa using h
  unfold quotesFor
  dsimp only
  split
  · exact .basic
  next hbasic =>
  split
  · next h =>
    simp only [Bool.and_eq_true, beq_iff_eq] at h
    obtain ⟨⟨hnone, hsingle⟩, hline⟩ := h
    refine .literal ?_ fun c hc => ⟨?_, ne_of_longestRun hsingle c hc⟩
    · rintro rfl
      exact hbasic rfl
    · exact isShown_of_not_control (hcontrol hnone c hc) fun h => by simp [h ▸ hc] at hline
  split
  · exact .basicBlock
  split
  · next h =>
    simp only [Bool.and_eq_true, decide_eq_true_eq] at h
    exact .literalBlock (hcontrol h.1) h.2
  split
  · exact .basicBlock
  · exact .basic

theorem readString_basic {rest : List Char} (h : ∀ more, rest ≠ '"' :: '"' :: more) :
    readString ('"' :: rest) = readBasic [] rest := by
  rw [readString]
  exact fun more hmore => h more hmore

theorem readString_literal {rest : List Char} (h : ∀ more, rest ≠ '\'' :: '\'' :: more) :
    readString ('\'' :: rest) = readLiteral [] rest := by
  rw [readString]
  exact fun more hmore => h more hmore

theorem escape_head_of_no_line {cs rest : List Char} (h : cs.contains '\n' = false) (free run : Nat) :
    (escape true free run cs ++ '"' :: rest).head? ≠ some '\n' ∧
      (escape true free run cs ++ '"' :: rest).head? ≠ some '\r' := by
  cases cs with
  | nil => exact ⟨by simp [escape], by simp [escape]⟩
  | cons c cs =>
    by_cases hc : c = '"'
    · subst hc
      rw [escape_quote]
      split <;> simp
    · rw [escape_cons hc]
      have hspec := escaped_spec true c
      generalize escaped true c = written at hspec ⊢
      cases hspec with
      | line hline => simp [hline] at h
      | plain hshown hback hline =>
        refine ⟨by simpa using hline, ?_⟩
        simp only [List.cons_append, List.head?_cons, ne_eq, Option.some.injEq]
        rintro rfl
        cases hshown
      | _ => simp

theorem readString_writeText (s : String) {rest : List Char} (hdouble : rest.head? ≠ some '"')
    (hsingle : rest.head? ≠ some '\'') : readString ((writeText s).toList ++ rest) = some (s, rest) := by
  have hsuits := quotesFor_suits s.toList
  have hback : String.ofList ([].reverse ++ s.toList) = s := String.ofList_toList
  unfold writeText
  dsimp only
  generalize quotesFor s.toList = quotes at hsuits ⊢
  cases hsuits with
  | basic =>
    have hread := readBasic_escape [] rest 0 s.toList
    rw [hback] at hread
    simp only [String.toList_append, String.toList_ofList, List.append_assoc]
    refine (readString_basic fun more hmore => ?_).trans hread
    have hhead := congrArg List.head? hmore
    cases hcs : s.toList with
    | nil =>
      rw [hcs] at hmore
      exact hdouble (congrArg List.head? (List.cons.inj hmore).2)
    | cons c cs =>
      rw [hcs] at hhead
      by_cases hc : c = '"'
      · rw [hc, escape_quote] at hhead
        simp at hhead
      · rw [escape_cons hc, List.append_assoc] at hhead
        exact escaped_head hc false _ hhead
  | literal hne h =>
    have hread := readLiteral_shown [] rest h
    rw [hback] at hread
    simp only [String.toList_append, List.append_assoc]
    refine (readString_literal fun more hmore => ?_).trans hread
    obtain ⟨c, cs, hcs⟩ := List.exists_cons_of_ne_nil hne
    rw [hcs] at hmore
    exact (h c (hcs ▸ List.mem_cons_self)).2 (List.cons.inj hmore).1
  | basicBlock =>
    have hread := readBasicBlock_escape hdouble [] 0 s.toList
    rw [hback] at hread
    simp only [String.toList_append, String.toList_ofList, List.append_assoc]
    show readBasicBlock false []
      (dropNewline (blockStart s.toList ++ (escape true 2 0 s.toList ++ '"' :: '"' :: '"' :: rest))) = _
    rw [dropNewline_blockStart fun hline => escape_head_of_no_line hline 2 0, hread]
  | literalBlock h hrun =>
    have hread := readLiteralBlock_run hsingle [] 0 hrun h
    rw [hback] at hread
    simp only [String.toList_append, String.toList_ofList, List.append_assoc]
    show readLiteralBlock [] (dropNewline (blockStart s.toList ++ (s.toList ++ '\'' :: '\'' :: '\'' :: rest))) = _
    rw [dropNewline_blockStart fun hline => ?_, hread]
    cases hcs : s.toList with
    | nil => exact ⟨by simp, by simp⟩
    | cons c cs =>
      rw [hcs] at hline h
      refine ⟨fun hc => ?_, fun hc => ?_⟩
      · obtain rfl := Option.some.inj hc
        simp at hline
      · obtain rfl := Option.some.inj hc
        cases h '\r' List.mem_cons_self

end FontCatalog.Toml
