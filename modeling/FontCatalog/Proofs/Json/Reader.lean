import FontCatalog.Proofs.Json.Layout

/-! Reading what has been written, in any layout: elements and members one after the other, and with
them every value that is not nested too deep and holds only integers. -/
namespace FontCatalog.Json
set_option autoImplicit false
open FontCatalog.Text

/-! ## Where values begin and end -/

/-- A value begins here: the first byte is neither white space nor a closing bracket. -/
def Starts (bs : Bytes) : Prop :=
  ∃ b rest, bs = b :: rest ∧ isSpace b = false ∧ (b == byte ']') = false

theorem ends_of_space {b : UInt8} (h : isSpace b = true) (bs : Bytes) : Ends (b :: bs) := by
  simp only [isSpace, Bool.or_eq_true, beq_iff_eq] at h
  obtain ((rfl | rfl) | rfl) | rfl := h <;> exact ⟨by decide, by decide, by decide⟩

section
variable {α : Type} (line close : Bytes) (text : α → Bytes)

theorem ends_listed {line close : Bytes} {text : α → Bytes} {b : UInt8} (hclose : Blank close)
    (hb : Ends [b]) (xs : List α) (rest : Bytes) :
    Ends (listed line (close ++ [b]) text xs ++ rest) := by
  cases xs with
  | nil =>
    cases close with
    | nil => exact hb
    | cons c close => exact ends_of_space (hclose c List.mem_cons_self) _
  | cons x xs => exact ⟨by decide, by decide, by decide⟩

theorem length_le_listed (xs : List α) : xs.length ≤ (listed line close text xs).length := by
  induction xs with
  | nil => exact Nat.zero_le _
  | cons x xs ih =>
    simp only [listed, List.length_cons, List.length_append]
    omega

theorem length_text_le_listed {x : α} {xs : List α} (h : x ∈ xs) :
    (text x).length ≤ (listed line close text xs).length := by
  induction xs with
  | nil => cases h
  | cons y xs ih =>
    simp only [listed, List.length_cons, List.length_append]
    rcases List.mem_cons.1 h with rfl | h
    · omega
    · have hx := ih h
      omega

end

/-! ## Elements -/

section
variable {ε α : Type} {item : Reading ε α} {text : α → Bytes} {line close : Bytes}

theorem readItems_listed (hline : Blank line) (hclose : Blank close) {xs : List α}
    (hstart : ∀ x ∈ xs, Starts (text x))
    (hitem : ∀ x ∈ xs, ∀ rest, Ends rest → item (text x ++ rest) = .ok (x, rest))
    {fuel : Nat} (hfuel : xs.length < fuel) (acc : List α) (rest : Bytes) :
    readItems item fuel false acc (listed line (close ++ [byte ']']) text xs ++ rest) =
      .ok (acc.reverse ++ xs, rest) := by
  induction xs generalizing fuel acc with
  | nil =>
    obtain ⟨fuel, rfl⟩ := Nat.exists_eq_add_one_of_ne_zero (Nat.ne_zero_of_lt hfuel)
    have hskip : skipSpace (listed line (close ++ [byte ']']) text [] ++ rest) = byte ']' :: rest := by
      rw [listed, List.append_assoc, skipSpace_blank hclose]
      exact skipSpace_cons (by decide) rest
    simp [readItems, nextElement, closeList, hskip]
  | cons x xs ih =>
    obtain ⟨fuel, rfl⟩ := Nat.exists_eq_add_one_of_ne_zero (Nat.ne_zero_of_lt hfuel)
    rw [List.length_cons] at hfuel
    obtain ⟨b, bs, htext, hspace, hbracket⟩ := hstart x List.mem_cons_self
    have hends : Ends (listed line (close ++ [byte ']']) text xs ++ rest) :=
      ends_listed hclose (by exact ⟨by decide, by decide, by decide⟩) xs rest
    have hread := hitem x List.mem_cons_self _ hends
    have hcomma : skipSpace (listed line (close ++ [byte ']']) text (x :: xs) ++ rest) =
        byte ',' :: (line ++ (text x ++ (listed line (close ++ [byte ']']) text xs ++ rest))) := by
      rw [listed, List.cons_append, skipSpace_cons (by decide)]
      simp only [List.append_assoc]
    have hnext : skipSpace (line ++ (text x ++ (listed line (close ++ [byte ']']) text xs ++ rest))) =
        text x ++ (listed line (close ++ [byte ']']) text xs ++ rest) := by
      rw [skipSpace_blank hline, htext, List.cons_append, skipSpace_cons hspace]
    rw [readItems, nextElement, hcomma]
    dsimp only
    rw [if_neg (by decide), if_neg (by decide), if_pos (by decide), hnext]
    rw [htext, List.cons_append] at hread ⊢
    dsimp only
    rw [if_neg (by simp [hbracket])]
    dsimp only
    rw [hread]
    dsimp only
    rw [ih (fun y hy => hstart y (List.mem_cons_of_mem _ hy))
      (fun y hy => hitem y (List.mem_cons_of_mem _ hy)) (by omega)]
    simp

/-- The elements of a list that is not empty, from its opening bracket on. -/
theorem readItems_first (hline : Blank line) (hclose : Blank close) {x : α} {xs : List α}
    (hstart : ∀ y ∈ x :: xs, Starts (text y))
    (hitem : ∀ y ∈ x :: xs, ∀ rest, Ends rest → item (text y ++ rest) = .ok (y, rest))
    {fuel : Nat} (hfuel : xs.length + 1 < fuel) (rest : Bytes) :
    readItems item fuel true []
        (line ++ (text x ++ listed line (close ++ [byte ']']) text xs) ++ rest) =
      .ok (x :: xs, rest) := by
  obtain ⟨fuel, rfl⟩ := Nat.exists_eq_add_one_of_ne_zero (Nat.ne_zero_of_lt hfuel)
  obtain ⟨b, bs, htext, hspace, hbracket⟩ := hstart x List.mem_cons_self
  have hends : Ends (listed line (close ++ [byte ']']) text xs ++ rest) :=
    ends_listed hclose (by exact ⟨by decide, by decide, by decide⟩) xs rest
  have hread := hitem x List.mem_cons_self _ hends
  have hnext : skipSpace (line ++ (text x ++ (listed line (close ++ [byte ']']) text xs ++ rest))) =
      text x ++ (listed line (close ++ [byte ']']) text xs ++ rest) := by
    rw [skipSpace_blank hline, htext, List.cons_append, skipSpace_cons hspace]
  rw [readItems, nextElement, List.append_assoc, List.append_assoc, hnext]
  rw [htext, List.cons_append] at hread ⊢
  dsimp only
  rw [if_neg (by simp [hbracket]), if_pos rfl]
  dsimp only
  rw [hread]
  dsimp only
  rw [readItems_listed hline hclose (fun y hy => hstart y (List.mem_cons_of_mem _ hy))
    (fun y hy => hitem y (List.mem_cons_of_mem _ hy)) (by omega)]
  rfl

end

/-! ## Members -/

section
variable {ε σ μ : Type} {length : Nat} {member : σ → String → Reading ε σ} {name : μ → String}
  {text : μ → Bytes} {step : σ → μ → Option σ} {line close : Bytes}

/-- A member is read: its name, and from what follows the next state. -/
theorem readMembers_name {m : μ} (hname : (textBody (name m)).length ≤ length) {s s' : σ}
    {tail : Bytes} (hmember : member s (name m) (text m ++ tail) = .ok (s', tail)) (fuel : Nat) {first : Bool}
    {bs : Bytes} (hnext : nextName (ε := ε) first bs =
      .ok (some (textBody (name m) ++ byte '"' :: (text m ++ tail)))) :
    readMembers length member (fuel + 1) first s bs = readMembers length member fuel false s' tail := by
  rw [readMembers, hnext]
  dsimp only
  rw [readText_textBody _ _ hname]
  dsimp only
  rw [hmember]

theorem skipSpace_named (hline : Blank line) (n : String) (tail rest : Bytes) :
    skipSpace (line ++ (named n tail ++ rest)) =
      byte '"' :: (textBody n ++ byte '"' :: (tail ++ rest)) := by
  rw [skipSpace_blank hline, named, List.cons_append, skipSpace_cons (by decide)]
  simp

theorem readMembers_listed (hline : Blank line) (hclose : Blank close) {ms : List μ}
    (hname : ∀ m ∈ ms, (textBody (name m)).length ≤ length)
    (hmember : ∀ m ∈ ms, ∀ s s' rest, step s m = some s' → Ends rest →
      member s (name m) (text m ++ rest) = .ok (s', rest))
    {fuel : Nat} (hfuel : ms.length < fuel) {s s' : σ} (hrun : ms.foldlM step s = some s')
    (rest : Bytes) :
    readMembers length member fuel false s
        (listed line (close ++ [byte '\x7d']) (fun m => named (name m) (text m)) ms ++ rest) =
      .ok (s', rest) := by
  induction ms generalizing fuel s with
  | nil =>
    obtain ⟨fuel, rfl⟩ := Nat.exists_eq_add_one_of_ne_zero (Nat.ne_zero_of_lt hfuel)
    cases hrun
    have hskip : skipSpace (listed line (close ++ [byte '\x7d'])
        (fun m => named (name m) (text m)) [] ++ rest) = byte '\x7d' :: rest := by
      rw [listed, List.append_assoc, skipSpace_blank hclose]
      exact skipSpace_cons (by decide) rest
    simp [readMembers, nextName, closeObject, hskip]
  | cons m ms ih =>
    obtain ⟨fuel, rfl⟩ := Nat.exists_eq_add_one_of_ne_zero (Nat.ne_zero_of_lt hfuel)
    rw [List.length_cons] at hfuel
    obtain ⟨t, hstep, hrest⟩ := Option.bind_eq_some_iff.1 ((List.foldlM_cons ..).symm.trans hrun)
    have hends : Ends (listed line (close ++ [byte '\x7d'])
        (fun m => named (name m) (text m)) ms ++ rest) :=
      ends_listed hclose (by exact ⟨by decide, by decide, by decide⟩) ms rest
    have hread := hmember m List.mem_cons_self s t _ hstep hends
    have hnext : nextName (ε := ε) false (listed line (close ++ [byte '\x7d'])
        (fun m => named (name m) (text m)) (m :: ms) ++ rest) =
        .ok (some (textBody (name m) ++ byte '"' :: (text m ++ (listed line (close ++ [byte '\x7d'])
          (fun m => named (name m) (text m)) ms ++ rest)))) := by
      rw [nextName, listed, List.cons_append, skipSpace_cons (by decide), List.append_assoc,
        List.append_assoc]
      dsimp only
      rw [if_neg (by decide), if_neg (by decide), if_pos (by decide), skipSpace_named hline]
      rfl
    rw [readMembers_name (hname m List.mem_cons_self) hread fuel hnext]
    exact ih (fun y hy => hname y (List.mem_cons_of_mem _ hy))
      (fun y hy => hmember y (List.mem_cons_of_mem _ hy)) (by omega) hrest

/-- The members of an object that is not empty, from its opening brace on. -/
theorem readMembers_first (hline : Blank line) (hclose : Blank close) {m : μ} {ms : List μ}
    (hname : ∀ y ∈ m :: ms, (textBody (name y)).length ≤ length)
    (hmember : ∀ y ∈ m :: ms, ∀ s s' rest, step s y = some s' → Ends rest →
      member s (name y) (text y ++ rest) = .ok (s', rest))
    {fuel : Nat} (hfuel : ms.length + 1 < fuel) {s s' : σ} (hrun : (m :: ms).foldlM step s = some s')
    (rest : Bytes) :
    readMembers length member fuel true s (line ++ (named (name m) (text m) ++
        listed line (close ++ [byte '\x7d']) (fun m => named (name m) (text m)) ms) ++ rest) =
      .ok (s', rest) := by
  obtain ⟨fuel, rfl⟩ := Nat.exists_eq_add_one_of_ne_zero (Nat.ne_zero_of_lt hfuel)
  obtain ⟨t, hstep, hrest⟩ := Option.bind_eq_some_iff.1 ((List.foldlM_cons ..).symm.trans hrun)
  have hends : Ends (listed line (close ++ [byte '\x7d'])
      (fun m => named (name m) (text m)) ms ++ rest) :=
    ends_listed hclose (by exact ⟨by decide, by decide, by decide⟩) ms rest
  have hread := hmember m List.mem_cons_self s t _ hstep hends
  rw [List.append_assoc, List.append_assoc]
  have hnext : nextName (ε := ε) true (line ++ (named (name m) (text m) ++
      (listed line (close ++ [byte '\x7d']) (fun m => named (name m) (text m)) ms ++ rest))) =
      .ok (some (textBody (name m) ++ byte '"' :: (text m ++ (listed line (close ++ [byte '\x7d'])
        (fun m => named (name m) (text m)) ms ++ rest)))) := by
    rw [nextName, skipSpace_named hline]
    rfl
  rw [readMembers_name (hname m List.mem_cons_self) hread fuel hnext]
  exact readMembers_listed hline hclose (fun y hy => hname y (List.mem_cons_of_mem _ hy))
    (fun y hy => hmember y (List.mem_cons_of_mem _ hy)) (by omega) hrest rest

end

/-! ## Values -/

/-- A value of at most so many levels whose numbers are integers of 64 bits. -/
inductive Plain : Nat → Json → Prop
  | null {depth : Nat} : Plain depth .null
  | bool {depth : Nat} (b : Bool) : Plain depth (.bool b)
  | integer {depth : Nat} {i : Int} (low : -0x8000000000000000 ≤ i) (high : i < 0x10000000000000000) :
    Plain depth (.number (.integer i))
  | text {depth : Nat} (s : String) : Plain depth (.text s)
  | list {depth : Nat} {items : List Json} (h : ∀ v ∈ items, Plain depth v) :
    Plain (depth + 1) (.list items)
  | object {depth : Nat} {members : List (String × Json)} (h : ∀ m ∈ members, Plain depth m.2) :
    Plain (depth + 1) (.object members)

theorem toList_toString (i : Int) :
    (toString i).toList =
      if 0 ≤ i then Nat.toDigits 10 i.toNat else '-' :: Nat.toDigits 10 (-i).toNat := by
  rw [Int.toString_eq_repr, Int.repr_eq_if]
  split
  · exact Nat.toList_repr
  · rw [String.toList_append, Nat.toList_repr]
    rfl

theorem encodeChars_toDigits (n : Nat) :
    encodeChars (Nat.toDigits 10 n) = (Nat.toDigits 10 n).map byte := by
  refine encodeChars_ascii fun c hc => ?_
  have h := toNat_of_isDigit (Nat.isDigit_of_mem_toDigits (by decide) (by decide) hc)
  omega

section
variable (l : Layout) (k : Nat)

theorem spell_null : Json.null.spell l k = byte 'n' :: ['u', 'l', 'l'].map byte := by
  rw [spell, write]
  · rfl
  · simp
  · simp

theorem spell_true : (Json.bool true).spell l k = byte 't' :: ['r', 'u', 'e'].map byte := by
  rw [spell, write]
  · rfl
  · simp
  · simp

theorem spell_false : (Json.bool false).spell l k = byte 'f' :: ['a', 'l', 's', 'e'].map byte := by
  rw [spell, write]
  · rfl
  · simp
  · simp

theorem spell_integer (i : Int) :
    (Json.number (.integer i)).spell l k =
      if 0 ≤ i then (Nat.toDigits 10 i.toNat).map byte
      else byte '-' :: (Nat.toDigits 10 (-i).toNat).map byte := by
  rw [spell, write, Number.toText, toList_toString]
  · split
    · exact encodeChars_toDigits _
    · rw [encodeChars_cons, encodeChars_toDigits]
      rfl
  · simp
  · simp

theorem spell_text (s : String) : (Json.text s).spell l k = byte '"' :: (textBody s ++ [byte '"']) := by
  rw [spell, write, encodeChars_writeText]
  · simp
  · simp

/-- The text of a list after its opening bracket. -/
def listBody : List Json → Bytes
  | [] => [byte ']']
  | v :: rest =>
    l.line (k + 1) ++ (v.spell l (k + 1) ++ listed (l.line (k + 1)) (l.line k ++ [byte ']']) (spell l (k + 1)) rest)

theorem spell_list (items : List Json) : (Json.list items).spell l k = byte '[' :: listBody l k items := by
  cases items with
  | nil =>
    rw [spell, write]
    · rfl
    · simp
    · simp
  | cons v rest => rw [spell, spellItems_eq, listBody]

/-- The text of an object after its opening brace. -/
def objectBody : List (String × Json) → Bytes
  | [] => [byte '\x7d']
  | m :: rest =>
    l.line (k + 1) ++ (named m.1 (spellValue l k m) ++
      listed (l.line (k + 1)) (l.line k ++ [byte '\x7d']) (fun m => named m.1 (spellValue l k m)) rest)

theorem spell_object (members : List (String × Json)) :
    (Json.object members).spell l k = byte '\x7b' :: objectBody l k members := by
  cases members with
  | nil =>
    rw [spell, write]
    · rfl
    · simp
    · simp
  | cons m rest => rw [spell, spellMembers_eq, objectBody, spellValue]

end

/-- The first byte of a number. -/
theorem toDigits_bytes (n : Nat) :
    ∃ b bs, (Nat.toDigits 10 n).map byte = b :: bs ∧ isDigit b = true := by
  cases h : Nat.toDigits 10 n with
  | nil => exact absurd h Nat.toDigits_ne_nil
  | cons d ds =>
    refine ⟨byte d, ds.map byte, rfl, isDigit_byte ?_⟩
    exact Nat.isDigit_of_mem_toDigits (b := 10) (n := n) (by decide) (by decide)
      (by rw [h]; exact List.mem_cons_self)

theorem beq_byte_of_digit {b : UInt8} (h : isDigit b = true) {c : Char} (hascii : c.toNat ≤ 0x7F)
    (hc : c.toNat < 48 ∨ 57 < c.toNat) : (b == byte c) = false := by
  rw [isDigit_eq, decide_eq_true_iff] at h
  rw [beq_byte b hascii]
  exact decide_eq_false (by omega)

theorem starts_of_digit {b : UInt8} (h : isDigit b = true) (bs : Bytes) : Starts (b :: bs) := by
  refine ⟨b, bs, rfl, ?_, beq_byte_of_digit h (by decide) (by decide)⟩
  have hspace : isSpace b =
      (b == byte ' ' || b == byte '\n' || b == byte '\t' || b == byte '\r') := rfl
  rw [hspace, beq_byte_of_digit h (by decide) (by decide), beq_byte_of_digit h (by decide) (by decide),
    beq_byte_of_digit h (by decide) (by decide), beq_byte_of_digit h (by decide) (by decide)]
  rfl

theorem Plain.starts {depth : Nat} {v : Json} (h : v.Plain depth) (l : Layout) (k : Nat) :
    Starts (v.spell l k) := by
  cases h with
  | null => exact ⟨_, _, spell_null l k, by decide, by decide⟩
  | bool b =>
    cases b with
    | false => exact ⟨_, _, spell_false l k, by decide, by decide⟩
    | true => exact ⟨_, _, spell_true l k, by decide, by decide⟩
  | @integer _ i low high =>
    rw [spell_integer]
    split
    · obtain ⟨b, bs, hbs, hdigit⟩ := toDigits_bytes i.toNat
      rw [hbs]
      exact starts_of_digit hdigit bs
    · exact ⟨_, _, rfl, by decide, by decide⟩
  | text s => exact ⟨_, _, spell_text l k s, by decide, by decide⟩
  | @list _ items h => exact ⟨_, _, spell_list l k items, by decide, by decide⟩
  | @object _ members h => exact ⟨_, _, spell_object l k members, by decide, by decide⟩

/-! ## What the first byte of a value decides -/

section
variable {ε : Type} (length depth : Nat) (bs : Bytes)

/-- Reads the value of a member and puts the member in front of the others. -/
def consMember (acc : List (String × Json)) (name : String) : Reading ε (List (String × Json)) :=
  fun bs =>
  match readColon bs with
  | .error e => .error e
  | .ok rest =>
    match readValue length depth rest with
    | .error e => .error e
    | .ok (v, rest) => .ok ((name, v) :: acc, rest)

theorem readValue_minus :
    readValue (ε := ε) length depth (byte '-' :: bs) =
      match readNumber true bs with
      | .error e => .error e
      | .ok (n, rest) => .ok (.number n, rest) := by
  rw [readValue, skipSpace_cons (by decide)]
  dsimp only
  rw [if_neg (by decide), if_neg (by decide), if_neg (by decide)]
  exact if_pos (by decide)

theorem readValue_digit {b : UInt8} (h : isDigit b = true) :
    readValue (ε := ε) length depth (b :: bs) =
      match readNumber false (b :: bs) with
      | .error e => .error e
      | .ok (n, rest) => .ok (.number n, rest) := by
  obtain ⟨_, _, hstart, hspace, -⟩ := starts_of_digit h bs
  cases hstart
  rw [readValue, skipSpace_cons hspace]
  dsimp only
  rw [beq_byte_of_digit h (by decide) (by decide), beq_byte_of_digit h (by decide) (by decide),
    beq_byte_of_digit h (by decide) (by decide), beq_byte_of_digit h (by decide) (by decide), h,
    if_neg (by decide), if_neg (by decide), if_neg (by decide), if_neg (by decide)]
  exact if_pos rfl

theorem readValue_quote :
    readValue (ε := ε) length depth (byte '"' :: bs) =
      match readText length bs with
      | .error e => .error e
      | .ok (s, rest) => .ok (.text s, rest) := by
  rw [readValue, skipSpace_cons (by decide)]
  dsimp only
  rw [if_neg (by decide), if_neg (by decide), if_neg (by decide), if_neg (by decide),
    if_neg (by decide)]
  exact if_pos (by decide)

theorem readValue_bracket :
    readValue (ε := ε) length (depth + 1) (byte '[' :: bs) =
      match readItems (readValue length depth) (length + 1) true [] bs with
      | .error e => .error e
      | .ok (items, rest) => .ok (.list items, rest) := by
  rw [readValue, skipSpace_cons (by decide)]
  dsimp only
  rw [if_neg (by decide), if_neg (by decide), if_neg (by decide), if_neg (by decide),
    if_neg (by decide), if_neg (by decide)]
  exact if_pos (by decide)

theorem readValue_brace :
    readValue (ε := ε) length (depth + 1) (byte '\x7b' :: bs) =
      match readMembers length (consMember length depth) (length + 1) true [] bs with
      | .error e => .error e
      | .ok (members, rest) => .ok (.object members.reverse, rest) := by
  rw [readValue, skipSpace_cons (by decide)]
  dsimp only
  rw [if_neg (by decide), if_neg (by decide), if_neg (by decide), if_neg (by decide),
    if_neg (by decide), if_neg (by decide), if_neg (by decide)]
  exact if_pos (by decide)

end

/-! ## Reading back -/

section
variable {ε : Type} {length depth : Nat} (l : Layout) (k : Nat)

theorem readValue_spell_integer {i : Int} (low : -0x8000000000000000 ≤ i)
    (high : i < 0x10000000000000000) {rest : Bytes} (hrest : Ends rest) :
    readValue (ε := ε) length depth ((Json.number (.integer i)).spell l k ++ rest) =
      .ok (.number (.integer i), rest) := by
  rw [spell_integer]
  split
  · next hi =>
    obtain ⟨b, bs, hbs, hdigit⟩ := toDigits_bytes i.toNat
    have hread := readNumber_digits (ε := ε) false (n := i.toNat) (by omega) hrest
    rw [wholeNumber, if_pos (by decide), Int.toNat_of_nonneg hi] at hread
    rw [hbs, List.cons_append] at hread ⊢
    rw [readValue_digit length depth _ hdigit, hread]
  · next hi =>
    have hread := readNumber_digits (ε := ε) true (n := (-i).toNat) (by omega) hrest
    have hzero : ((-i).toNat == 0) = false := beq_eq_false_iff_ne.2 (by omega)
    have hvalue : -(((-i).toNat : Nat) : Int) = i := by omega
    rw [wholeNumber, if_neg (by decide), hzero, if_neg (by simp; omega), hvalue] at hread
    rw [List.cons_append, readValue_minus, hread]

/-- The items of a list are read one after the other from a text that is short enough. -/
theorem readItems_listBody {item : Reading ε Json} {items : List Json} (hstart : ∀ v ∈ items, Starts (v.spell l (k + 1)))
    (hitem : ∀ v ∈ items, (v.spell l (k + 1)).length ≤ length → ∀ rest, Ends rest →
      item (v.spell l (k + 1) ++ rest) = .ok (v, rest))
    (hlength : (listBody l k items).length ≤ length) (rest : Bytes) :
    readItems item (length + 1) true [] (listBody l k items ++ rest) = .ok (items, rest) := by
  cases items with
  | nil =>
    have hnext : nextElement (ε := ε) true (byte ']' :: rest) = .ok none := by
      rw [nextElement, skipSpace_cons (by decide)]
      rfl
    have hclose : closeList (ε := ε) (byte ']' :: rest) = .ok rest := by
      rw [closeList, skipSpace_cons (by decide)]
      rfl
    rw [listBody, List.cons_append, List.nil_append, readItems, hnext]
    dsimp only
    rw [hclose]
    rfl
  | cons v items =>
    rw [listBody] at hlength ⊢
    simp only [List.length_append] at hlength
    obtain ⟨b, bs, hspell, -⟩ := hstart v List.mem_cons_self
    have hpos : 0 < (v.spell l (k + 1)).length := by simp [hspell]
    have hcount := length_le_listed (l.line (k + 1)) (l.line k ++ [byte ']']) (spell l (k + 1)) items
    have hfits : ∀ w ∈ v :: items, (w.spell l (k + 1)).length ≤ length := by
      intro w hw
      rcases List.mem_cons.1 hw with rfl | hw
      · omega
      · have hbound := length_text_le_listed (l.line (k + 1)) (l.line k ++ [byte ']'])
          (spell l (k + 1)) hw
        omega
    exact readItems_first (l.line_blank (k + 1)) (l.line_blank k) hstart
      (fun w hw rest hrest => hitem w hw (hfits w hw) rest hrest) (by omega) rest

theorem readValue_spell_list {items : List Json} (hstart : ∀ v ∈ items, ∀ k, Starts (v.spell l k))
    (hitem : ∀ v ∈ items, ∀ k rest, (v.spell l k).length ≤ length → Ends rest →
      readValue (ε := ε) length depth (v.spell l k ++ rest) = .ok (v, rest))
    (hlength : ((Json.list items).spell l k).length ≤ length) (rest : Bytes) :
    readValue (ε := ε) length (depth + 1) ((Json.list items).spell l k ++ rest) =
      .ok (.list items, rest) := by
  rw [spell_list] at hlength ⊢
  rw [List.cons_append, readValue_bracket,
    readItems_listBody l k (fun v hv => hstart v hv (k + 1))
      (fun v hv hbound rest hrest => hitem v hv (k + 1) rest hbound hrest) (Nat.le_of_succ_le hlength) rest]

/-- The value of a member is read after its name. -/
theorem readColon_spellValue (m : String × Json) (rest : Bytes) :
    readColon (ε := ε) (spellValue l k m ++ rest) = .ok (l.gap ++ (m.2.spell l (k + 1) ++ rest)) := by
  rw [spellValue, List.cons_append, readColon, skipSpace_cons (by decide), List.append_assoc]
  rfl

theorem readValue_blank {ws : Bytes} (h : Blank ws) (bs : Bytes) :
    readValue (ε := ε) length depth (ws ++ bs) = readValue length depth bs := by
  rw [readValue, skipSpace_blank h, readValue]

theorem length_le_named (m : String × Json) :
    (textBody m.1).length ≤ (named m.1 (spellValue l k m)).length ∧
      (m.2.spell l (k + 1)).length ≤ (named m.1 (spellValue l k m)).length := by
  simp only [named, spellValue, List.length_cons, List.length_append]
  omega

/-- The members of an object are read one after the other from a text that is short enough. -/
theorem readMembers_objectBody {σ : Type} {member : σ → String → Reading ε σ}
    {step : σ → String × Json → Option σ} {members : List (String × Json)}
    (hlength : (objectBody l k members).length ≤ length)
    (hmember : ∀ m ∈ members, (m.2.spell l (k + 1)).length ≤ length →
      ∀ s s' rest, step s m = some s' → Ends rest →
        member s m.1 (spellValue l k m ++ rest) = .ok (s', rest))
    {s s' : σ} (hrun : members.foldlM step s = some s') (rest : Bytes) :
    readMembers length member (length + 1) true s (objectBody l k members ++ rest) =
      .ok (s', rest) := by
  cases members with
  | nil =>
    cases hrun
    have hnext : nextName (ε := ε) true (byte '\x7d' :: rest) = .ok none := by
      rw [nextName, skipSpace_cons (by decide)]
      rfl
    have hclose : closeObject (ε := ε) (byte '\x7d' :: rest) = .ok rest := by
      rw [closeObject, skipSpace_cons (by decide)]
      rfl
    rw [objectBody, List.cons_append, List.nil_append, readMembers, hnext]
    dsimp only
    rw [hclose]
  | cons m members =>
    rw [objectBody] at hlength ⊢
    simp only [List.length_append] at hlength
    have hcount := length_le_listed (l.line (k + 1)) (l.line k ++ [byte '\x7d'])
      (fun m => named m.1 (spellValue l k m)) members
    have hfits : ∀ n ∈ m :: members,
        (textBody n.1).length ≤ length ∧ (n.2.spell l (k + 1)).length ≤ length := by
      intro n hn
      have hnamed := length_le_named l k n
      rcases List.mem_cons.1 hn with rfl | hn
      · omega
      · have hbound := length_text_le_listed (l.line (k + 1)) (l.line k ++ [byte '\x7d'])
          (fun m => named m.1 (spellValue l k m)) hn
        omega
    have hname : 0 < (named m.1 (spellValue l k m)).length := by simp [named]
    exact readMembers_first (l.line_blank (k + 1)) (l.line_blank k) (fun n hn => (hfits n hn).1)
      (fun n hn => hmember n hn (hfits n hn).2) (by omega) hrun rest

theorem readValue_spell_object {members : List (String × Json)}
    (hvalue : ∀ m ∈ members, ∀ k rest, (m.2.spell l k).length ≤ length → Ends rest →
      readValue (ε := ε) length depth (m.2.spell l k ++ rest) = .ok (m.2, rest))
    (hlength : ((Json.object members).spell l k).length ≤ length) (rest : Bytes) :
    readValue (ε := ε) length (depth + 1) ((Json.object members).spell l k ++ rest) =
      .ok (.object members, rest) := by
  rw [spell_object] at hlength ⊢
  have hmember : ∀ m ∈ members, (m.2.spell l (k + 1)).length ≤ length →
      ∀ (s s' : List (String × Json)) (rest : Bytes), some (m :: s) = some s' → Ends rest →
        consMember (ε := ε) length depth s m.1 (spellValue l k m ++ rest) = .ok (s', rest) := by
    intro m hm hbound s s' rest hs hrest
    cases hs
    rw [consMember, readColon_spellValue]
    dsimp only
    rw [readValue_blank l.gap_blank, hvalue m hm (k + 1) rest hbound hrest]
  have hrun : members.foldlM (fun s m => some (m :: s)) ([] : List (String × Json)) =
      some members.reverse := by
    have hfold : members.foldl (fun s m => m :: s) [] = members.reverse ++ [] :=
      List.foldl_flip_cons_eq_append'
    rw [List.append_nil] at hfold
    exact List.foldlM_pure.trans (congrArg some hfold)
  rw [List.cons_append, readValue_brace,
    readMembers_objectBody l k (Nat.le_of_succ_le hlength) hmember hrun rest]
  dsimp only
  rw [List.reverse_reverse]

end

/-- What is written is read, whatever the layout. -/
theorem readValue_spell {ε : Type} {length depth : Nat} {v : Json} (h : v.Plain depth) (l : Layout)
    (k : Nat) (hlength : (v.spell l k).length ≤ length) {rest : Bytes} (hrest : Ends rest) :
    readValue (ε := ε) length depth (v.spell l k ++ rest) = .ok (v, rest) := by
  induction h generalizing k rest with
  | null =>
    rw [spell_null, List.cons_append, readValue, skipSpace_cons (by decide)]
    dsimp only
    rw [if_pos (by decide), expect_word]
  | bool b =>
    cases b with
    | false =>
      rw [spell_false, List.cons_append, readValue, skipSpace_cons (by decide)]
      dsimp only
      rw [if_neg (by decide), if_neg (by decide), if_pos (by decide), expect_word]
    | true =>
      rw [spell_true, List.cons_append, readValue, skipSpace_cons (by decide)]
      dsimp only
      rw [if_neg (by decide), if_pos (by decide), expect_word]
  | integer low high => exact readValue_spell_integer l k low high hrest
  | text s =>
    rw [spell_text] at hlength ⊢
    simp only [List.length_cons, List.length_append] at hlength
    rw [List.cons_append, List.append_assoc, readValue_quote, List.cons_append, List.nil_append,
      readText_textBody s rest (by omega)]
  | list h ih =>
    exact readValue_spell_list l k (fun v hv k => (h v hv).starts l k)
      (fun v hv k rest hlength hrest => ih v hv k hlength hrest) hlength rest
  | object h ih =>
    exact readValue_spell_object l k
      (fun m hm k rest hlength hrest => ih m hm k hlength hrest) hlength rest

/-! ## Whole texts -/

/-- A whole text is parsed to the value from which it was made. -/
theorem parse_spell {v : Json} (h : v.Plain maxDepth) (l : Layout) (k : Nat) :
    parse (v.spell l k) = .ok v := by
  have hread := readValue_spell (ε := Empty) h l k (Nat.le_refl _) (show Ends [] from trivial)
  rw [List.append_nil] at hread
  rw [parse, hread]
  rfl

end FontCatalog.Json
