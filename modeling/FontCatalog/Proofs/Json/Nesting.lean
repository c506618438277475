import FontCatalog.Proofs.Json.Skipping

/-! What can be read can be passed over: a value that has a tree is skipped from the same place to the same place,
however it is nested. -/
namespace FontCatalog.Json
set_option autoImplicit false

variable {ε : Type} {length depth : Nat} {bs rest : Bytes}

/-! ## Values -/

/-- How a value is read, by the byte with which it begins. -/
inductive Reads (ε : Type) (length : Nat) : Nat → Bytes → Json → Bytes → Prop
  | null {depth : Nat} {bs r rest : Bytes} (hbs : skipSpace bs = byte 'n' :: r)
    (h : expect (ε := ε) ['u', 'l', 'l'] r = .ok rest) : Reads ε length depth bs .null rest
  | true {depth : Nat} {bs r rest : Bytes} (hbs : skipSpace bs = byte 't' :: r)
    (h : expect (ε := ε) ['r', 'u', 'e'] r = .ok rest) : Reads ε length depth bs (.bool true) rest
  | false {depth : Nat} {bs r rest : Bytes} (hbs : skipSpace bs = byte 'f' :: r)
    (h : expect (ε := ε) ['a', 'l', 's', 'e'] r = .ok rest) : Reads ε length depth bs (.bool false) rest
  | negative {depth : Nat} {bs r rest : Bytes} {n : Number} (hbs : skipSpace bs = byte '-' :: r)
    (h : readNumber (ε := ε) true r = .ok (n, rest)) : Reads ε length depth bs (.number n) rest
  | positive {depth : Nat} {bs r rest : Bytes} {b : UInt8} {n : Number} (hbs : skipSpace bs = b :: r)
    (hdigit : isDigit b = true) (h : readNumber (ε := ε) false (b :: r) = .ok (n, rest)) :
    Reads ε length depth bs (.number n) rest
  | text {depth : Nat} {bs r rest : Bytes} {t : String} (hbs : skipSpace bs = byte '"' :: r)
    (h : readText (ε := ε) length r = .ok (t, rest)) : Reads ε length depth bs (.text t) rest
  | list {depth : Nat} {bs r rest : Bytes} {items : List Json} (hbs : skipSpace bs = byte '[' :: r)
    (h : readItems (ε := ε) (readValue length depth) (length + 1) .true [] r = .ok (items, rest)) :
    Reads ε length (depth + 1) bs (.list items) rest
  | object {depth : Nat} {bs r rest : Bytes} {members : List (String × Json)} (hbs : skipSpace bs = byte '\x7b' :: r)
    (h : readMembers (ε := ε) length (consMember length depth) (length + 1) .true [] r = .ok (members, rest)) :
    Reads ε length (depth + 1) bs (.object members.reverse) rest

theorem reads_of_readValue {v : Json} (h : readValue (ε := ε) length depth bs = .ok (v, rest)) :
    Reads ε length depth bs v rest := by
  unfold readValue at h
  split at h
  · cases h
  next b r hbs =>
  split at h
  · next hb =>
    rw [eq_of_beq hb] at hbs
    split at h <;> cases h
    next hword => exact .null hbs hword
  split at h
  · next hb =>
    rw [eq_of_beq hb] at hbs
    split at h <;> cases h
    next hword => exact .true hbs hword
  split at h
  · next hb =>
    rw [eq_of_beq hb] at hbs
    split at h <;> cases h
    next hword => exact .false hbs hword
  split at h
  · next hb =>
    rw [eq_of_beq hb] at hbs
    split at h <;> cases h
    next hnumber => exact .negative hbs hnumber
  split at h
  · next hdigit =>
    split at h <;> cases h
    next hnumber => exact .positive hbs hdigit hnumber
  split at h
  · next hb =>
    rw [eq_of_beq hb] at hbs
    split at h <;> cases h
    next htext => exact .text hbs htext
  split at h
  · next hb =>
    rw [eq_of_beq hb] at hbs
    cases depth with
    | zero => cases h
    | succ depth =>
      dsimp only at h
      split at h <;> cases h
      next hitems => exact .list hbs hitems
  split at h
  · next hb =>
    rw [eq_of_beq hb] at hbs
    cases depth with
    | zero => cases h
    | succ depth =>
      dsimp only at h
      split at h <;> cases h
      next hmembers => exact .object hbs hmembers
  · cases h

/-! ## Moves over a text -/

/-- Going on from `bs` one gets to `rest`, with no less fuel to spare than before. -/
def Moves (ε : Type) (e : Expecting) (frames : List Frame) (bs : Bytes) (e' : Expecting) (frames' : List Frame)
    (rest : Bytes) : Prop :=
  rest.length < bs.length ∧ ∀ spare, ∃ spare', spare ≤ spare' ∧
    skipWithin (ε := ε) (2 * bs.length + spare) e frames bs =
      skipWithin (ε := ε) (2 * rest.length + spare') e' frames' rest

variable {e e' e'' : Expecting} {frames frames' frames'' : List Frame} {mid r : Bytes}

theorem Moves.trans (h : Moves ε e frames bs e' frames' mid) (h' : Moves ε e' frames' mid e'' frames'' rest) :
    Moves ε e frames bs e'' frames'' rest := by
  refine ⟨Nat.lt_trans h'.1 h.1, fun spare => ?_⟩
  obtain ⟨spare', hspare, hfirst⟩ := h.2 spare
  obtain ⟨spare'', hspare', hsecond⟩ := h'.2 spare'
  exact ⟨spare'', Nat.le_trans hspare hspare', hfirst.trans hsecond⟩

/-- Up to two steps may be taken for every byte. -/
theorem Moves.of_steps {k : Nat} (hk : k ≤ 2) (hlength : rest.length < bs.length)
    (h : ∀ fuel, bs.length ≤ fuel + k →
      skipWithin (ε := ε) (fuel + k) e frames bs = skipWithin (ε := ε) fuel e' frames' rest) :
    Moves ε e frames bs e' frames' rest := by
  refine ⟨hlength, fun spare => ⟨2 * (bs.length - rest.length) + spare - k, by omega, ?_⟩⟩
  have hfuel : 2 * bs.length + spare = (2 * rest.length + (2 * (bs.length - rest.length) + spare - k)) + k := by omega
  rw [hfuel]
  exact h _ (by omega)

theorem Moves.of_step (hlength : rest.length < bs.length)
    (h : ∀ fuel, bs.length ≤ fuel + 1 →
      skipWithin (ε := ε) (fuel + 1) e frames bs = skipWithin (ε := ε) fuel e' frames' rest) :
    Moves ε e frames bs e' frames' rest :=
  .of_steps (by decide) hlength h

theorem length_of_skipSpace {b : UInt8} (h : skipSpace bs = b :: r) : r.length < bs.length := by
  have hle := length_skipSpace bs
  rw [h] at hle
  exact hle

theorem skipSpace_skipSpace (bs : Bytes) : skipSpace (skipSpace bs) = skipSpace bs := by
  induction bs with
  | nil => rfl
  | cons b bs ih =>
    rw [skipSpace]
    split
    · exact ih
    · next hb => rw [skipSpace, if_neg hb]

section
variable (fuel : Nat)

theorem skipWithin_bracket (hbs : skipSpace bs = byte '[' :: r) :
    skipWithin (ε := ε) (fuel + 1) .value frames bs = skipWithin fuel .first (.list :: frames) r := by
  rw [skipWithin, hbs]
  dsimp only
  rw [if_neg (by decide), if_neg (by decide), if_neg (by decide), if_neg (by decide), if_neg (by decide),
    if_neg (by decide)]
  exact if_pos (by decide)

theorem skipWithin_brace (hbs : skipSpace bs = byte '\x7b' :: r) :
    skipWithin (ε := ε) (fuel + 1) .value frames bs =
      match skipSpace r with
      | [] => early
      | b :: rest =>
        if b == byte '\x7d' then skipWithin fuel .next frames rest
        else if b == byte '"' then skipWithin fuel .name (.object :: frames) rest
        else malformed := by
  rw [skipWithin, hbs]
  dsimp only
  rw [if_neg (by decide), if_neg (by decide), if_neg (by decide), if_neg (by decide), if_neg (by decide),
    if_neg (by decide), if_neg (by decide)]
  exact if_pos (by decide)

end

/-- A value that is no list and no object is passed over in one step. -/
theorem moves_scalar (length : Nat) {v : Json} (h : Reads ε length 0 bs v rest) :
    Moves ε .value frames bs .next frames rest := by
  cases h with
  | null hbs h =>
    refine .of_step (Nat.lt_of_le_of_lt (length_expect h) (length_of_skipSpace hbs)) fun _ _ => ?_
    rw [skipWithin, hbs]
    dsimp only
    rw [if_pos (by decide), h]
  | true hbs h =>
    refine .of_step (Nat.lt_of_le_of_lt (length_expect h) (length_of_skipSpace hbs)) fun _ _ => ?_
    rw [skipWithin, hbs]
    dsimp only
    rw [if_neg (by decide), if_pos (by decide), h]
  | false hbs h =>
    refine .of_step (Nat.lt_of_le_of_lt (length_expect h) (length_of_skipSpace hbs)) fun _ _ => ?_
    rw [skipWithin, hbs]
    dsimp only
    rw [if_neg (by decide), if_neg (by decide), if_pos (by decide), h]
  | negative hbs h =>
    have hskip := skipNumber_of_readNumber h
    refine .of_step (Nat.lt_trans (length_skipNumber hskip) (length_of_skipSpace hbs)) fun _ _ => ?_
    rw [skipWithin, hbs]
    dsimp only
    rw [if_neg (by decide), if_neg (by decide), if_neg (by decide), if_pos (by decide), hskip]
  | positive hbs hdigit h =>
    have hskip := skipNumber_of_readNumber h
    have hless := length_skipNumber hskip
    rw [← hbs] at hless
    refine .of_step (Nat.lt_of_lt_of_le hless (length_skipSpace _)) fun _ _ => ?_
    rw [skipWithin, hbs]
    dsimp only
    rw [beq_byte_of_digit hdigit (by decide) (by decide), beq_byte_of_digit hdigit (by decide) (by decide),
      beq_byte_of_digit hdigit (by decide) (by decide), beq_byte_of_digit hdigit (by decide) (by decide), hdigit,
      if_neg (by decide), if_neg (by decide), if_neg (by decide), if_neg (by decide), if_pos rfl, hskip]
  | text hbs h =>
    obtain ⟨hless, hskip⟩ := skipText_of_readText h
    have hlength := length_of_skipSpace hbs
    refine .of_step (Nat.lt_trans hless hlength) fun fuel hfuel => ?_
    rw [skipWithin, hbs]
    dsimp only
    rw [if_neg (by decide), if_neg (by decide), if_neg (by decide), if_neg (by decide), if_neg (by decide),
      if_pos (by decide), hskip _ (by omega)]

/-! ## Lists -/

theorem nextElement_eq {first : Bool} {x : Option Bytes} (h : nextElement (ε := ε) first bs = .ok x) :
    (∃ r, skipSpace bs = byte ']' :: r ∧ x = none) ∨
      (first = true ∧ (∀ r, skipSpace bs ≠ byte ']' :: r) ∧ x = some (skipSpace bs)) ∨
      (first = false ∧ ∃ r, skipSpace bs = byte ',' :: r ∧ x = some (skipSpace r)) := by
  unfold nextElement at h
  split at h
  · cases h
  next b r hbs =>
  split at h
  · next hb =>
    cases h
    exact .inl ⟨r, by rw [hbs, eq_of_beq hb], rfl⟩
  next hb =>
  split at h
  · next hfirst =>
    cases h
    refine .inr (.inl ⟨hfirst, fun r' hr' => hb ?_, by rw [hbs]⟩)
    rw [hbs] at hr'
    rw [(List.cons.inj hr').1]
    decide
  next hfirst =>
  split at h
  · next hcomma =>
    refine .inr (.inr ⟨by simpa using hfirst, r, by rw [hbs, eq_of_beq hcomma], ?_⟩)
    split at h
    · cases h
    next b' r' hr =>
    split at h <;> cases h
    rw [hr]
  · cases h

theorem closeList_eq {r : Bytes} (hbs : skipSpace bs = byte ']' :: r) (h : closeList (ε := ε) bs = .ok rest) :
    r = rest := by
  rw [closeList, hbs] at h
  dsimp only at h
  rw [if_pos (by decide)] at h
  injection h

theorem moves_end_of_list (hbs : skipSpace bs = byte ']' :: rest) :
    Moves ε .next (.list :: frames) bs .next frames rest := by
  refine .of_step (length_of_skipSpace hbs) fun fuel _ => ?_
  rw [skipWithin, hbs]
  exact if_pos (by decide)

theorem moves_comma (hbs : skipSpace bs = byte ',' :: rest) :
    Moves ε .next (.list :: frames) bs .value (.list :: frames) rest := by
  refine .of_step (length_of_skipSpace hbs) fun fuel _ => ?_
  rw [skipWithin, hbs]
  dsimp only
  rw [if_neg (by decide), if_neg (by decide)]

theorem moves_empty_list (hbs : skipSpace bs = byte '[' :: r) (hr : skipSpace r = byte ']' :: rest) :
    Moves ε .value frames bs .next frames rest := by
  have hlength := length_of_skipSpace hbs
  refine .of_steps (k := 2) (by decide) (Nat.lt_trans (length_of_skipSpace hr) hlength) fun fuel _ => ?_
  rw [skipWithin_bracket _ hbs, skipWithin, hr]
  exact if_pos (by decide)

theorem moves_first_item (hbs : skipSpace bs = byte '[' :: r) (hr : ∀ r', skipSpace r ≠ byte ']' :: r')
    (hvalue : skipSpace r ≠ []) : Moves ε .value frames bs .value (.list :: frames) (skipSpace r) := by
  have hlength := length_of_skipSpace hbs
  refine .of_steps (k := 2) (by decide) (Nat.lt_of_le_of_lt (length_skipSpace r) hlength) fun fuel _ => ?_
  rw [skipWithin_bracket _ hbs, skipWithin]
  cases hstart : skipSpace r with
  | nil => exact absurd hstart hvalue
  | cons b r' =>
    dsimp only
    refine if_neg fun hb => hr r' ?_
    rw [hstart, eq_of_beq hb]

/-- Every value is passed over that is read by `item`. -/
def Skips (item : Reading ε Json) : Prop :=
  ∀ frames bs v rest, item bs = .ok (v, rest) → Moves ε .value frames bs .next frames rest

variable {item : Reading ε Json} {fuel : Nat}

theorem moves_items (hitem : Skips item) (hspace : ∀ bs, item (skipSpace bs) = item bs) {acc items : List Json}
    (h : readItems item fuel false acc bs = .ok (items, rest)) :
    Moves ε .next (.list :: frames) bs .next frames rest := by
  induction fuel generalizing acc bs with
  | zero => cases h
  | succ fuel ih =>
    rw [readItems] at h
    split at h
    · cases h
    · next hnext =>
      obtain ⟨r, hbs, -⟩ | ⟨hfirst, -⟩ | ⟨-, r, -, hx⟩ := nextElement_eq hnext
      · split at h <;> cases h
        next hclose =>
        rw [closeList_eq hbs hclose] at hbs
        exact moves_end_of_list hbs
      · cases hfirst
      · cases hx
    · next start hnext =>
      obtain ⟨r, -, hx⟩ | ⟨hfirst, -⟩ | ⟨-, r, hbs, hx⟩ := nextElement_eq hnext
      · cases hx
      · cases hfirst
      · cases hx
        rw [hspace] at h
        split at h
        · cases h
        next v mid hread => exact (moves_comma hbs).trans ((hitem _ _ _ _ hread).trans (ih h))

theorem moves_list (hitem : Skips item) (hspace : ∀ bs, item (skipSpace bs) = item bs) {items : List Json}
    (hbs : skipSpace bs = byte '[' :: r) (h : readItems item fuel true [] r = .ok (items, rest)) :
    Moves ε .value frames bs .next frames rest := by
  cases fuel with
  | zero => cases h
  | succ fuel =>
    rw [readItems] at h
    split at h
    · cases h
    · next hnext =>
      obtain ⟨r', hr, -⟩ | ⟨-, -, hx⟩ | ⟨-, r', -, hx⟩ := nextElement_eq hnext
      · split at h <;> cases h
        next hclose =>
        rw [closeList_eq hr hclose] at hr
        exact moves_empty_list hbs hr
      · cases hx
      · cases hx
    · next start hnext =>
      obtain ⟨r', -, hx⟩ | ⟨-, hr, hx⟩ | ⟨hfirst, -⟩ := nextElement_eq hnext
      · cases hx
      · cases hx
        split at h
        · cases h
        next v mid hread =>
        have hvalue : skipSpace r ≠ [] := by
          intro hempty
          have hlength := (hitem [] _ _ _ hread).1
          rw [hempty] at hlength
          cases hlength
        exact (moves_first_item hbs hr hvalue).trans ((hitem _ _ _ _ hread).trans (moves_items hitem hspace h))
      · cases hfirst

/-! ## Objects -/

theorem nextName_eq {first : Bool} {x : Option Bytes} (h : nextName (ε := ε) first bs = .ok x) :
    (∃ r, skipSpace bs = byte '\x7d' :: r ∧ x = none) ∨
      (first = true ∧ ∃ r, skipSpace bs = byte '"' :: r ∧ x = some r) ∨
      (first = false ∧ ∃ c r, skipSpace bs = byte ',' :: c ∧ skipSpace c = byte '"' :: r ∧ x = some r) := by
  unfold nextName at h
  split at h
  · cases h
  next b r hbs =>
  split at h
  · next hb =>
    cases h
    exact .inl ⟨r, by rw [hbs, eq_of_beq hb], rfl⟩
  split at h
  · next hfirst =>
    split at h <;> cases h
    next hquote => exact .inr (.inl ⟨hfirst, r, by rw [hbs, eq_of_beq hquote], rfl⟩)
  next hfirst =>
  split at h
  · next hcomma =>
    split at h
    · cases h
    next b' r' hr =>
    split at h <;> cases h
    next hquote =>
    exact .inr (.inr ⟨by simpa using hfirst, r, r', by rw [hbs, eq_of_beq hcomma], by rw [hr, eq_of_beq hquote], rfl⟩)
  · cases h

theorem closeObject_eq {r : Bytes} (hbs : skipSpace bs = byte '\x7d' :: r) (h : closeObject (ε := ε) bs = .ok rest) :
    r = rest := by
  rw [closeObject, hbs] at h
  dsimp only at h
  rw [if_pos (by decide)] at h
  injection h

theorem length_readColon (h : readColon (ε := ε) bs = .ok rest) : rest.length < bs.length := by
  unfold readColon at h
  split at h
  · cases h
  next b r hbs =>
  split at h <;> cases h
  exact length_of_skipSpace hbs

theorem moves_end_of_object (hbs : skipSpace bs = byte '\x7d' :: rest) :
    Moves ε .next (.object :: frames) bs .next frames rest := by
  refine .of_step (length_of_skipSpace hbs) fun fuel _ => ?_
  rw [skipWithin, hbs]
  exact if_pos (by decide)

theorem moves_comma_name (hbs : skipSpace bs = byte ',' :: r) (hr : skipSpace r = byte '"' :: rest) :
    Moves ε .next (.object :: frames) bs .name (.object :: frames) rest := by
  have hlength := length_of_skipSpace hbs
  refine .of_step (Nat.lt_trans (length_of_skipSpace hr) hlength) fun fuel _ => ?_
  rw [skipWithin, hbs]
  dsimp only
  rw [if_neg (by decide), if_neg (by decide), hr]
  exact if_pos (by decide)

theorem moves_empty_object (hbs : skipSpace bs = byte '\x7b' :: r) (hr : skipSpace r = byte '\x7d' :: rest) :
    Moves ε .value frames bs .next frames rest := by
  have hlength := length_of_skipSpace hbs
  refine .of_step (Nat.lt_trans (length_of_skipSpace hr) hlength) fun fuel _ => ?_
  rw [skipWithin_brace _ hbs, hr]
  exact if_pos (by decide)

theorem moves_first_name (hbs : skipSpace bs = byte '\x7b' :: r) (hr : skipSpace r = byte '"' :: rest) :
    Moves ε .value frames bs .name (.object :: frames) rest := by
  have hlength := length_of_skipSpace hbs
  refine .of_step (Nat.lt_trans (length_of_skipSpace hr) hlength) fun fuel _ => ?_
  rw [skipWithin_brace _ hbs, hr]
  dsimp only
  rw [if_neg (by decide)]
  exact if_pos (by decide)

theorem moves_name {t : String} (hname : readText (ε := ε) length bs = .ok (t, r))
    (hcolon : readColon (ε := ε) r = .ok rest) : Moves ε .name frames bs .value frames rest := by
  obtain ⟨hless, hskip⟩ := skipText_of_readText hname
  have hlength := length_readColon hcolon
  refine .of_step (Nat.lt_trans hlength hless) fun fuel hfuel => ?_
  rw [skipWithin, hskip _ hfuel]
  dsimp only
  rw [hcolon]

theorem moves_member (hitem : Skips (readValue (ε := ε) length depth)) {t : String}
    {acc acc' : List (String × Json)} (hname : readText (ε := ε) length bs = .ok (t, r))
    (h : consMember (ε := ε) length depth acc t r = .ok (acc', rest)) :
    Moves ε .name frames bs .next frames rest := by
  unfold consMember at h
  split at h
  · cases h
  next c hcolon =>
  split at h <;> cases h
  next hread => exact (moves_name hname hcolon).trans (hitem _ _ _ _ hread)

theorem moves_members (hitem : Skips (readValue (ε := ε) length depth)) {acc acc' : List (String × Json)}
    (h : readMembers (ε := ε) length (consMember length depth) fuel false acc bs = .ok (acc', rest)) :
    Moves ε .next (.object :: frames) bs .next frames rest := by
  induction fuel generalizing acc bs with
  | zero => cases h
  | succ fuel ih =>
    rw [readMembers] at h
    split at h
    · cases h
    · next hnext =>
      obtain ⟨r, hbs, -⟩ | ⟨hfirst, -⟩ | ⟨-, c, r, -, -, hx⟩ := nextName_eq hnext
      · split at h <;> cases h
        next hclose =>
        rw [closeObject_eq hbs hclose] at hbs
        exact moves_end_of_object hbs
      · cases hfirst
      · cases hx
    · next start hnext =>
      obtain ⟨r, -, hx⟩ | ⟨hfirst, -⟩ | ⟨-, c, r, hbs, hc, hx⟩ := nextName_eq hnext
      · cases hx
      · cases hfirst
      · cases hx
        split at h
        · cases h
        next hname =>
        split at h
        · cases h
        next hmember => exact (moves_comma_name hbs hc).trans ((moves_member hitem hname hmember).trans (ih h))

theorem moves_object (hitem : Skips (readValue (ε := ε) length depth)) {acc' : List (String × Json)}
    (hbs : skipSpace bs = byte '\x7b' :: r)
    (h : readMembers (ε := ε) length (consMember length depth) fuel true [] r = .ok (acc', rest)) :
    Moves ε .value frames bs .next frames rest := by
  cases fuel with
  | zero => cases h
  | succ fuel =>
    rw [readMembers] at h
    split at h
    · cases h
    · next hnext =>
      obtain ⟨r', hr, -⟩ | ⟨-, r', -, hx⟩ | ⟨-, c, r', -, -, hx⟩ := nextName_eq hnext
      · split at h <;> cases h
        next hclose =>
        rw [closeObject_eq hr hclose] at hr
        exact moves_empty_object hbs hr
      · cases hx
      · cases hx
    · next start hnext =>
      obtain ⟨r', -, hx⟩ | ⟨-, r', hr, hx⟩ | ⟨hfirst, -⟩ := nextName_eq hnext
      · cases hx
      · cases hx
        split at h
        · cases h
        next hname =>
        split at h
        · cases h
        next hmember =>
          exact (moves_first_name hbs hr).trans ((moves_member hitem hname hmember).trans (moves_members hitem h))
      · cases hfirst

/-! ## All values -/

theorem readValue_skipSpace (bs : Bytes) :
    readValue (ε := ε) length depth (skipSpace bs) = readValue (ε := ε) length depth bs := by
  rw [readValue, readValue, skipSpace_skipSpace]

theorem skips_readValue (length depth : Nat) : Skips (readValue (ε := ε) length depth) := by
  -- The elements of a list and the values of an object have one level less; the skipper knows no levels.
  induction depth with
  | zero => exact fun frames bs v rest h => moves_scalar length (reads_of_readValue h)
  | succ depth ih =>
    intro frames bs v rest h
    cases reads_of_readValue h with
    | null hbs h => exact moves_scalar length (.null hbs h)
    | true hbs h => exact moves_scalar length (.true hbs h)
    | false hbs h => exact moves_scalar length (.false hbs h)
    | negative hbs h => exact moves_scalar length (.negative hbs h)
    | positive hbs hdigit h => exact moves_scalar length (.positive hbs hdigit h)
    | text hbs h => exact moves_scalar length (.text hbs h)
    | list hbs h => exact moves_list ih readValue_skipSpace hbs h
    | object hbs h => exact moves_object ih hbs h

/-- A value that can be read can be passed over. -/
theorem skipValue_of_readValue {v : Json} (h : readValue (ε := ε) length depth bs = .ok (v, rest)) {k : Nat}
    (hk : bs.length ≤ k) : skipValue (ε := ε) k bs = .ok rest := by
  -- Two steps for each byte and two more are what `skipValue` starts with.
  obtain ⟨-, hmoves⟩ := skips_readValue length depth [] bs v rest h
  obtain ⟨spare, hspare, heq⟩ := hmoves (2 * k + 2 - 2 * bs.length)
  have hfuel : 2 * k + 2 = 2 * bs.length + (2 * k + 2 - 2 * bs.length) := by omega
  rw [skipValue, hfuel, heq]
  obtain ⟨n, hn⟩ : ∃ n, 2 * rest.length + spare = n + 1 := ⟨2 * rest.length + spare - 1, by omega⟩
  rw [hn, skipWithin]

/-! ## What is left -/

/-- With this fuel, passing over leaves no more than there was. -/
def Shortens (ε : Type) (fuel : Nat) : Prop :=
  ∀ {e : Expecting} {frames : List Frame} {bs rest : Bytes},
    skipWithin (ε := ε) fuel e frames bs = .ok rest → rest.length ≤ bs.length

section
variable {fuel : Nat} (ih : Shortens ε fuel)
include ih

theorem Shortens.going_on (h : skipWithin (ε := ε) fuel e frames r = .ok rest) (hr : r.length ≤ bs.length) :
    rest.length ≤ bs.length :=
  Nat.le_trans (ih h) hr

/-- What stands between is passed over first. -/
theorem Shortens.past {x : Except (Trouble ε) Bytes}
    (h : (match x with
      | .error t => Except.error t
      | .ok left => skipWithin fuel e frames left) = .ok rest)
    (hx : ∀ left, x = .ok left → left.length ≤ bs.length) : rest.length ≤ bs.length := by
  cases x with
  | error e => cases h
  | ok left => exact ih.going_on h (hx left rfl)

theorem Shortens.next (h : skipWithin (ε := ε) (fuel + 1) .next frames bs = .ok rest) : rest.length ≤ bs.length := by
  cases frames with
  | nil =>
    cases h
    exact Nat.le_refl _
  | cons f frames =>
    rw [skipWithin] at h
    split at h
    · cases h
    next b r hbs =>
    have hr := Nat.le_of_lt (length_of_skipSpace hbs)
    split at h
    · exact ih.going_on h hr
    split at h
    · cases h
    cases f with
    | list => exact ih.going_on h hr
    | object =>
      dsimp only at h
      split at h
      · cases h
      next b' r' hr' =>
      have hr'' := Nat.le_trans (Nat.le_of_lt (length_of_skipSpace hr')) hr
      split at h
      · exact ih.going_on h hr''
      · cases h

theorem Shortens.name (h : skipWithin (ε := ε) (fuel + 1) .name frames bs = .ok rest) : rest.length ≤ bs.length := by
  rw [skipWithin] at h
  split at h
  · cases h
  next r htext =>
    refine ih.past h fun r' hcolon => ?_
    exact Nat.le_trans (Nat.le_of_lt (length_readColon hcolon)) (length_skipText htext)

theorem Shortens.first (h : skipWithin (ε := ε) (fuel + 1) .first frames bs = .ok rest) :
    rest.length ≤ bs.length := by
  rw [skipWithin] at h
  split at h
  · cases h
  next b r hbs =>
  split at h
  · exact ih.going_on h (Nat.le_of_lt (length_of_skipSpace hbs))
  · have hspace := length_skipSpace bs
    rw [hbs] at hspace
    exact ih.going_on h hspace

/-- An object after its brace. -/
theorem Shortens.members
    (h : (match skipSpace r with
      | [] => early
      | b :: rest =>
        if b == byte '\x7d' then skipWithin (ε := ε) fuel .next frames rest
        else if b == byte '"' then skipWithin fuel .name (.object :: frames) rest
        else malformed) = .ok rest)
    (hr : r.length ≤ bs.length) : rest.length ≤ bs.length := by
  split at h
  · cases h
  next b' r' hr' =>
  have hr'' := Nat.le_trans (Nat.le_of_lt (length_of_skipSpace hr')) hr
  split at h
  · exact ih.going_on h hr''
  split at h
  · exact ih.going_on h hr''
  · cases h

theorem Shortens.value (h : skipWithin (ε := ε) (fuel + 1) .value frames bs = .ok rest) :
    rest.length ≤ bs.length := by
  rw [skipWithin] at h
  split at h
  · cases h
  next b r hbs =>
  have hr := Nat.le_of_lt (length_of_skipSpace hbs)
  dsimp only at h
  -- In the order of the skipper: three words, two kinds of numbers, texts, lists, objects, and no value at all.
  by_cases hnull : (b == byte 'n') = true
  · rw [if_pos hnull] at h
    exact ih.past h fun left hword => Nat.le_trans (length_expect hword) hr
  rw [if_neg hnull] at h
  by_cases htrue : (b == byte 't') = true
  · rw [if_pos htrue] at h
    exact ih.past h fun left hword => Nat.le_trans (length_expect hword) hr
  rw [if_neg htrue] at h
  by_cases hfalse : (b == byte 'f') = true
  · rw [if_pos hfalse] at h
    exact ih.past h fun left hword => Nat.le_trans (length_expect hword) hr
  rw [if_neg hfalse] at h
  by_cases hminus : (b == byte '-') = true
  · rw [if_pos hminus] at h
    exact ih.past h fun left hnumber => Nat.le_trans (Nat.le_of_lt (length_skipNumber hnumber)) hr
  rw [if_neg hminus] at h
  by_cases hdigit : (isDigit b) = true
  · rw [if_pos hdigit] at h
    exact ih.past h fun left hnumber => Nat.le_trans (Nat.le_of_lt_succ (length_skipNumber hnumber)) hr
  rw [if_neg hdigit] at h
  by_cases hquote : (b == byte '"') = true
  · rw [if_pos hquote] at h
    exact ih.past h fun left htext => Nat.le_trans (length_skipText htext) hr
  rw [if_neg hquote] at h
  by_cases hbracket : (b == byte '[') = true
  · rw [if_pos hbracket] at h
    exact ih.going_on h hr
  rw [if_neg hbracket] at h
  by_cases hbrace : (b == byte '\x7b') = true
  · rw [if_pos hbrace] at h
    exact ih.members h hr
  rw [if_neg hbrace] at h
  cases h

end

theorem shortens (fuel : Nat) : Shortens ε fuel := by
  induction fuel with
  | zero => exact nofun
  | succ fuel ih =>
    intro e frames bs rest h
    cases e with
    | next => exact ih.next h
    | name => exact ih.name h
    | first => exact ih.first h
    | value => exact ih.value h

theorem length_skipValue {k : Nat} (h : skipValue (ε := ε) k bs = .ok rest) : rest.length ≤ bs.length :=
  shortens _ h

end FontCatalog.Json
