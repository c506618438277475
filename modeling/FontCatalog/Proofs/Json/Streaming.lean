import FontCatalog.Proofs.Json.Outline

/-! A shape is read from a text as it is from the tree of the text: scalars at any depth, and records from the trees
of the outline, if every member that they know has one. -/
namespace FontCatalog.Json
set_option autoImplicit false

variable {length : Nat} {bs rest : Bytes} {n : String} {ms ms' : Outline} {o : Option Json}

/-! ## Scalars -/

/-- Values that are no lists and no objects are read at any depth. -/
theorem readValue_of_reads {ε : Type} {v : Json} (h : Reads ε length 0 bs v rest) (depth : Nat) :
    readValue (ε := ε) length depth bs = .ok (v, rest) := by
  rw [← readValue_skipSpace]
  cases h with
  | null hbs h =>
    rw [readValue, skipSpace_skipSpace, hbs]
    dsimp only
    rw [if_pos (by decide), h]
  | true hbs h =>
    rw [readValue, skipSpace_skipSpace, hbs]
    dsimp only
    rw [if_neg (by decide), if_pos (by decide), h]
  | false hbs h =>
    rw [readValue, skipSpace_skipSpace, hbs]
    dsimp only
    rw [if_neg (by decide), if_neg (by decide), if_pos (by decide), h]
  | negative hbs h => rw [hbs, readValue_minus, h]
  | positive hbs hdigit h => rw [hbs, readValue_digit _ _ _ hdigit, h]
  | text hbs h => rw [hbs, readValue_quote, h]

theorem readValue_of_scalar {ε : Type} {v : Json} (h : readValue (ε := ε) length 0 bs = .ok (v, rest)) (depth : Nat) :
    readValue (ε := ε) length depth bs = .ok (v, rest) :=
  readValue_of_reads (reads_of_readValue h) depth

theorem refuse_ne_ok {want : String} {x : Json × Bytes} : refuse want length bs ≠ .ok x := by
  intro h
  unfold refuse at h
  split at h
  · cases h
  split at h
  · cases h
  split at h
  · cases h
  split at h <;> cases h

namespace Shape

/-- A text is read as its tree is. -/
def ReadsTrees (s : Shape) : Prop :=
  ∀ (length depth : Nat) (bs : Bytes) (v : Json) (rest : Bytes), s.ofText length bs = .ok (v, rest) ↔
    ∃ w, readValue (ε := Mismatch) length depth bs = .ok (w, rest) ∧ s.ofTree .document w = .ok v

theorem string_readsTrees (want : String) : (string want).ReadsTrees := by
  intro length depth bs v rest
  dsimp only [string]
  constructor
  · intro h
    split at h
    · cases h
    next b r hbs =>
    split at h
    · next hb =>
      split at h <;> cases h
      next t htext =>
      refine ⟨.text t, ?_, rfl⟩
      rw [← readValue_skipSpace, hbs, eq_of_beq hb, readValue_quote, htext]
    · exact absurd h refuse_ne_ok
  · rintro ⟨w, hread, hw⟩
    cases reads_of_readValue hread with
    | text hbs htext =>
      cases hw
      rw [hbs]
      dsimp only
      rw [if_pos (by decide), htext]
    | null | true | false | negative | positive | list | object => cases hw

theorem boolean_readsTrees : boolean.ReadsTrees := by
  intro length depth bs v rest
  dsimp only [boolean]
  constructor
  · intro h
    split at h
    · cases h
    next b r hbs =>
    split at h
    · next hb =>
      rw [← hbs, readValue_skipSpace] at h
      refine ⟨v, readValue_of_scalar h depth, ?_⟩
      cases reads_of_readValue h with
      | true | false => rfl
      | null hbs' | negative hbs' | text hbs' =>
        rw [hbs] at hbs'
        cases hbs'
        exact absurd hb (by decide)
      | positive hbs' hdigit =>
        rw [hbs] at hbs'
        cases hbs'
        rw [beq_byte_of_digit hdigit (by decide) (by decide), beq_byte_of_digit hdigit (by decide) (by decide)] at hb
        cases hb
    · exact absurd h refuse_ne_ok
  · rintro ⟨w, hread, hw⟩
    cases reads_of_readValue hread with
    | true hbs h =>
      cases hw
      rw [hbs]
      dsimp only
      rw [if_pos (by decide), ← hbs, readValue_skipSpace]
      exact readValue_of_reads (.true hbs h) 0
    | false hbs h =>
      cases hw
      rw [hbs]
      dsimp only
      rw [if_pos (by decide), ← hbs, readValue_skipSpace]
      exact readValue_of_reads (.false hbs h) 0
    | null | text | negative | positive | list | object => cases hw

theorem word_readsTrees (bits : Nat) (name : String) : (word bits name).ReadsTrees := by
  intro length depth bs v rest
  dsimp only [word]
  constructor
  · intro h
    split at h
    · cases h
    next b r hbs =>
    split at h
    · rw [← hbs, readValue_skipSpace] at h
      split at h
      · cases h
      · next n r' hread =>
        split at h <;> cases h
        next hword => exact ⟨.number n, readValue_of_scalar hread depth, hword⟩
      · cases h
    · exact absurd h refuse_ne_ok
  · rintro ⟨w, hread, hw⟩
    cases reads_of_readValue hread with
    | negative hbs h =>
      rw [hbs]
      dsimp only
      rw [if_pos (by decide), ← hbs, readValue_skipSpace, readValue_of_reads (.negative hbs h) 0]
      dsimp only at hw ⊢
      rw [hw]
    | positive hbs hdigit h =>
      rw [hbs]
      dsimp only
      rw [if_pos (by simp [hdigit]), ← hbs, readValue_skipSpace, readValue_of_reads (.positive hbs hdigit h) 0]
      dsimp only at hw ⊢
      rw [hw]
    | null | true | false | text | list | object => cases hw

theorem reads_null_iff {depth : Nat} {v : Json} {b : UInt8} {r : Bytes} (hbs : skipSpace bs = b :: r)
    (h : Reads Mismatch length depth bs v rest) : v = .null ↔ b = byte 'n' := by
  cases h with
  | null hbs' =>
    rw [hbs] at hbs'
    cases hbs'
    exact ⟨fun _ => rfl, fun _ => rfl⟩
  | true hbs' | false hbs' | negative hbs' | text hbs' | list hbs' | object hbs' =>
    rw [hbs] at hbs'
    cases hbs'
    exact ⟨fun hv => (by cases hv), fun hb => absurd hb (by decide)⟩
  | positive hbs' hdigit =>
    rw [hbs] at hbs'
    cases hbs'
    refine ⟨fun hv => (by cases hv), fun hb => ?_⟩
    have hletter := beq_byte_of_digit (c := 'n') hdigit (by decide) (by decide)
    rw [hb, beq_self_eq_true] at hletter
    cases hletter

theorem optional_ofTree {s : Shape} {origin : Origin} {v : Json} (hv : v ≠ .null) :
    (optional s).ofTree origin v = s.ofTree origin v := by
  cases v with
  | null => exact absurd rfl hv
  | bool | number | text | list | object => rfl

theorem optional_readsTrees {s : Shape} (hs : s.ReadsTrees) : (optional s).ReadsTrees := by
  intro length depth bs v rest
  have hread := hs length depth (skipSpace bs) v rest
  rw [readValue_skipSpace] at hread
  constructor
  · intro h
    dsimp only [optional] at h
    split at h
    · cases h
    next b r hbs =>
    split at h
    · next hb =>
      rw [← hbs, readValue_skipSpace] at h
      have hnull := (reads_null_iff hbs (reads_of_readValue h)).2 (eq_of_beq hb)
      subst hnull
      exact ⟨.null, readValue_of_scalar h depth, rfl⟩
    · next hb =>
      rw [← hbs] at h
      obtain ⟨w, hw, hof⟩ := hread.1 h
      have hnot : w ≠ .null := fun hnull => hb (by rw [(reads_null_iff hbs (reads_of_readValue hw)).1 hnull]; rfl)
      exact ⟨w, hw, by rw [optional_ofTree hnot, hof]⟩
  · rintro ⟨w, hw, hof⟩
    cases hbs : skipSpace bs with
    | nil =>
      rw [readValue, hbs] at hw
      cases hw
    | cons b r =>
      dsimp only [optional]
      rw [hbs]
      dsimp only
      by_cases hnull : w = .null
      · subst hnull
        cases hof
        have hb := (reads_null_iff hbs (reads_of_readValue hw)).1 rfl
        subst hb
        rw [if_pos (beq_self_eq_true _), ← hbs, readValue_skipSpace]
        cases reads_of_readValue hw with
        | null hbs h => exact readValue_of_reads (.null hbs h) 0
      · have hb : ¬ (b == byte 'n') = true :=
          fun hb => hnull ((reads_null_iff hbs (reads_of_readValue hw)).2 (eq_of_beq hb))
        rw [optional_ofTree hnull] at hof
        rw [if_neg hb, ← hbs]
        exact hread.2 ⟨w, hw, hof⟩

/-! ## Records -/

variable {fields : List Field} {seen done : List (String × Json)}

theorem visit_append {origin : Origin} (ms ns : List (String × Json)) :
    visit origin fields seen (ms ++ ns) = .ok done ↔
      ∃ mid, visit origin fields seen ms = .ok mid ∧ visit origin fields mid ns = .ok done := by
  induction ms generalizing seen with
  | nil =>
    constructor
    · exact fun h => ⟨seen, rfl, h⟩
    · rintro ⟨mid, hmid, h⟩
      cases hmid
      exact h
  | cons m ms ih =>
    rw [List.cons_append, visit, visit]
    cases findField m.1 fields with
    | none => exact ih
    | some f =>
      dsimp only
      split
      · constructor
        · intro h
          cases h
        · rintro ⟨mid, hmid, -⟩
          cases hmid
      · cases f.shape.ofTree origin m.2 with
        | error e =>
          constructor
          · intro h
            cases h
          · rintro ⟨mid, hmid, -⟩
            cases hmid
        | ok w => exact ih

/-- Every member that the record knows has a tree. -/
def KnownTrees (fields : List Field) (ms : Outline) : Prop :=
  ∀ m ∈ ms, (findField m.1 fields).isSome = true → m.2.isSome = true

theorem knownTrees_whole (fields : List Field) (ms : List (String × Json)) : KnownTrees fields (whole ms) := by
  intro m hm _
  obtain ⟨n, -, rfl⟩ := List.mem_map.1 hm
  rfl

/-- A record has read the members of an outline, the last of which comes first. -/
def Took (fields : List Field) (ms : Outline) (seen : List (String × Json)) : Prop :=
  KnownTrees fields ms ∧ visit .document fields [] (trees ms).reverse = .ok seen

/-- What one more member does to what has been read. -/
def Takes (fields : List Field) (seen : List (String × Json)) (n : String) (o : Option Json)
    (done : List (String × Json)) : Prop :=
  ((findField n fields).isSome = true → o.isSome = true) ∧ visit .document fields seen (trees [(n, o)]) = .ok done

theorem took_cons : Took fields ((n, o) :: ms) done ↔ ∃ seen, Took fields ms seen ∧ Takes fields seen n o done := by
  have htrees : (trees ((n, o) :: ms)).reverse = (trees ms).reverse ++ trees [(n, o)] := by
    cases o with
    | none => exact (List.append_nil _).symm
    | some v => exact List.reverse_cons
  rw [Took, KnownTrees, List.forall_mem_cons, htrees, visit_append]
  constructor
  · rintro ⟨⟨hn, hms⟩, seen, hseen, hdone⟩
    exact ⟨seen, ⟨hms, hseen⟩, hn, hdone⟩
  · rintro ⟨seen, ⟨hms, hseen⟩, hn, hdone⟩
    exact ⟨⟨hn, hms⟩, seen, hseen, hdone⟩

theorem took_unique {seen' : List (String × Json)} (h : Took fields ms seen) (h' : Took fields ms seen') :
    seen = seen' :=
  Except.ok.inj (h.2.symm.trans h'.2)

/-- A member of a record is read as its entry is. -/
theorem readMember_eq_ok (hfields : ∀ f ∈ fields, f.shape.ReadsTrees) (hbs : bs.length ≤ length) :
    readMember length fields seen n bs = .ok (done, rest) ↔
      ∃ o, Entry length bs o rest ∧ Takes fields seen n o done := by
  rw [readMember]
  cases hfind : findField n fields with
  | none =>
    have hvisit (o : Option Json) : visit .document fields seen (trees [(n, o)]) = .ok seen := by
      cases o with
      | none => rfl
      | some v =>
        show visit .document fields seen [(n, v)] = _
        rw [visit, hfind, visit]
    constructor
    · intro h
      dsimp only at h
      split at h
      · cases h
      next mid hcolon =>
      split at h <;> cases h
      next hskip =>
      obtain ⟨o, hentry⟩ := exists_entry hcolon hskip hbs
      exact ⟨o, hentry, fun hsome => (by rw [hfind] at hsome; cases hsome), hvisit o⟩
    · rintro ⟨o, hentry, -, hdone⟩
      obtain ⟨mid, hcolon, hskip⟩ := hentry.skip hbs
      rw [hvisit] at hdone
      cases hdone
      dsimp only
      rw [hcolon]
      dsimp only
      rw [hskip]
  | some f =>
    have hshape := hfields f (findField_mem hfind).1
    constructor
    · intro h
      dsimp only at h
      split at h
      · cases h
      next hnew =>
      split at h
      · cases h
      next mid hcolon =>
      split at h <;> cases h
      next w htext =>
      obtain ⟨v, hread, hof⟩ := (hshape length (maxDepth - 1) mid w rest).1 htext
      refine ⟨some v, .tree hcolon hread, fun _ => rfl, ?_⟩
      show visit .document fields seen [(n, v)] = _
      rw [visit, hfind]
      dsimp only
      rw [if_neg hnew, hof]
      rfl
    · rintro ⟨o, hentry, hsome, hdone⟩
      cases hentry with
      | skipped => exact absurd (hsome (by rw [hfind]; rfl)) (by decide)
      | tree hcolon hread =>
        have hvisit : visit .document fields seen [(n, _)] = .ok done := hdone
        rw [visit, hfind] at hvisit
        dsimp only at hvisit ⊢
        split at hvisit
        · cases hvisit
        next hnew =>
        split at hvisit <;> cases hvisit
        next w hof =>
        rw [if_neg hnew, hcolon]
        dsimp only
        rw [(hshape length (maxDepth - 1) _ w rest).2 ⟨_, hread, hof⟩]

/-- The text of an object is read as the trees of its outline are. -/
theorem record_ofText {title : String} {w : Json} {r : Bytes} (hfields : ∀ f ∈ fields, f.shape.ReadsTrees)
    (hobject : skipSpace bs = byte '\x7b' :: r) (hbs : bs.length ≤ length) :
    (record title fields).ofText length bs = .ok (w, rest) ↔ ∃ ms, readOutline length bs = .ok (ms, rest) ∧
      KnownTrees fields ms ∧ (record title fields).ofTree .document (.object (trees ms)) = .ok w := by
  have hr := length_of_skipSpace hobject
  have hmembers {done : List (String × Json)} {rest : Bytes} :
      readMembers length (readMember length fields) (length + 1) true [] r = .ok (done, rest) ↔
        ∃ ms, readMembers length (outlineMember length) (length + 1) true [] r = .ok (ms, rest) ∧
          Took fields ms done :=
    readMembers_outline (readMember_eq_ok hfields) took_cons took_unique ⟨List.forall_mem_nil _, rfl⟩ (by omega)
  dsimp only [record, readOutline]
  rw [hobject]
  dsimp only
  rw [if_pos (by decide), if_pos (by decide)]
  constructor
  · intro h
    split at h
    · cases h
    next done r' hread =>
    obtain ⟨ms, hms, hknown, hvisit⟩ := hmembers.1 hread
    split at h <;> cases h
    next members hcollect =>
    refine ⟨ms.reverse, by rw [hms], fun m hm => hknown m (List.mem_reverse.1 hm), ?_⟩
    rw [trees_reverse, hvisit]
    dsimp only
    rw [hcollect]
    rfl
  · rintro ⟨ms, h, hknown, hof⟩
    split at h <;> cases h
    next ms hms =>
    rw [trees_reverse] at hof
    split at hof
    · cases hof
    next done hvisit =>
    rw [hmembers.2 ⟨ms, hms, fun m hm => hknown m (List.mem_reverse.2 hm), hvisit⟩]
    dsimp only
    cases hcollect : collect done fields with
    | error e =>
      rw [hcollect] at hof
      cases hof
    | ok members =>
      rw [hcollect] at hof
      cases hof
      rfl

theorem parse_record_eq_ok {title : String} {w : Json} {r : Bytes} (hfields : ∀ f ∈ fields, f.shape.ReadsTrees)
    (hobject : skipSpace bs = byte '\x7b' :: r) :
    (record title fields).parse bs = .ok w ↔ ∃ ms, outline bs = .ok ms ∧ KnownTrees fields ms ∧
      (record title fields).ofTree .document (.object (trees ms)) = .ok w := by
  rw [parse, outline, finish_eq_ok]
  constructor
  · rintro ⟨rest, htext, hrest⟩
    obtain ⟨ms, hms, htree⟩ := (record_ofText hfields hobject (Nat.le_refl _)).1 htext
    exact ⟨ms, finish_eq_ok.2 ⟨rest, hms, hrest⟩, htree⟩
  · rintro ⟨ms, houtline, htree⟩
    obtain ⟨rest, hms, hrest⟩ := finish_eq_ok.1 houtline
    exact ⟨rest, (record_ofText hfields hobject (Nat.le_refl _)).2 ⟨ms, hms, htree⟩, hrest⟩

theorem knownTrees_of_wider {known : List String} (h : Wider known (fun _ => Eq) ms ms')
    (hfields : ∀ f ∈ fields, f.name ∈ known) (hms : KnownTrees fields ms) : KnownTrees fields ms' := by
  obtain ⟨extra, hextra, hperm⟩ := wider_eq_iff.1 h
  intro m hm hsome
  rcases List.mem_append.1 (hperm.subset hm) with hm | hm
  · exact hms m hm hsome
  · obtain ⟨f, hf⟩ := Option.isSome_iff_exists.1 hsome
    obtain ⟨hmem, hname⟩ := findField_mem hf
    exact absurd (hname ▸ hfields f hmem) (hextra m hm)

end Shape

end FontCatalog.Json
