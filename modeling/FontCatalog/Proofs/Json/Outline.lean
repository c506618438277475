import FontCatalog.Proofs.Json.Nesting
import FontCatalog.Proofs.Json.Widening

/-! The members that stand in the text of an object, whoever reads it: each with its tree, or with none if its value
can only be passed over. Readers of the same text go from member to member side by side. -/
namespace FontCatalog.Json
set_option autoImplicit false

/-! ## Outlines -/

abbrev Outline := List (String × Option Json)

/-- A member with its value as a tree, or without it if it can only be passed over. -/
def outlineMember (length : Nat) (ms : Outline) (name : String) : Reading Mismatch Outline := fun bs =>
  match readColon bs with
  | .error e => .error e
  | .ok rest =>
    match readValue length (maxDepth - 1) rest with
    | .ok (v, rest) => .ok ((name, some v) :: ms, rest)
    | .error (_ : Trouble Mismatch) =>
      match skipValue length rest with
      | .error e => .error e
      | .ok rest => .ok ((name, none) :: ms, rest)

def readOutline (length : Nat) : Reading Mismatch Outline := fun bs =>
  match skipSpace bs with
  | [] => early
  | b :: rest =>
    if b == byte '\x7b' then
      match readMembers length (outlineMember length) (length + 1) true [] rest with
      | .error e => .error e
      | .ok (ms, rest) => .ok (ms.reverse, rest)
    else malformed

/-- The members of the object that is the whole text. -/
def outline (bs : Bytes) : Except (Trouble Mismatch) Outline := finish (readOutline bs.length bs)

/-- The members that have a tree. -/
def trees (ms : Outline) : List (String × Json) := ms.filterMap fun m => m.2.map fun v => (m.1, v)

/-- The outline of members that all have a tree. -/
def whole (ms : List (String × Json)) : Outline := ms.map fun m => (m.1, some m.2)

theorem trees_reverse (ms : Outline) : trees ms.reverse = (trees ms).reverse := List.filterMap_reverse

theorem trees_whole (ms : List (String × Json)) : trees (whole ms) = ms := by
  rw [trees, whole, List.filterMap_map]
  exact List.filterMap_some

theorem whole_trees {ms : Outline} (h : ∀ m ∈ ms, m.2.isSome = true) : whole (trees ms) = ms := by
  induction ms with
  | nil => rfl
  | cons m ms ih =>
    obtain ⟨n, o⟩ := m
    obtain ⟨hsome, hrest⟩ := List.forall_mem_cons.1 h
    obtain ⟨v, rfl⟩ := Option.isSome_iff_exists.1 hsome
    exact congrArg (List.cons _) (ih hrest)

/-- What stands after the name of a member. -/
inductive Entry (length : Nat) : Bytes → Option Json → Bytes → Prop
  | tree {bs mid rest : Bytes} {v : Json} (hcolon : readColon (ε := Mismatch) bs = .ok mid)
    (hread : readValue (ε := Mismatch) length (maxDepth - 1) mid = .ok (v, rest)) : Entry length bs (some v) rest
  | skipped {bs mid rest : Bytes} (hcolon : readColon (ε := Mismatch) bs = .ok mid) {e : Trouble Mismatch}
    (hread : readValue (ε := Mismatch) length (maxDepth - 1) mid = .error e)
    (hskip : skipValue (ε := Mismatch) length mid = .ok rest) : Entry length bs none rest

variable {length : Nat} {bs rest : Bytes} {n : String} {ms ms' : Outline} {o : Option Json}

theorem outlineMember_eq_ok :
    outlineMember length ms n bs = .ok (ms', rest) ↔ ∃ o, Entry length bs o rest ∧ ms' = (n, o) :: ms := by
  constructor
  · intro h
    unfold outlineMember at h
    split at h
    · cases h
    next mid hcolon =>
    split at h
    · next hread =>
      cases h
      exact ⟨_, .tree hcolon hread, rfl⟩
    · next hread =>
      split at h <;> cases h
      next hskip => exact ⟨_, .skipped hcolon hread hskip, rfl⟩
  · rintro ⟨o, hentry, rfl⟩
    unfold outlineMember
    cases hentry with
    | tree hcolon hread => rw [hcolon]; dsimp only; rw [hread]
    | skipped hcolon hread hskip => rw [hcolon]; dsimp only; rw [hread]; dsimp only; rw [hskip]

theorem Entry.skip (h : Entry length bs o rest) (hbs : bs.length ≤ length) :
    ∃ mid, readColon (ε := Mismatch) bs = .ok mid ∧ skipValue (ε := Mismatch) length mid = .ok rest := by
  cases h with
  | tree hcolon hread =>
    have hmid := length_readColon hcolon
    exact ⟨_, hcolon, skipValue_of_readValue hread (by omega)⟩
  | skipped hcolon hread hskip => exact ⟨_, hcolon, hskip⟩

theorem Entry.length_le (h : Entry length bs o rest) (hbs : bs.length ≤ length) : rest.length ≤ bs.length := by
  obtain ⟨mid, hcolon, hskip⟩ := h.skip hbs
  exact Nat.le_trans (length_skipValue hskip) (Nat.le_of_lt (length_readColon hcolon))

theorem exists_entry {mid : Bytes} (hcolon : readColon (ε := Mismatch) bs = .ok mid)
    (hskip : skipValue (ε := Mismatch) length mid = .ok rest) (hbs : bs.length ≤ length) :
    ∃ o, Entry length bs o rest := by
  cases hread : readValue (ε := Mismatch) length (maxDepth - 1) mid with
  | error e => exact ⟨none, .skipped hcolon hread hskip⟩
  | ok x =>
    obtain ⟨v, rest'⟩ := x
    have hmid := length_readColon hcolon
    rw [skipValue_of_readValue hread (by omega)] at hskip
    cases hskip
    exact ⟨some v, .tree hcolon hread⟩

theorem object_of_readOutline (h : readOutline length bs = .ok (ms, rest)) :
    ∃ r, skipSpace bs = byte '\x7b' :: r := by
  unfold readOutline at h
  split at h
  · cases h
  next b r hbs =>
  split at h
  · next hb => exact ⟨r, by rw [hbs, eq_of_beq hb]⟩
  · cases h

theorem finish_eq_ok {ε α : Type} {x : Except (Trouble ε) (α × Bytes)} {v : α} :
    finish x = .ok v ↔ ∃ rest, x = .ok (v, rest) ∧ skipSpace rest = [] := by
  unfold finish
  constructor
  · intro h
    split at h
    · cases h
    · split at h <;> cases h
      next hrest => exact ⟨_, rfl, hrest⟩
  · rintro ⟨rest, rfl, hrest⟩
    dsimp only
    rw [hrest]

/-! ## Side by side -/

section
variable {ε σ τ : Type} {member : σ → String → Reading ε σ} {member' : τ → String → Reading ε τ} {R : σ → τ → Prop}
  {P : σ → Prop} {fuel : Nat} {first : Bool} {s s' : σ} {t : τ}

theorem length_nextName {r : Bytes} (h : nextName (ε := ε) first bs = .ok (some r)) : r.length < bs.length := by
  obtain ⟨r, -, hx⟩ | ⟨-, r, hbs, hx⟩ | ⟨-, c, r, hbs, hc, hx⟩ := nextName_eq h
  · cases hx
  · cases hx
    exact length_of_skipSpace hbs
  · cases hx
    exact Nat.lt_trans (length_of_skipSpace hc) (length_of_skipSpace hbs)

theorem readMembers_back (hP : ∀ {s n bs s' rest}, member s n bs = .ok (s', rest) → P s' → P s)
    (h : readMembers length member fuel first s bs = .ok (s', rest)) (hs' : P s') : P s := by
  induction fuel generalizing first s bs with
  | zero => cases h
  | succ fuel ih =>
    rw [readMembers] at h
    split at h
    · cases h
    · split at h <;> cases h
      exact hs'
    · split at h
      · cases h
      split at h
      · cases h
      next hmember => exact hP hmember (ih h)

/-- What one reader of members can do another can, if it can at every member and stays related. Of the first one it
may be used that it gets to a state with `P`, and that it has had states with `P` before. -/
theorem readMembers_simulates (hP : ∀ {s n bs s' rest}, member s n bs = .ok (s', rest) → P s' → P s)
    (hmember : ∀ {s t n bs s' rest}, bs.length ≤ length → R s t → member s n bs = .ok (s', rest) → P s' →
      rest.length ≤ bs.length ∧ ∃ t', member' t n bs = .ok (t', rest) ∧ R s' t')
    (hbs : bs.length ≤ length) (hst : R s t) (h : readMembers length member fuel first s bs = .ok (s', rest))
    (hs' : P s') : ∃ t', readMembers length member' fuel first t bs = .ok (t', rest) ∧ R s' t' := by
  -- Names and commas are read alike, so only the members themselves have to be followed.
  induction fuel generalizing first s t bs with
  | zero => cases h
  | succ fuel ih =>
    rw [readMembers] at h ⊢
    split at h
    · cases h
    · split at h <;> cases h
      exact ⟨t, rfl, hst⟩
    · next start hnext =>
      split at h
      · cases h
      next name r hname =>
      split at h
      · cases h
      next s₁ r' hread =>
      have hstart := length_nextName hnext
      have hr := (skipText_of_readText hname).1
      obtain ⟨hr', t₁, hread', ht₁⟩ := hmember (by omega) hst hread (readMembers_back hP h hs')
      rw [hread']
      exact ih (by omega) ht₁ h

/-- A reader that makes a step at every entry is where the entries of the outline lead. -/
theorem readMembers_outline {member : σ → String → Reading Mismatch σ} {Step : σ → String → Option Json → σ → Prop}
    {T : Outline → σ → Prop}
    (hmember : ∀ {s n bs s' rest}, bs.length ≤ length →
      (member s n bs = .ok (s', rest) ↔ ∃ o, Entry length bs o rest ∧ Step s n o s'))
    (hcons : ∀ {us n o s'}, T ((n, o) :: us) s' ↔ ∃ s, T us s ∧ Step s n o s')
    (hunique : ∀ {us s s'}, T us s → T us s' → s = s') (hnil : T [] s) (hbs : bs.length ≤ length) :
    readMembers length member fuel first s bs = .ok (s', rest) ↔
      ∃ us, readMembers length (outlineMember length) fuel first [] bs = .ok (us, rest) ∧ T us s' := by
  constructor
  · intro h
    refine readMembers_simulates (R := fun s us => T us s) (P := fun _ => True) (fun _ _ => trivial) ?_ hbs hnil h
      trivial
    intro s us n bs s' rest hbs htook hread _
    obtain ⟨o, hentry, hstep⟩ := (hmember hbs).1 hread
    exact ⟨hentry.length_le hbs, _, outlineMember_eq_ok.2 ⟨o, hentry, rfl⟩, hcons.2 ⟨s, htook, hstep⟩⟩
  · rintro ⟨us, h, htook⟩
    -- The reader may refuse a member that the outline takes. That there is a state for the end says that it does not.
    have hback {us : Outline} {n : String} {bs : Bytes} {us' : Outline} {rest : Bytes}
        (h : outlineMember length us n bs = .ok (us', rest)) (hus' : ∃ s, T us' s) : ∃ s, T us s := by
      obtain ⟨o, -, rfl⟩ := outlineMember_eq_ok.1 h
      obtain ⟨s', hs'⟩ := hus'
      obtain ⟨s, hs, -⟩ := hcons.1 hs'
      exact ⟨s, hs⟩
    have hrun : ∃ s'', readMembers length member fuel first s bs = .ok (s'', rest) ∧ T us s'' := by
      refine readMembers_simulates (P := fun us => ∃ s, T us s) hback ?_ hbs hnil h ⟨s', htook⟩
      intro us s n bs us' rest hbs htook hread hus'
      obtain ⟨o, hentry, rfl⟩ := outlineMember_eq_ok.1 hread
      obtain ⟨s', hs'⟩ := hus'
      obtain ⟨s₀, hs₀, hstep⟩ := hcons.1 hs'
      rw [hunique hs₀ htook] at hstep
      exact ⟨hentry.length_le hbs, s', (hmember hbs).2 ⟨o, hentry, hstep⟩, hs'⟩
    obtain ⟨s'', hread, htook'⟩ := hrun
    rw [hread, hunique htook' htook]

end

/-! ## Trees -/

theorem consMember_eq_ok {us us' : List (String × Json)} :
    consMember (ε := Mismatch) length (maxDepth - 1) us n bs = .ok (us', rest) ↔
      ∃ o, Entry length bs o rest ∧ ∃ v, o = some v ∧ us' = (n, v) :: us := by
  unfold consMember
  constructor
  · intro h
    split at h
    · cases h
    next mid hcolon =>
    split at h <;> cases h
    next v hread => exact ⟨some v, .tree hcolon hread, v, rfl, rfl⟩
  · rintro ⟨o, hentry, v, rfl, rfl⟩
    cases hentry with
    | tree hcolon hread => rw [hcolon]; dsimp only; rw [hread]

theorem cons_eq_whole {vs : List (String × Json)} :
    (n, o) :: ms = whole vs ↔ ∃ us, ms = whole us ∧ ∃ v, o = some v ∧ vs = (n, v) :: us := by
  constructor
  · intro h
    cases vs with
    | nil => cases h
    | cons m us =>
      cases h
      exact ⟨us, rfl, m.2, rfl, rfl⟩
  · rintro ⟨us, rfl, v, rfl, rfl⟩
    rfl

theorem whole_unique {us vs : List (String × Json)} (h : ms = whole us) (h' : ms = whole vs) : us = vs := by
  rw [← trees_whole us, ← h, h', trees_whole]

/-- Where all values of an object have trees, its outline is the tree of the object. -/
theorem readOutline_whole_iff {ms : List (String × Json)} (hbs : bs.length ≤ length) :
    readOutline length bs = .ok (whole ms, rest) ↔
      readValue (ε := Mismatch) length maxDepth bs = .ok (.object ms, rest) := by
  have hmembers {r : Bytes} (hr : r.length ≤ length) {us : List (String × Json)} :
      readMembers (ε := Mismatch) length (consMember length (maxDepth - 1)) (length + 1) true [] r = .ok (us, rest) ↔
        readMembers length (outlineMember length) (length + 1) true [] r = .ok (whole us, rest) := by
    have hrun : readMembers (ε := Mismatch) length (consMember length (maxDepth - 1)) (length + 1) true [] r =
        .ok (us, rest) ↔ ∃ ms, readMembers length (outlineMember length) (length + 1) true [] r = .ok (ms, rest) ∧
          ms = whole us :=
      readMembers_outline (T := fun ms us => ms = whole us) (fun _ => consMember_eq_ok) cons_eq_whole whole_unique rfl hr
    rw [hrun]
    constructor
    · rintro ⟨ms, hms, rfl⟩
      exact hms
    · exact fun h => ⟨_, h, rfl⟩
  constructor
  · intro h
    obtain ⟨r, hobject⟩ := object_of_readOutline h
    have hr := length_of_skipSpace hobject
    rw [readOutline, hobject] at h
    dsimp only at h
    rw [if_pos (by decide)] at h
    split at h
    · cases h
    next us rest' hus =>
    rw [Except.ok.injEq, Prod.mk.injEq] at h
    obtain ⟨hwhole, rfl⟩ := h
    have hus' : us = whole ms.reverse := by rw [whole, List.map_reverse, ← whole, ← hwhole, List.reverse_reverse]
    rw [hus'] at hus
    have hread := (hmembers (by omega)).2 hus
    rw [← readValue_skipSpace, hobject]
    refine (readValue_brace _ (maxDepth - 1) _).trans ?_
    rw [hread]
    dsimp only
    rw [List.reverse_reverse]
  · intro h
    have hdepth : maxDepth = maxDepth - 1 + 1 := rfl
    rw [hdepth] at h
    cases reads_of_readValue h with
    | @object _ _ r _ members hobject hread =>
      have hr := length_of_skipSpace hobject
      rw [readOutline, hobject]
      dsimp only
      rw [if_pos (by decide), (hmembers (by omega)).1 hread]
      dsimp only
      rw [whole, whole, List.map_reverse]

/-- The outline of the text of an object, in any layout. -/
theorem outline_spell {ms : List (String × Json)} (h : (Json.object ms).Plain maxDepth) (l : Layout) (k : Nat) :
    outline ((Json.object ms).spell l k) = .ok (whole ms) := by
  have hends : Ends [] := trivial
  have hread := readValue_spell (ε := Mismatch) h l k (Nat.le_refl _) hends
  rw [List.append_nil] at hread
  exact finish_eq_ok.2 ⟨[], (readOutline_whole_iff (Nat.le_refl _)).2 hread, rfl⟩

/-! ## Wider outlines -/

theorem object_of_outline (h : outline bs = .ok ms) : ∃ r, skipSpace bs = byte '\x7b' :: r := by
  obtain ⟨rest, hread, -⟩ := finish_eq_ok.1 h
  exact object_of_readOutline hread

variable {known : List String}

theorem Wider.trees (h : Wider known (fun _ => Eq) ms ms') : Wider known (fun _ => Eq) (trees ms) (trees ms') := by
  obtain ⟨extra, hextra, hperm⟩ := wider_eq_iff.1 h
  refine wider_eq_iff.2 ⟨Json.trees extra, fun m hm => ?_, ?_⟩
  · obtain ⟨m', hm', htree⟩ := List.mem_filterMap.1 hm
    obtain ⟨v, -, rfl⟩ := Option.map_eq_some_iff.1 htree
    exact hextra m' hm'
  · rw [Json.trees, Json.trees, Json.trees, ← List.filterMap_append]
    exact hperm.filterMap _

end FontCatalog.Json
