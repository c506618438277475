import FontCatalog.Proofs.Json.Shape
import Mathlib.Data.List.Forall2

/-! Objects with more members than a reader knows, in any order. A record reads the members that it knows by name
and no others, so it is read from every wider object as it is from the object. -/
namespace FontCatalog.Json
set_option autoImplicit false

/-! ## Wider objects -/

/-- The members in any order, their values changed by `R`, and more members of names that are not known. -/
def Wider {α : Type} (known : List String) (R : String → α → α → Prop) (ms ms' : List (String × α)) : Prop :=
  ∃ kept extra, List.Forall₂ (fun m m' => m.1 = m'.1 ∧ R m.1 m.2 m'.2) ms kept ∧
    (∀ m ∈ extra, m.1 ∉ known) ∧ ms'.Perm (kept ++ extra)

/-- The same value or, if it is an object, one with wider members. -/
inductive Widened (known : List String) (R : String → Json → Json → Prop) : Json → Json → Prop
  | same (v : Json) : Widened known R v v
  | object {ms ms' : List (String × Json)} (h : Wider known R ms ms') : Widened known R (.object ms) (.object ms')

/-- Lists of the same length whose items are related one by one. -/
inductive Each (R : Json → Json → Prop) : Json → Json → Prop
  | list {vs vs' : List Json} (h : List.Forall₂ R vs vs') : Each R (.list vs) (.list vs')

/-- No object in this value has a name twice. -/
inductive Distinct : Json → Prop
  | null : Distinct .null
  | bool (b : Bool) : Distinct (.bool b)
  | number (n : Number) : Distinct (.number n)
  | text (s : String) : Distinct (.text s)
  | list {items : List Json} (h : ∀ v ∈ items, Distinct v) : Distinct (.list items)
  | object {ms : List (String × Json)} (hms : (names ms).Nodup) (h : ∀ m ∈ ms, Distinct m.2) : Distinct (.object ms)

/-- Members in which every known name is there no more than once, with values that are related by `R`. -/
structure Alike (known : List String) (R : String → Json → Json → Prop) (ms ms' : List (String × Json)) : Prop where
  once : ∀ n ∈ known, (names ms).count n ≤ 1
  once' : ∀ n ∈ known, (names ms').count n ≤ 1
  related : ∀ n ∈ known, Option.Rel (R n) (lookup n ms) (lookup n ms')

variable {known wanted : List String} {R S : String → Json → Json → Prop} {ms ms' : List (String × Json)}

theorem names_of_forall₂ (h : List.Forall₂ (fun m m' => m.1 = m'.1 ∧ R m.1 m.2 m'.2) ms ms') :
    names ms' = names ms := by
  induction h with
  | nil => rfl
  | cons hm _ ih => rw [names, List.map_cons, ← names, ih, ← hm.1]; rfl

theorem lookup_of_forall₂ (h : List.Forall₂ (fun m m' => m.1 = m'.1 ∧ R m.1 m.2 m'.2) ms ms') (n : String) :
    Option.Rel (R n) (lookup n ms) (lookup n ms') := by
  induction h with
  | nil => exact .none
  | @cons m m' _ _ hm _ ih =>
    rw [lookup, lookup, ← hm.1]
    by_cases hn : m.1 == n
    · rw [if_pos hn, if_pos hn, ← eq_of_beq hn]
      exact .some hm.2
    · rw [if_neg hn, if_neg hn]
      exact ih

section
variable {α : Type} {xs ys : List (String × α)}

theorem wider_eq_iff : Wider known (fun _ => Eq) xs ys ↔
    ∃ extra, (∀ m ∈ extra, m.1 ∉ known) ∧ ys.Perm (xs ++ extra) := by
  have hsame (zs : List (String × α)) : List.Forall₂ (fun m m' => m.1 = m'.1 ∧ m.2 = m'.2) xs zs ↔ zs = xs := by
    have heq : (fun m m' : String × α => m.1 = m'.1 ∧ m.2 = m'.2) = Eq := by
      funext m m'
      exact propext Prod.ext_iff.symm
    rw [heq, List.forall₂_eq_eq_eq]
    exact eq_comm
  constructor
  · rintro ⟨kept, extra, hkept, hextra, hperm⟩
    rw [(hsame kept).1 hkept] at hperm
    exact ⟨extra, hextra, hperm⟩
  · rintro ⟨extra, hextra, hperm⟩
    exact ⟨xs, extra, (hsame xs).2 rfl, hextra, hperm⟩

theorem Wider.filter {R : String → α → α → Prop} (h : Wider known R xs ys) (p : String → Bool) :
    Wider known R (xs.filter fun m => p m.1) (ys.filter fun m => p m.1) := by
  obtain ⟨kept, extra, hkept, hextra, hperm⟩ := h
  refine ⟨kept.filter fun m => p m.1, extra.filter fun m => p m.1, ?_, fun m hm => hextra m (List.mem_filter.1 hm).1, ?_⟩
  · refine List.rel_filter ?_ hkept
    intro m m' hm
    show p m.1 = true ↔ p m'.1 = true
    rw [hm.1]
  · rw [← List.filter_append]
    exact hperm.filter _

end

/-- What is known and there no more than once is found among wider members. -/
theorem Wider.alike (h : Wider known R ms ms') (hwanted : ∀ n ∈ wanted, n ∈ known)
    (hms : ∀ n ∈ wanted, (names ms).count n ≤ 1) : Alike wanted R ms ms' := by
  obtain ⟨kept, extra, hkept, hextra, hperm⟩ := h
  have hunknown : ∀ n ∈ wanted, n ∉ names extra := by
    intro n hn hmem
    obtain ⟨m, hm, rfl⟩ := List.mem_map.1 hmem
    exact hextra m hm (hwanted _ hn)
  have honce : ∀ n ∈ wanted, (names ms').count n ≤ 1 := by
    intro n hn
    have hcount : (names (kept ++ extra)).count n = (names ms).count n := by
      rw [names, List.map_append, List.count_append, ← names, ← names, names_of_forall₂ hkept,
        List.count_eq_zero.2 (hunknown n hn), Nat.add_zero]
    have hsame : (names ms').count n = (names (kept ++ extra)).count n := (hperm.map Prod.fst).count_eq n
    rw [hsame, hcount]
    exact hms n hn
  refine ⟨hms, honce, fun n hn => ?_⟩
  rw [lookup_perm_once (honce n hn) hperm, lookup_append, lookup_eq_none (hunknown n hn), Option.or_none]
  exact lookup_of_forall₂ hkept n

theorem optionRel_map {α β γ δ : Type} {r : α → β → Prop} {q : γ → δ → Prop} {f : α → γ} {g : β → δ} {x : Option α}
    {y : Option β} (hxy : Option.Rel r x y) (h : ∀ a b, x = some a → r a b → q (f a) (g b)) :
    Option.Rel q (x.map f) (y.map g) := by
  cases hxy with
  | none => exact .none
  | some hab => exact .some (h _ _ rfl hab)

/-- Sorting at every depth keeps objects alike; of the values it is known that they are distinct. -/
theorem Wider.keyed (h : Wider known R ms ms') (hms : (Json.object ms).Distinct)
    (hR : ∀ n v v', v.Distinct → R n v v' → S n v.keyed v'.keyed) :
    Alike known S (sortMembers (keyedMembers ms)) (sortMembers (keyedMembers ms')) := by
  cases hms with
  | object hnodup hvalues =>
    have halike := h.alike (fun _ hn => hn) fun n _ => List.nodup_iff_count_le_one.1 hnodup n
    refine ⟨fun n _ => List.nodup_iff_count_le_one.1 (sortMembers_nodup _) n,
      fun n _ => List.nodup_iff_count_le_one.1 (sortMembers_nodup _) n, fun n hn => ?_⟩
    rw [lookup_sorted_once (halike.once n hn), lookup_sorted_once (halike.once' n hn)]
    exact optionRel_map (halike.related n hn) fun v v' hv => hR n v v' (hvalues _ (lookup_mem hv))

theorem Widened.cases_object {v v' : Json} (h : Widened known R v v') :
    v' = v ∨ ∃ ms ms', v = .object ms ∧ v' = .object ms' ∧ Wider known R ms ms' := by
  cases h with
  | same => exact .inl rfl
  | object h => exact .inr ⟨_, _, rfl, rfl, h⟩

theorem Alike.isSome (h : Alike known R ms ms') {n : String} (hn : n ∈ known) :
    (lookup n ms').isSome = (lookup n ms).isSome := by
  have hrelated := h.related n hn
  generalize lookup n ms = v at hrelated ⊢
  generalize lookup n ms' = v' at hrelated ⊢
  cases hrelated <;> rfl

/-! ## Records -/

namespace Shape

variable {origin : Origin} {fields : List Field}

/-- What has been read of a record's members is what is found under their names. -/
theorem visit_reads {seen done : List (String × Json)} (h : visit origin fields seen ms = .ok done) {n : String}
    {f : Field} (hf : findField n fields = some f) :
    (∀ w, lookup n seen = some w → lookup n done = some w) ∧
      (lookup n seen = none → Option.Rel (fun v w => f.shape.ofTree origin v = .ok w) (lookup n ms) (lookup n done)) := by
  induction ms generalizing seen with
  | nil =>
    cases h
    exact ⟨fun _ hw => hw, fun hnone => by rw [hnone]; exact .none⟩
  | cons m ms ih =>
    rw [visit] at h
    cases hfind : findField m.1 fields with
    | none =>
      rw [hfind] at h
      have hne : ¬ (m.1 == n) = true := by
        intro hm
        rw [eq_of_beq hm, hf] at hfind
        cases hfind
      rw [lookup, if_neg hne]
      exact ih h
    | some g =>
      rw [hfind] at h
      dsimp only at h
      split at h
      · cases h
      next hnew =>
      split at h
      · cases h
      next w hread =>
      obtain ⟨hkept, hfresh⟩ := ih h
      rw [lookup] at hkept hfresh ⊢
      by_cases hm : m.1 == n
      · have hname := eq_of_beq hm
        subst hname
        rw [hf] at hfind
        cases hfind
        rw [if_pos hm] at hkept ⊢
        refine ⟨fun x hx => absurd (Option.isSome_of_eq_some hx) hnew, fun _ => ?_⟩
        rw [hkept w rfl]
        exact .some hread
      · rw [if_neg hm] at hkept hfresh ⊢
        exact ⟨hkept, hfresh⟩

/-- Whether a record has a field of this name. -/
def isKnown (fields : List Field) (m : String × Json) : Bool := (findField m.1 fields).isSome

theorem visit_filter (seen ms : List (String × Json)) :
    visit origin fields seen (ms.filter (isKnown fields)) = visit origin fields seen ms := by
  induction ms generalizing seen with
  | nil => rfl
  | cons m ms ih =>
    rw [visit]
    cases hfind : findField m.1 fields with
    | none =>
      rw [List.filter_cons_of_neg (by simp [isKnown, hfind])]
      exact ih seen
    | some f =>
      rw [List.filter_cons_of_pos (by simp [isKnown, hfind]), visit, hfind]
      dsimp only
      split
      · rfl
      · cases f.shape.ofTree origin m.2 with
        | error e => rfl
        | ok w => exact ih _

theorem record_filter {title : String} (ms : List (String × Json)) :
    (record title fields).ofTree origin (.object (ms.filter (isKnown fields))) =
      (record title fields).ofTree origin (.object ms) := by
  dsimp only [record]
  rw [visit_filter]

theorem lookup_filter {n : String} {f : Field} (hf : findField n fields = some f) (ms : List (String × Json)) :
    lookup n (ms.filter (isKnown fields)) = lookup n ms := by
  induction ms with
  | nil => rfl
  | cons m ms ih =>
    by_cases hm : m.1 == n
    · have hknown : isKnown fields m = true := by rw [isKnown, eq_of_beq hm, hf]; rfl
      rw [List.filter_cons_of_pos hknown, lookup, lookup, if_pos hm, if_pos hm]
    · by_cases hknown : isKnown fields m = true
      · rw [List.filter_cons_of_pos hknown, lookup, lookup, if_neg hm, if_neg hm, ih]
      · rw [List.filter_cons_of_neg hknown, lookup, if_neg hm, ih]

/-- The members that are known are there once each. -/
theorem nodup_filter (h : ∀ n f, findField n fields = some f → (names ms).count n ≤ 1) :
    (names (ms.filter (isKnown fields))).Nodup := by
  refine List.nodup_iff_count_le_one.2 fun n => ?_
  cases hf : findField n fields with
  | none =>
    have hnot : n ∉ names (ms.filter (isKnown fields)) := by
      intro hmem
      obtain ⟨m, hm, rfl⟩ := List.mem_map.1 hmem
      have hknown := (List.mem_filter.1 hm).2
      rw [isKnown, hf] at hknown
      cases hknown
    rw [List.count_eq_zero.2 hnot]
    exact Nat.zero_le 1
  | some f => exact Nat.le_trans ((List.filter_sublist.map Prod.fst).count_le n) (h n f hf)

/-- A record is read from any object that is alike, if every field is. -/
theorem record_of_alike {title : String} {w : Json} (halike : Alike known R ms ms')
    (hfields : ∀ f ∈ fields, f.name ∈ known)
    (hread : ∀ n f, findField n fields = some f → ∀ v v' w, R n v v' → f.shape.ofTree origin v = .ok w →
      f.shape.ofTree origin v' = .ok w)
    (h : (record title fields).ofTree origin (.object ms) = .ok w) :
    (record title fields).ofTree origin (.object ms') = .ok w := by
  have hknown {n : String} {f : Field} (hf : findField n fields = some f) : n ∈ known := by
    obtain ⟨hmem, hname⟩ := findField_mem hf
    exact hname ▸ hfields f hmem
  dsimp only [record] at h
  split at h
  · cases h
  next done hdone =>
  have hreads {n : String} {f : Field} (hf : findField n fields = some f) :
      Option.Rel (fun v w => f.shape.ofTree origin v = .ok w) (lookup n ms) (lookup n done) :=
    (visit_reads hdone hf).2 rfl
  -- A name that is not known may be there twice, and `Fits` wants no name twice: the unknown ones are left out first.
  have hfits : Fits origin fields (ms'.filter (isKnown fields)) done := by
    have hnodup := nodup_filter fun n f hf => halike.once' n (hknown hf)
    refine ⟨hnodup, fun m hm f hf => ?_⟩
    have hthere : lookup m.1 ms' = some m.2 := by
      rw [← lookup_filter hf]
      exact lookup_of_mem hnodup hm
    have hrelated := halike.related m.1 (hknown hf)
    have hdone := hreads hf
    rw [hthere] at hrelated
    generalize lookup m.1 ms = v at hrelated hdone
    generalize lookup m.1 done = w at hdone ⊢
    cases hrelated with
    | some hR =>
      cases hdone with
      | some hv => exact ⟨_, hread _ _ hf _ _ _ hR hv, rfl⟩
  rw [← record_filter, record_ofTree hfits, h]
  intro f hf hnot
  obtain ⟨g, hg⟩ := Option.isSome_iff_exists.1 (findField_isSome hf)
  have hrelated := halike.related f.name (hknown hg)
  have hdone := hreads hg
  rw [← lookup_filter hg ms', lookup_eq_none hnot] at hrelated
  generalize lookup f.name ms = v at hrelated hdone
  cases hrelated with
  | none =>
    generalize lookup f.name done = w at hdone ⊢
    cases hdone with
    | none => rfl

/-- What has been read had every known name no more than once. -/
theorem visit_once {seen done : List (String × Json)} (h : visit origin fields seen ms = .ok done) {n : String}
    {f : Field} (hf : findField n fields = some f) :
    (names ms).count n ≤ 1 ∧ ((lookup n seen).isSome → (names ms).count n = 0) := by
  induction ms generalizing seen with
  | nil => exact ⟨Nat.zero_le 1, fun _ => rfl⟩
  | cons m ms ih =>
    rw [visit] at h
    rw [names, List.map_cons, ← names, List.count_cons]
    by_cases hm : m.1 = n
    · subst hm
      rw [hf] at h
      dsimp only at h
      split at h
      · cases h
      next hnew =>
      split at h
      · cases h
      next w hread =>
      have hthere : (lookup m.1 ((m.1, w) :: seen)).isSome := by rw [lookup, if_pos (beq_self_eq_true _)]; rfl
      rw [(ih h).2 hthere, if_pos (beq_self_eq_true _)]
      exact ⟨Nat.le_refl _, fun hseen => absurd hseen hnew⟩
    · rw [if_neg (by simpa using hm), Nat.add_zero]
      cases hfind : findField m.1 fields with
      | none =>
        rw [hfind] at h
        exact ih h
      | some g =>
        rw [hfind] at h
        dsimp only at h
        split at h
        · cases h
        split at h
        · cases h
        next w hread =>
        have hsame : lookup n ((m.1, w) :: seen) = lookup n seen := by rw [lookup, if_neg (by simpa using hm)]
        rw [← hsame]
        exact ih h

theorem record_of_wider {title : String} {w : Json} (h : Wider known R ms ms') (hfields : ∀ f ∈ fields, f.name ∈ known)
    (hread : ∀ n f, findField n fields = some f → ∀ v v' w, R n v v' → f.shape.ofTree origin v = .ok w →
      f.shape.ofTree origin v' = .ok w)
    (hms : (record title fields).ofTree origin (.object ms) = .ok w) :
    (record title fields).ofTree origin (.object ms') = .ok w := by
  have hvisit : ∃ done, visit origin fields [] ms = .ok done := by
    dsimp only [record] at hms
    split at hms
    · cases hms
    next done hdone => exact ⟨done, hdone⟩
  obtain ⟨done, hdone⟩ := hvisit
  have halike : Alike (fields.map Field.name) R ms ms' := by
    refine h.alike (fun n hn => ?_) (fun n hn => ?_)
    all_goals obtain ⟨f, hf, rfl⟩ := List.mem_map.1 hn
    · exact hfields f hf
    · obtain ⟨g, hg⟩ := Option.isSome_iff_exists.1 (findField_isSome hf)
      exact (visit_once hdone hg).1
  exact record_of_alike halike (fun f hf => List.mem_map_of_mem hf) hread hms

variable {v v' w : Json}

theorem record_of_widened {title : String} (h : Widened known R v v') (hfields : ∀ f ∈ fields, f.name ∈ known)
    (hread : ∀ n f, findField n fields = some f → ∀ v v' w, R n v v' → f.shape.ofTree origin v = .ok w →
      f.shape.ofTree origin v' = .ok w)
    (hv : (record title fields).ofTree origin v = .ok w) : (record title fields).ofTree origin v' = .ok w := by
  rcases h.cases_object with rfl | ⟨ms, ms', rfl, rfl, hwider⟩
  · exact hv
  · exact record_of_wider hwider hfields hread hv

/-- A record is read from the sorted members of every wider object. -/
theorem record_of_widened_keyed {title : String} (h : Widened known R v v') (hdistinct : v.Distinct)
    (hfields : ∀ f ∈ fields, f.name ∈ known)
    (hread : ∀ n f, findField n fields = some f → ∀ v v' w, v.Distinct → R n v v' →
      f.shape.ofTree origin v.keyed = .ok w → f.shape.ofTree origin v'.keyed = .ok w)
    (hv : (record title fields).ofTree origin v.keyed = .ok w) :
    (record title fields).ofTree origin v'.keyed = .ok w := by
  rcases h.cases_object with rfl | ⟨ms, ms', rfl, rfl, hwider⟩
  · exact hv
  · rw [Json.keyed] at hv ⊢
    have hsorted := hwider.keyed (S := fun n x x' => ∃ v v', v.Distinct ∧ R n v v' ∧ x = v.keyed ∧ x' = v'.keyed)
      hdistinct fun n v v' hv hR => ⟨v, v', hv, hR, rfl, rfl⟩
    refine record_of_alike hsorted hfields (fun n f hf x x' w hx hread' => ?_) hv
    obtain ⟨v, v', hv, hR, rfl, rfl⟩ := hx
    exact hread n f hf v v' w hv hR hread'

theorem mapItems_of_forall₂ {f : Json → Except Mismatch Json} {vs vs' ws : List Json}
    (h : List.Forall₂ (fun v v' => ∀ w, f v = .ok w → f v' = .ok w) vs vs') (hvs : mapItems f vs = .ok ws) :
    mapItems f vs' = .ok ws := by
  induction h generalizing ws with
  | nil => exact hvs
  | @cons v v' vs vs' hv _ ih =>
    rw [mapItems] at hvs ⊢
    cases hw : f v with
    | error e =>
      rw [hw] at hvs
      cases hvs
    | ok w =>
      rw [hw] at hvs
      rw [hv w hw]
      cases hrest : mapItems f vs with
      | error e =>
        rw [hrest] at hvs
        cases hvs
      | ok ws =>
        rw [hrest] at hvs
        rw [ih hrest]
        exact hvs

/-- A list is read from every list of wider items. -/
theorem list_of_each {s : Shape} {Q : Json → Json → Prop} (h : Each Q v v') (hdistinct : v.Distinct)
    (hread : ∀ v v' w, v.Distinct → Q v v' → s.ofTree origin v.keyed = .ok w → s.ofTree origin v'.keyed = .ok w)
    (hv : (list s).ofTree origin v.keyed = .ok w) : (list s).ofTree origin v'.keyed = .ok w := by
  obtain @⟨vs, vs', hitems⟩ := h
  cases hdistinct with
  | list hvs =>
    have hkeyed : List.Forall₂ (fun x x' => ∀ w, s.ofTree origin x = .ok w → s.ofTree origin x' = .ok w)
        (vs.map keyed) (vs'.map keyed) :=
      List.forall₂_map_left_iff.2 (List.forall₂_map_right_iff.2
        (((List.forall₂_and_left vs vs').2 ⟨hvs, hitems⟩).imp fun v v' hQ w => hread v v' w hQ.1 hQ.2))
    rw [Json.keyed, keyedItems_eq] at hv ⊢
    dsimp only [list] at hv ⊢
    cases hws : mapItems (s.ofTree origin) (vs.map keyed) with
    | error e =>
      rw [hws] at hv
      cases hv
    | ok ws =>
      rw [hws] at hv
      rw [mapItems_of_forall₂ hkeyed hws]
      exact hv

end Shape

end FontCatalog.Json
