import FontCatalog.Json.Shape
import FontCatalog.Proofs.Json.Members

/-! Shapes of trees. A record depends on its members by name only. -/
namespace FontCatalog.Json.Shape
set_option autoImplicit false

/-! ## Scalars -/

/-- A word is read from its number. -/
theorem word_ofTree {bits n : Nat} {name : String} (h : n < Nat.pow 2 bits) (origin : Origin) :
    (word bits name).ofTree origin (.nat n) = .ok (.nat n) := by
  show toWord bits name (.integer n) = .ok (.number (.integer n))
  rw [toWord, if_pos ⟨Int.natCast_nonneg n, by rwa [Int.toNat_natCast]⟩]

/-! ## Lists -/

theorem mapItems_map {α : Type} {f : Json → Except Mismatch Json} {a b : α → Json} {xs : List α}
    (h : ∀ x ∈ xs, f (a x) = .ok (b x)) : mapItems f (xs.map a) = .ok (xs.map b) := by
  induction xs with
  | nil => rfl
  | cons x xs ih =>
    rw [List.map_cons, mapItems, h x List.mem_cons_self, ih fun y hy => h y (List.mem_cons_of_mem _ hy)]
    rfl

/-! ## Records -/

section
variable {origin : Origin} {fields : List Field}

theorem findField_mem {n : String} {f : Field} (h : findField n fields = some f) :
    f ∈ fields ∧ f.name = n := by
  have hname := List.find?_some h
  exact ⟨List.mem_of_find?_eq_some h, eq_of_beq hname⟩

theorem findField_isSome {f : Field} (h : f ∈ fields) : (findField f.name fields).isSome = true :=
  List.find?_isSome.2 ⟨f, h, beq_self_eq_true _⟩

/-- What a record is read as depends on what is found under the names of its fields. -/
theorem collect_congr {seen out : List (String × Json)}
    (h : ∀ f ∈ fields, lookup f.name seen = lookup f.name out) :
    collect seen fields = collect out fields := by
  induction fields with
  | nil => rfl
  | cons f fields ih =>
    rw [collect, collect, h f List.mem_cons_self, ih fun g hg => h g (List.mem_cons_of_mem _ hg)]

/-- Members with different names, of which every one that the record knows is read as the member of the
same name in `out`. -/
structure Fits (origin : Origin) (fields : List Field) (ms out : List (String × Json)) : Prop where
  nodup : (names ms).Nodup
  read : ∀ m ∈ ms, ∀ f, findField m.1 fields = some f →
    ∃ w, f.shape.ofTree origin m.2 = .ok w ∧ lookup m.1 out = some w

theorem Fits.tail {m : String × Json} {ms out : List (String × Json)}
    (h : Fits origin fields (m :: ms) out) : Fits origin fields ms out where
  nodup := (List.nodup_cons.1 h.nodup).2
  read n hn := h.read n (List.mem_cons_of_mem _ hn)

theorem visit_fits {ms out : List (String × Json)} (seen : List (String × Json))
    (h : Fits origin fields ms out)
    (hseen : ∀ n ∈ names ms, lookup n seen = none) :
    ∃ done, visit origin fields seen ms = .ok done ∧ ∀ f ∈ fields,
      lookup f.name done =
        if f.name ∈ names ms then lookup f.name out else lookup f.name seen := by
  induction ms generalizing seen with
  | nil => exact ⟨seen, rfl, fun f _ => rfl⟩
  | cons m ms ih =>
    have hcons : m.1 ∉ names ms := (List.nodup_cons.1 h.nodup).1
    rw [visit]
    cases hfind : findField m.1 fields with
    | none =>
      obtain ⟨done, hdone, hlookup⟩ := ih seen h.tail fun n hn => hseen n (List.mem_cons_of_mem _ hn)
      refine ⟨done, hdone, fun f hf => ?_⟩
      have hne : f.name ≠ m.1 := by
        intro he
        have hsome := findField_isSome hf
        rw [he, hfind] at hsome
        cases hsome
      rw [hlookup f hf]
      simp only [mem_names_cons, hne, false_or]
    | some g =>
      obtain ⟨w, hread, hout⟩ := h.read m List.mem_cons_self g hfind
      have hseen' : ∀ n ∈ names ms, lookup n ((m.1, w) :: seen) = none := by
        intro n hn
        have hne : m.1 ≠ n := fun he => hcons (he ▸ hn)
        rw [lookup, if_neg (by simpa using hne)]
        exact hseen n (List.mem_cons_of_mem _ hn)
      obtain ⟨done, hdone, hlookup⟩ := ih _ h.tail hseen'
      refine ⟨done, ?_, fun f hf => ?_⟩
      · dsimp only
        rw [hseen m.1 List.mem_cons_self, hread]
        exact hdone
      · rw [hlookup f hf]
        by_cases he : f.name = m.1
        · rw [he, if_neg hcons, if_pos (mem_names_cons.2 (.inl rfl)), lookup,
            if_pos (beq_self_eq_true _), hout]
        · have hne : (m.1 == f.name) = false := beq_eq_false_iff_ne.2 fun h => he h.symm
          simp only [mem_names_cons, he, false_or, lookup, hne, Bool.false_eq_true, if_false]

/-- An object is read as the record with the members `out`, if it has a member for each of them. -/
theorem record_ofTree {title : String} {ms out : List (String × Json)} (h : Fits origin fields ms out)
    (hout : ∀ f ∈ fields, f.name ∉ names ms → lookup f.name out = none) :
    (record title fields).ofTree origin (.object ms) = (collect out fields).map .object := by
  obtain ⟨done, hdone, hlookup⟩ := visit_fits [] h fun _ _ => rfl
  have hcollect : collect done fields = collect out fields := by
    refine collect_congr fun f hf => ?_
    rw [hlookup f hf]
    split
    · rfl
    · next hn => rw [hout f hf hn]; rfl
  dsimp only [record]
  rw [hdone, ← hcollect]

/-- A record of which no member has been left out. -/
theorem record_ofTree_full {title : String} {ms out : List (String × Json)} (hms : (names ms).Nodup)
    (h : ∀ f ∈ fields, ∃ v w, lookup f.name ms = some v ∧ f.shape.ofTree origin v = .ok w ∧
      lookup f.name out = some w) :
    (record title fields).ofTree origin (.object ms) = (collect out fields).map .object := by
  refine record_ofTree ⟨hms, fun m hm f hfind => ?_⟩ fun f hf hnot => ?_
  · obtain ⟨hf, hname⟩ := findField_mem hfind
    obtain ⟨v, w, hv, hread, hw⟩ := h f hf
    have hm2 : lookup f.name ms = some m.2 := lookup_of_mem hms (hname ▸ hm)
    rw [hv, Option.some.injEq] at hm2
    exact ⟨w, hm2 ▸ hread, hname ▸ hw⟩
  · obtain ⟨v, w, hv, -⟩ := h f hf
    exact absurd (List.mem_map_of_mem (lookup_mem hv)) hnot

/-- A record with all its members in normal form. -/
theorem record_ofTree_self {title : String} {ms : List (String × Json)} (hms : (names ms).Nodup)
    (h : ∀ f ∈ fields, ∃ v, lookup f.name ms = some v ∧ f.shape.ofTree origin v = .ok v) :
    (record title fields).ofTree origin (.object ms) = (collect ms fields).map .object := by
  refine record_ofTree_full hms fun f hf => ?_
  obtain ⟨v, hv, hread⟩ := h f hf
  exact ⟨v, v, hv, hread, hv⟩

/-- A record with all its members, read from its sorted object. -/
theorem record_ofTree_keyed {title : String} {ms : List (String × Json)} (hms : (names ms).Nodup)
    (h : ∀ f ∈ fields, ∃ v, lookup f.name ms = some v ∧ f.shape.ofTree origin v.keyed = .ok v) :
    (record title fields).ofTree origin (Json.object ms).keyed = (collect ms fields).map .object := by
  obtain ⟨sorted, hkeyed, hsorted, hlookup⟩ := keyed_object hms
  rw [hkeyed]
  refine record_ofTree_full hsorted fun f hf => ?_
  obtain ⟨v, hv, hread⟩ := h f hf
  exact ⟨v.keyed, v, by rw [hlookup, hv, Option.map_some], hread, hv⟩

end

end FontCatalog.Json.Shape
