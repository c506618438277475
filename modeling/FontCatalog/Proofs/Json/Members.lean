import FontCatalog.Json.Basic
import Mathlib.Data.List.Nodup
import Mathlib.Data.List.Perm.Basic

/-! The members of an object by name: of members with different names the order does not matter, and
sorting keeps them all. -/
namespace FontCatalog.Json
set_option autoImplicit false

/-! ## Looking up -/

/-- The names of members. -/
def names (ms : List (String × Json)) : List String := ms.map Prod.fst

theorem mem_names_cons {n : String} {m : String × Json} {ms : List (String × Json)} :
    n ∈ names (m :: ms) ↔ n = m.1 ∨ n ∈ names ms := List.mem_cons

theorem lookup_mem {n : String} {v : Json} {ms : List (String × Json)} (h : lookup n ms = some v) :
    (n, v) ∈ ms := by
  induction ms with
  | nil => cases h
  | cons m ms ih =>
    rw [lookup] at h
    split at h
    · next hn =>
      cases h
      rw [← eq_of_beq hn]
      exact List.mem_cons_self
    · exact List.mem_cons_of_mem _ (ih h)

/-- A name that is there no more than once is found wherever it stands. -/
theorem lookup_of_mem_once {n : String} {v : Json} {ms : List (String × Json)} (hms : (names ms).count n ≤ 1)
    (h : (n, v) ∈ ms) : lookup n ms = some v := by
  induction ms with
  | nil => cases h
  | cons m ms ih =>
    rw [names, List.map_cons, ← names, List.count_cons] at hms
    rw [lookup]
    by_cases hm : m.1 = n
    · have hnot : n ∉ names ms := by
        rw [if_pos (by simpa using hm)] at hms
        exact List.count_eq_zero.1 (by omega)
      rw [if_pos (by simpa using hm)]
      rcases List.mem_cons.1 h with rfl | h
      · rfl
      · exact absurd (List.mem_map_of_mem h) hnot
    · rw [if_neg (by simpa using hm)]
      rcases List.mem_cons.1 h with rfl | h
      · exact absurd rfl hm
      · exact ih (by omega) h

theorem lookup_of_mem {n : String} {v : Json} {ms : List (String × Json)} (hms : (names ms).Nodup)
    (h : (n, v) ∈ ms) : lookup n ms = some v :=
  lookup_of_mem_once (List.nodup_iff_count_le_one.1 hms n) h

theorem lookup_perm_once {n : String} {ms ns : List (String × Json)} (hms : (names ms).count n ≤ 1)
    (h : ms.Perm ns) : lookup n ms = lookup n ns := by
  have hns : (names ns).count n ≤ 1 := (h.map Prod.fst).count_eq n ▸ hms
  cases hv : lookup n ms with
  | some v => rw [lookup_of_mem_once hns (h.subset (lookup_mem hv))]
  | none =>
    cases hw : lookup n ns with
    | none => rfl
    | some w => rw [lookup_of_mem_once hms (h.symm.subset (lookup_mem hw))] at hv; cases hv

theorem lookup_perm {ms ns : List (String × Json)} (hms : (names ms).Nodup) (h : ms.Perm ns)
    (n : String) : lookup n ms = lookup n ns :=
  lookup_perm_once (List.nodup_iff_count_le_one.1 hms n) h

theorem lookup_append (n : String) (ms ns : List (String × Json)) :
    lookup n (ms ++ ns) = (lookup n ms).or (lookup n ns) := by
  induction ms with
  | nil => rfl
  | cons m ms ih =>
    rw [List.cons_append, lookup, lookup, ih]
    split <;> rfl

theorem lookup_eq_none {n : String} {ms : List (String × Json)} (h : n ∉ names ms) : lookup n ms = none := by
  rw [← Option.not_isSome_iff_eq_none]
  intro hsome
  obtain ⟨v, hv⟩ := Option.isSome_iff_exists.1 hsome
  exact h (List.mem_map_of_mem (lookup_mem hv))

theorem not_mem_names {n : String} {ms : List (String × Json)} (h : lookup n ms = none) : n ∉ names ms := by
  induction ms with
  | nil => exact List.not_mem_nil
  | cons m ms ih =>
    rw [lookup] at h
    split at h
    · cases h
    next hm =>
    intro hmem
    rcases mem_names_cons.1 hmem with rfl | hmem
    · exact hm (beq_self_eq_true _)
    · exact ih h hmem

/-! ## Sorting -/

theorem insertMember_perm {n : String} {v : Json} {ms : List (String × Json)} (h : n ∉ names ms) :
    (insertMember n v ms).Perm ((n, v) :: ms) := by
  induction ms with
  | nil => exact .refl _
  | cons m ms ih =>
    obtain ⟨hne, hms⟩ := not_or.1 fun hor => h (mem_names_cons.2 hor)
    rw [insertMember, if_neg (by simpa using hne)]
    split
    · exact .refl _
    · exact ((ih hms).cons m).trans (.swap _ _ _)

theorem foldl_insertMember_perm (ms acc : List (String × Json)) (h : (names (ms ++ acc)).Nodup) :
    (ms.foldl (fun acc m => insertMember m.1 m.2 acc) acc).Perm (ms ++ acc) := by
  induction ms generalizing acc with
  | nil => exact .refl _
  | cons m ms ih =>
    have hcons := List.nodup_cons.1 h
    have hacc : m.1 ∉ names acc := fun hm => hcons.1 <| by
      rw [List.append_eq, List.map_append]
      exact List.mem_append_right _ hm
    have hperm := insertMember_perm (v := m.2) hacc
    have hmove : (ms ++ insertMember m.1 m.2 acc).Perm (m :: ms ++ acc) :=
      (hperm.append_left ms).trans List.perm_middle
    exact (ih _ ((hmove.map Prod.fst).nodup_iff.2 h)).trans hmove

theorem sortMembers_perm {ms : List (String × Json)} (h : (names ms).Nodup) :
    (sortMembers ms).Perm ms := by
  have hperm := foldl_insertMember_perm ms [] (by rwa [List.append_nil])
  rwa [List.append_nil] at hperm

theorem lookup_insertMember (k n : String) (v : Json) (ms : List (String × Json)) :
    lookup k (insertMember n v ms) = if n == k then some v else lookup k ms := by
  induction ms with
  | nil => rfl
  | cons m ms ih =>
    rw [insertMember]
    split
    · next hn =>
      rw [beq_iff_eq] at hn
      subst hn
      rw [lookup, lookup]
      split <;> rfl
    split
    · rw [lookup]
    · next hn _ =>
      rw [lookup, ih, lookup]
      by_cases hm : m.1 == k
      · have hnk : ¬ (n == k) = true := by
          rw [beq_iff_eq] at hm ⊢
          rw [← hm]
          simpa using hn
        rw [if_pos hm, if_neg hnk, if_pos hm]
      · rw [if_neg hm, if_neg hm]

/-- Of members of one name the last is found after sorting. -/
theorem lookup_sortMembers (k : String) (ms : List (String × Json)) :
    lookup k (sortMembers ms) = lookup k ms.reverse := by
  have hfold (acc : List (String × Json)) :
      lookup k (ms.foldl (fun acc m => insertMember m.1 m.2 acc) acc) = lookup k (ms.reverse ++ acc) := by
    induction ms generalizing acc with
    | nil => rfl
    | cons m ms ih =>
      rw [List.foldl_cons, ih, List.reverse_cons, List.append_assoc, lookup_append, lookup_append,
        lookup_insertMember]
      rfl
  rw [sortMembers, hfold, List.append_nil]

theorem insertMember_sorted {n : String} {v : Json} {ms : List (String × Json)}
    (h : (names ms).Pairwise (· < ·)) :
    (names (insertMember n v ms)).Pairwise (· < ·) ∧ ∀ k ∈ names (insertMember n v ms), k = n ∨ k ∈ names ms := by
  induction ms with
  | nil => simp [insertMember, names]
  | cons m ms ih =>
    obtain ⟨hm, hms⟩ := List.pairwise_cons.1 h
    rw [insertMember]
    split
    · next hn =>
      rw [beq_iff_eq] at hn
      subst hn
      exact ⟨h, fun k hk => .inr hk⟩
    split
    · next hlt =>
      refine ⟨List.pairwise_cons.2 ⟨?_, h⟩, fun k hk => mem_names_cons.1 hk⟩
      intro k hk
      rcases mem_names_cons.1 hk with rfl | hk
      · exact hlt
      · exact String.lt_trans hlt (hm k hk)
    · next hne hlt =>
      obtain ⟨hsorted, hnames⟩ := ih hms
      have hgt : m.1 < n := by
        refine String.not_le.1 fun hle => hne ?_
        rw [beq_iff_eq]
        exact String.le_antisymm hle (String.not_lt.1 hlt)
      refine ⟨List.pairwise_cons.2 ⟨?_, hsorted⟩, ?_⟩
      · intro k hk
        rcases hnames k hk with rfl | hk
        · exact hgt
        · exact hm k hk
      · intro k hk
        rcases mem_names_cons.1 hk with rfl | hk
        · exact .inr List.mem_cons_self
        · exact (hnames k hk).imp_right fun hk => List.mem_cons_of_mem _ hk

theorem sortMembers_nodup (ms : List (String × Json)) : (names (sortMembers ms)).Nodup := by
  have hfold (acc : List (String × Json)) (h : (names acc).Pairwise (· < ·)) :
      (names (ms.foldl (fun acc m => insertMember m.1 m.2 acc) acc)).Pairwise (· < ·) := by
    induction ms generalizing acc with
    | nil => exact h
    | cons m ms ih => exact ih _ (insertMember_sorted h).1
  exact (hfold [] List.Pairwise.nil).imp String.ne_of_lt

/-! ## Sorting at every depth -/

@[simp] theorem keyed_nat (n : Nat) : (Json.nat n).keyed = .nat n := by
  rw [Json.nat, keyed] <;> simp

@[simp] theorem keyed_text (s : String) : (Json.text s).keyed = .text s := by
  rw [keyed] <;> simp

@[simp] theorem keyed_bool (b : Bool) : (Json.bool b).keyed = .bool b := by
  rw [keyed] <;> simp

theorem keyedItems_eq (items : List Json) : keyedItems items = items.map keyed := by
  induction items with
  | nil => rfl
  | cons v items ih => rw [keyedItems, ih, List.map_cons]

theorem keyedMembers_eq (ms : List (String × Json)) :
    keyedMembers ms = ms.map fun m => (m.1, m.2.keyed) := by
  induction ms with
  | nil => rfl
  | cons m ms ih => rw [keyedMembers, ih, List.map_cons]

theorem names_keyedMembers (ms : List (String × Json)) : names (keyedMembers ms) = names ms := by
  rw [keyedMembers_eq, names, List.map_map]
  rfl

theorem lookup_keyedMembers (n : String) (ms : List (String × Json)) :
    lookup n (keyedMembers ms) = (lookup n ms).map keyed := by
  induction ms with
  | nil => rfl
  | cons m ms ih =>
    rw [keyedMembers, lookup, lookup, ih]
    split <;> rfl

/-- The members of a sorted object are those of the object. -/
theorem keyed_object {ms : List (String × Json)} (h : (names ms).Nodup) :
    ∃ sorted, (Json.object ms).keyed = .object sorted ∧ (names sorted).Nodup ∧
      ∀ n, lookup n sorted = (lookup n ms).map keyed := by
  have hkeyed : (names (keyedMembers ms)).Nodup := by rwa [names_keyedMembers]
  have hperm := sortMembers_perm hkeyed
  have hsorted := (hperm.map Prod.fst).nodup_iff.2 hkeyed
  refine ⟨sortMembers (keyedMembers ms), by rw [keyed], hsorted, fun n => ?_⟩
  rw [lookup_perm hsorted hperm, lookup_keyedMembers]

/-- A name that is there no more than once is found after sorting, whatever happens to the other names. -/
theorem lookup_sorted_once {n : String} {ms : List (String × Json)} (h : (names ms).count n ≤ 1) :
    lookup n (sortMembers (keyedMembers ms)) = (lookup n ms).map keyed := by
  have hkeyed : (names (keyedMembers ms)).count n ≤ 1 := by rwa [names_keyedMembers]
  rw [lookup_sortMembers, ← lookup_perm_once hkeyed (List.reverse_perm _).symm, lookup_keyedMembers]

end FontCatalog.Json
