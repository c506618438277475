import FontCatalog.Proofs.Name.Folding
import FontCatalog.Proofs.Text.Settling

/-! The keys of keys. An exact key and a family key are their own keys. A loose key is its own key just where
the name has no dotted capital I: the dot of that letter is in the loose key of the name, but it is neither
a letter nor a number, so the loose key of the loose key has it no more. -/
namespace FontCatalog.Name
set_option autoImplicit false
open FontCatalog.Text

theorem exactKey_exactKey (name : String) : exactKey (exactKey name) = exactKey name := lowercase_lowercase name

theorem normalizeBlanks_normalizeBlanks (name : String) :
    normalizeBlanks (normalizeBlanks name) = normalizeBlanks name := by
  rw [normalizeBlanks, normalizeBlanks, String.toList_ofList, collapse_collapse]

theorem familyKey_familyKey (name : String) : familyKey (familyKey name) = familyKey name := by
  have hblanks : normalizeBlanks (familyKey name) = familyKey name := by
    rw [familyKey_eq, normalizeBlanks_normalizeBlanks]
  calc familyKey (familyKey name)
      = lowercase (normalizeBlanks (familyKey name)) := rfl
    _ = lowercase (familyKey name) := by rw [hblanks]
    _ = familyKey name := lowercase_lowercase (normalizeBlanks name)

/-! ## The loose key -/

theorem toList_looseKey (name : String) :
    (looseKey name).toList = (name.toList.filter isAlphanumeric).flatMap lowerChar :=
  String.toList_ofList

theorem settled_of_mem_looseKey {name : String} {c : Char} (h : c ∈ (looseKey name).toList) : Settled c := by
  rw [toList_looseKey] at h
  obtain ⟨_, -, hc⟩ := List.mem_flatMap.1 h
  exact settled_of_mem_lowerChar hc

/-- The loose key of a loose key has its letters and numbers. -/
theorem toList_looseKey_looseKey (name : String) :
    (looseKey (looseKey name)).toList = (looseKey name).toList.filter isAlphanumeric := by
  rw [toList_looseKey (looseKey name)]
  apply flatMap_lowerChar_of_settled
  intro c hc
  exact settled_of_mem_looseKey (List.mem_filter.1 hc).1

theorem looseKey_looseKey_looseKey (name : String) :
    looseKey (looseKey (looseKey name)) = looseKey (looseKey name) := by
  rw [← String.toList_inj, toList_looseKey_looseKey (looseKey name), toList_looseKey_looseKey name,
    List.filter_filter]
  simp only [Bool.and_self]

theorem isAlphanumeric_lowerChar_iff {c : Char} (hc : isAlphanumeric c = true) :
    (∀ d ∈ lowerChar c, isAlphanumeric d = true) ↔ c ≠ '\u0130' := by
  have hdot : isAlphanumeric '\u0307' = false := by decide
  rcases lowerChar_cases c with ⟨rfl, hlower⟩ | ⟨hne, d, hlower, hd⟩
  · simp [hlower, hdot]
  · rw [hlower, List.forall_mem_singleton, hd.alphanumeric]
    exact iff_of_true hc hne

/-- The dotted capital I alone has a lower case with more than letters and numbers. -/
theorem looseKey_looseKey_iff (name : String) :
    looseKey (looseKey name) = looseKey name ↔ '\u0130' ∉ name.toList := by
  have hdotted : isAlphanumeric '\u0130' = true := by decide
  rw [← String.toList_inj, toList_looseKey_looseKey, List.filter_eq_self, toList_looseKey]
  constructor
  · intro h hmem
    have hletter := List.mem_filter.2 ⟨hmem, hdotted⟩
    exact (isAlphanumeric_lowerChar_iff hdotted).1 (fun d hd => h d (List.mem_flatMap.2 ⟨_, hletter, hd⟩)) rfl
  · intro h d hd
    obtain ⟨c, hc, hd⟩ := List.mem_flatMap.1 hd
    obtain ⟨hmem, hletter⟩ := List.mem_filter.1 hc
    refine (isAlphanumeric_lowerChar_iff hletter).2 ?_ d hd
    rintro rfl
    exact h hmem

end FontCatalog.Name
