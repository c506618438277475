import FontCatalog.Proofs.NameMap.Entries
import Mathlib.Data.Finset.Card

/-! The spellings that a map of names lists. Each is the first spelling of its key, hence the key of a listed spelling
tells which one it is: no key is listed twice, and none is missing. -/
namespace FontCatalog
set_option autoImplicit false

namespace NameMap

theorem displays_perm (m : NameMap) : m.displays.Perm (m.toList.map (·.2.display)) := List.mergeSort_perm _ _

theorem displays_sorted (m : NameMap) : m.displays.Pairwise (· ≤ ·) := by
  have hsorted : m.displays.Pairwise fun a b => decide (a ≤ b) = true := by
    refine List.pairwise_mergeSort (fun a b c hab hbc => ?_) (fun a b => ?_) _
    · exact decide_eq_true (String.le_trans (of_decide_eq_true hab) (of_decide_eq_true hbc))
    · simpa using String.le_total a b
  exact hsorted.imp of_decide_eq_true

section
variable {names : Face → List String} {key : String → String} {faces : List Face}

theorem map_key_displays (names : Face → List String) (key : String → String) (faces : List Face) :
    ((ofFaces names key faces).displays.map key).Perm ((ofFaces names key faces).toList.map (·.1)) := by
  have hkeys : ((ofFaces names key faces).toList.map (·.2.display)).map key =
      (ofFaces names key faces).toList.map (·.1) := by
    rw [List.map_map]
    refine List.map_congr_left fun entry hentry => ?_
    exact key_display (Std.TreeMap.mem_toList_iff_getElem?_eq_some.1 hentry)
  rw [← hkeys]
  exact (displays_perm _).map key

theorem nodup_map_key_displays (names : Face → List String) (key : String → String) (faces : List Face) :
    ((ofFaces names key faces).displays.map key).Nodup := by
  rw [(map_key_displays names key faces).nodup_iff]
  refine List.pairwise_map.2 (Std.TreeMap.distinct_keys_toList.imp fun hne heq => hne ?_)
  rw [heq]
  exact Std.ReflCmp.compare_self

theorem displays_pairwise_lt (names : Face → List String) (key : String → String) (faces : List Face) :
    (ofFaces names key faces).displays.Pairwise (· < ·) := by
  -- Two equal spellings would have one key.
  have hdistinct : (ofFaces names key faces).displays.Pairwise (· ≠ ·) :=
    (nodup_map_key_displays names key faces).of_map
  refine ((displays_sorted _).and hdistinct).imp fun ⟨hle, hne⟩ => ?_
  exact String.not_le.1 fun hge => hne (String.le_antisymm hle hge)

/-- The listed spellings are those that no spelling of the same key stands before. -/
theorem mem_displays {d : String} :
    d ∈ (ofFaces names key faces).displays ↔
      key d ≠ "" ∧ (faces.flatMap names).find? (key · == key d) = some d := by
  rw [(displays_perm _).mem_iff, List.mem_map]
  constructor
  · rintro ⟨⟨k, e⟩, hentry, rfl⟩
    have hentry := Std.TreeMap.mem_toList_iff_getElem?_eq_some.1 hentry
    obtain ⟨hk, hfound, -⟩ := entry_ofFaces hentry
    dsimp only
    rw [key_display hentry]
    exact ⟨hk, hfound⟩
  · rintro ⟨hk, hfound⟩
    have hentry : (ofFaces names key faces)[key d]? = _ := getElem?_ofFaces faces hk
    rw [hfound] at hentry
    exact ⟨_, Std.TreeMap.mem_toList_iff_getElem?_eq_some.2 hentry, rfl⟩

theorem exists_mem_displays {f : Face} (hf : f ∈ faces) {n : String} (hn : n ∈ names f) (hkey : key n ≠ "") :
    ∃ d ∈ (ofFaces names key faces).displays, key d = key n := by
  obtain ⟨d, hd, hsame⟩ := exists_spelling key hf hn
  exact ⟨d, mem_displays.2 ⟨hsame ▸ hkey, hsame ▸ hd⟩, hsame⟩

/-- As many spellings are listed as there are keys that are not empty. -/
theorem length_displays (names : Face → List String) (key : String → String) (faces : List Face) :
    (ofFaces names key faces).displays.length = (((faces.flatMap names).map key).toFinset.erase "").card := by
  rw [← List.length_map key, ← List.toFinset_card_of_nodup (nodup_map_key_displays names key faces)]
  congr 1
  ext k
  rw [List.mem_toFinset, List.mem_map, Finset.mem_erase, List.mem_toFinset, List.mem_map]
  constructor
  · rintro ⟨d, hd, rfl⟩
    obtain ⟨hkey, hfound⟩ := mem_displays.1 hd
    exact ⟨hkey, d, List.mem_of_find?_eq_some hfound, rfl⟩
  · rintro ⟨hkey, n, hn, rfl⟩
    obtain ⟨f, hf, hn⟩ := List.mem_flatMap.1 hn
    exact exists_mem_displays hf hn hkey

end

end NameMap

end FontCatalog
