import FontCatalog.Proofs.Match.Folding
import FontCatalog.Proofs.Name.KeysOfKeys

/-! Lookups by keys of several strengths, and lookups by the key of a name in place of the name. What is found
by exact key is also found by family key. A name is as good as its key where the key is its own key: that
is so for all exact and family keys, and for the loose keys of names without a dotted capital I. -/
namespace FontCatalog
set_option autoImplicit false
open Name

namespace Lookup

/-- A key that tells more names apart finds some of the faces, in the same order. -/
theorem search_sublist_of_finer {l m : Lookup} (hnames : l.names = m.names) {name : String}
    (hkey : ∀ n, l.key n = l.key name → m.key n = m.key name) (hne : m.key name ≠ "") (faces : List Face) :
    (l.search name faces).faces.Sublist (m.search name faces).faces := by
  rw [search, search, if_neg hne]
  split
  · exact List.nil_sublist _
  · apply List.monotone_filter_right
    intro f hf
    obtain ⟨n, hn, hkn⟩ := of_decide_eq_true hf
    rw [hnames] at hn
    exact decide_eq_true ⟨n, hn, hkey n hkn⟩

theorem search_congr {l : Lookup} {a b : String} (h : l.key a = l.key b) (faces : List Face) :
    l.search a faces = l.search b faces := by
  unfold search
  rw [h]

theorem mem_search {l : Lookup} {name : String} (hne : l.key name ≠ "") {faces : List Face} {f : Face}
    (hf : f ∈ faces) (hn : name ∈ l.names f) : f ∈ (l.search name faces).faces := by
  rw [search, if_neg hne]
  exact List.mem_filter.2 ⟨hf, decide_eq_true ⟨name, hn, rfl⟩⟩

/-- The key of a name that some face bears finds the group of the name just where it is its own key. -/
theorem search_key_iff {l : Lookup} {faces : List Face} {f : Face} (hf : f ∈ faces) {name : String}
    (hn : name ∈ l.names f) : l.search (l.key name) faces = l.search name faces ↔ l.key (l.key name) = l.key name := by
  refine ⟨fun h => ?_, fun h => search_congr h faces⟩
  by_cases hne : l.key name = ""
  · rw [hne]
    cases l <;> rfl
  -- A group is called by a name of the key that was asked for, so equal groups have equal keys.
  have hgroup : (l.search name faces).faces ≠ [] := List.ne_nil_of_mem (mem_search hne hf hn)
  obtain ⟨-, _, -, n, -, hkey, hname⟩ := search_name hgroup
  rw [← h] at hgroup hname
  obtain ⟨-, _, -, n', -, hkey', hname'⟩ := search_name hgroup
  rw [← hkey', ← hname', hname, hkey]

end Lookup

namespace Catalog

theorem run_build (l : Lookup) (faces : List Face) (name : String) :
    l.run (build faces) name = l.search name (arrange faces) :=
  l.run_ofArranged (arrange faces) name

theorem run_singleton (l : Lookup) (f : Face) (name : String) : l.run (build [f]) name = l.search name [f] := by
  rw [build_singleton]
  exact l.run_ofArranged [f] name

/-- A face with one name for its typographic and its Win32 family. -/
def faceOfFamily (name : String) : Face := { Ladder.faceNamed name with win32Family := name }

theorem sublist_of_exactKey {l m : Lookup} (hnames : l.names = m.names) (hl : l.key = exactKey)
    (hm : m.key = familyKey) (faces : List Face) {name : String} (hblank : Text.isBlankText name = false) :
    (l.run (build faces) name).faces.Sublist (m.run (build faces) name).faces := by
  rw [run_build, run_build]
  apply Lookup.search_sublist_of_finer hnames
  · intro n hn
    rw [hl] at hn
    rw [hm]
    exact familyKey_of_exactKey hn
  · rw [hm]
    exact familyKey_ne_empty hblank

/-- The exact key and the family key are keys of themselves, the exact key is the finer one, and it finds a
part of what the family key finds. -/
theorem exact_within_family :
    (∀ name, familyKey name = normalizeBlanks (exactKey name)) ∧
    (∀ name, exactKey (exactKey name) = exactKey name) ∧
    (∀ name, familyKey (familyKey name) = familyKey name) ∧
    (∀ a b, exactKey a = exactKey b → familyKey a = familyKey b) ∧
    ∀ faces name, Text.isBlankText name = false →
      ((build faces).typographicExact name).faces.Sublist ((build faces).lookupTypographic name).faces ∧
      ((build faces).win32Exact name).faces.Sublist ((build faces).lookupWin32 name).faces := by
  refine ⟨familyKey_eq, exactKey_exactKey, familyKey_familyKey, fun _ _ h => familyKey_of_exactKey h, ?_⟩
  intro faces name hblank
  have htypographic := sublist_of_exactKey (l := .typographicExact) (m := .typographic) rfl rfl rfl faces hblank
  have hwin32 := sublist_of_exactKey (l := .win32Exact) (m := .win32) rfl rfl rfl faces hblank
  exact ⟨htypographic, hwin32⟩

/-- A final sigma ends each of the two names. -/
theorem exact_within_family_sigma :
    exactKey "ΟΔΟΣ" = exactKey "οδος" ∧ familyKey "ΟΔΟΣ" = familyKey "οδος" ∧ Text.isBlankText "ΟΔΟΣ" = false ∧
    ((build [faceOfFamily "οδος"]).typographicExact "ΟΔΟΣ").faces = [faceOfFamily "οδος"] ∧
    ((build [faceOfFamily "οδος"]).typographicExact "ΟΔΟΣ").faces.Sublist
      ((build [faceOfFamily "οδος"]).lookupTypographic "ΟΔΟΣ").faces ∧
    ((build [faceOfFamily "οδος"]).win32Exact "ΟΔΟΣ").faces.Sublist
      ((build [faceOfFamily "οδος"]).lookupWin32 "ΟΔΟΣ").faces := by
  obtain ⟨-, -, -, hkeys, hfound⟩ := exact_within_family
  have hexact : exactKey "ΟΔΟΣ" = exactKey "οδος" := by decide +kernel
  have hblank : Text.isBlankText "ΟΔΟΣ" = false := by decide +kernel
  have hgroup : (Lookup.typographicExact.run (build [faceOfFamily "οδος"]) "ΟΔΟΣ").faces = [faceOfFamily "οδος"] := by
    rw [run_singleton]
    decide +kernel
  exact ⟨hexact, hkeys _ _ hexact, hblank, hgroup, hfound _ _ hblank⟩

/-- A family is found by its own loose key just where its name has no dotted capital I. -/
theorem loose_found_by_key_iff (faces : List Face) (name : String) :
    looseKey (looseKey (looseKey name)) = looseKey (looseKey name) ∧
    (looseKey (looseKey name) = looseKey name ↔ '\u0130' ∉ name.toList) ∧
    ∀ f ∈ (build faces).faces,
      (name ∈ f.typographicNames →
        ((build faces).typographicLoose (looseKey name) = (build faces).typographicLoose name ↔
          '\u0130' ∉ name.toList)) ∧
      (name ∈ f.win32Names →
        ((build faces).win32Loose (looseKey name) = (build faces).win32Loose name ↔ '\u0130' ∉ name.toList)) := by
  refine ⟨looseKey_looseKey_looseKey name, looseKey_looseKey_iff name, ?_⟩
  intro f hf
  have hmem : f ∈ arrange faces := Array.mem_toList_iff.2 hf
  have hkeyed {l : Lookup} (hl : l.key = looseKey) (hn : name ∈ l.names f) :
      l.run (build faces) (looseKey name) = l.run (build faces) name ↔ '\u0130' ∉ name.toList := by
    rw [run_build, run_build, ← looseKey_looseKey_iff, ← hl]
    exact Lookup.search_key_iff hmem hn
  exact ⟨hkeyed (l := .typographicLoose) rfl, hkeyed (l := .win32Loose) rfl⟩

/-- All that the loose key of this name has are letters. -/
theorem loose_found_by_key_letters :
    faceOfFamily "Noto-Sans!" ∈ (build [faceOfFamily "Noto-Sans!"]).faces ∧
    "Noto-Sans!" ∈ (faceOfFamily "Noto-Sans!").typographicNames ∧
    "Noto-Sans!" ∈ (faceOfFamily "Noto-Sans!").win32Names ∧
    (build [faceOfFamily "Noto-Sans!"]).typographicLoose (looseKey "Noto-Sans!") =
      (build [faceOfFamily "Noto-Sans!"]).typographicLoose "Noto-Sans!" ∧
    (build [faceOfFamily "Noto-Sans!"]).win32Loose (looseKey "Noto-Sans!") =
      (build [faceOfFamily "Noto-Sans!"]).win32Loose "Noto-Sans!" := by
  have hmem : faceOfFamily "Noto-Sans!" ∈ (build [faceOfFamily "Noto-Sans!"]).faces := by
    rw [build_singleton]
    exact Array.mem_singleton_self _
  have htypographic : "Noto-Sans!" ∈ (faceOfFamily "Noto-Sans!").typographicNames := List.mem_cons_self
  have hwin32 : "Noto-Sans!" ∈ (faceOfFamily "Noto-Sans!").win32Names := List.mem_cons_self
  have hdotless : '\u0130' ∉ "Noto-Sans!".toList := by decide
  obtain ⟨-, -, hfound⟩ := loose_found_by_key_iff [faceOfFamily "Noto-Sans!"] "Noto-Sans!"
  obtain ⟨hby, hby'⟩ := hfound _ hmem
  exact ⟨hmem, htypographic, hwin32, (hby htypographic).2 hdotless, (hby' hwin32).2 hdotless⟩

/-- The dot of the dotted capital I stays in the loose key, and is left out of the next one. -/
theorem loose_missed_dottedCapital :
    looseKey "\u0130" = "i\u0307" ∧ looseKey (looseKey "\u0130") = "i" ∧
    ((build [faceOfFamily "\u0130"]).typographicLoose "\u0130").faces = [faceOfFamily "\u0130"] ∧
    ((build [faceOfFamily "\u0130"]).typographicLoose (looseKey "\u0130")).faces = [] ∧
    ((build [faceOfFamily "\u0130"]).win32Loose (looseKey "\u0130")).faces = [] := by
  have htypographic := run_singleton .typographicLoose (faceOfFamily "\u0130")
  have hwin32 := run_singleton .win32Loose (faceOfFamily "\u0130")
  simp only [Lookup.run] at htypographic hwin32
  rw [htypographic, htypographic, hwin32]
  decide +kernel

end Catalog

end FontCatalog
