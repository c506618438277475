import FontCatalog.Proofs.Catalog.Firsts
import FontCatalog.Proofs.Match.Styles
import FontCatalog.Proofs.Sfnt.Naming

/-! Faces asked for by their own names. A typographic family name of a face is met on the first rung of the
ladder, and a Win32 family name on the second one at the latest. Faces that were read from fonts have both. -/
namespace FontCatalog
set_option autoImplicit false
open Name

namespace Ladder

variable {faces : List Face} {f : Face} {n : String}

/-- The exact rungs decide where one of them has a face. -/
theorem familyGroup_exact (name : String) (faces : List Face) :
    familyGroup name faces =
      if alike Face.typographicNames exactKey name faces ≠ [] then
        some (.exactTypographic, alike Face.typographicNames exactKey name faces)
      else if alike Face.win32Names exactKey name faces ≠ [] then
        some (.exactWin32, alike Face.win32Names exactKey name faces)
      else familyGroup name faces := by
  split
  · next h => exact List.find?_cons_of_pos (decide_eq_true h)
  · next h =>
    split
    · next h' =>
      refine (List.find?_cons_of_neg ?_).trans (List.find?_cons_of_pos (decide_eq_true h'))
      simpa using h
    · rfl

/-- The rung that decides gives one of its faces. -/
theorem answer_of_familyGroup {t : Tier} {group : List Face} (hplain : n.toList.head? ≠ some '@')
    (hblank : Text.isBlankText n = false) (hgroup : familyGroup n faces = some (t, group)) (style : StyleHints) :
    ∃ g ∈ group, answer faces ⟨n, style⟩ = .found g t := by
  obtain ⟨g, hg⟩ := Option.isSome_iff_exists.1 (pick_isSome style (mem_of_familyGroup hgroup).2)
  rw [familyGroup] at hgroup
  refine ⟨g, mem_of_pick hg, ?_⟩
  simp only [answer, asked_eq, undecorate_eq_self hplain, hblank, hgroup, hg, Bool.false_eq_true, if_false]

theorem of_mem_alike {names : Face → List String} {key : String → String} (h : f ∈ alike names key n faces) :
    f ∈ faces ∧ ∃ n' ∈ names f, key n' = key n := by
  obtain ⟨hf, hany⟩ := List.mem_filter.1 h
  obtain ⟨n', hn', hkey⟩ := List.any_eq_true.1 hany
  exact ⟨hf, n', hn', beq_iff_eq.1 hkey⟩

section
variable (hf : f ∈ faces) (hplain : n.toList.head? ≠ some '@') (hblank : Text.isBlankText n = false)
  (style : StyleHints)
include hf hplain hblank

theorem answer_typographicName (hn : n ∈ f.typographicNames) :
    ∃ g ∈ faces, (∃ n' ∈ g.typographicNames, exactKey n' = exactKey n) ∧
      answer faces ⟨n, style⟩ = .found g .exactTypographic := by
  have hne : alike Face.typographicNames exactKey n faces ≠ [] := List.ne_nil_of_mem (mem_alike hf hn rfl)
  have hgroup := familyGroup_exact n faces
  rw [if_pos hne] at hgroup
  obtain ⟨g, hg, hanswer⟩ := answer_of_familyGroup hplain hblank hgroup style
  obtain ⟨hmem, hbears⟩ := of_mem_alike hg
  exact ⟨g, hmem, hbears, hanswer⟩

theorem answer_win32Name (hn : n ∈ f.win32Names) :
    ∃ g ∈ faces, ∃ t, (∃ n' ∈ g.typographicNames ++ g.win32Names, exactKey n' = exactKey n) ∧
      answer faces ⟨n, style⟩ = .found g t ∧ t.isExact = true := by
  have hne : alike Face.win32Names exactKey n faces ≠ [] := List.ne_nil_of_mem (mem_alike hf hn rfl)
  have hgroup := familyGroup_exact n faces
  rw [if_pos hne] at hgroup
  split at hgroup
  · obtain ⟨g, hg, hanswer⟩ := answer_of_familyGroup hplain hblank hgroup style
    obtain ⟨hmem, n', hn', hkey⟩ := of_mem_alike hg
    exact ⟨g, hmem, _, ⟨n', List.mem_append_left _ hn', hkey⟩, hanswer, rfl⟩
  · obtain ⟨g, hg, hanswer⟩ := answer_of_familyGroup hplain hblank hgroup style
    obtain ⟨hmem, n', hn', hkey⟩ := of_mem_alike hg
    exact ⟨g, hmem, _, ⟨n', List.mem_append_right _ hn', hkey⟩, hanswer, rfl⟩

end

end Ladder

/-! ## Faces from fonts -/

/-- A face that was read from the bytes of a font file, the best texts chosen by `choice`. -/
def Face.ReadBy (choice : Sfnt.Choice) (f : Face) : Prop :=
  ∃ data file path index, FontFile.sfntBy choice data = .ok file ∧ file.face path index = .ok f

theorem Face.ReadBy.wellNamed {choice : Sfnt.Choice} (hchoice : choice.Picks) {f : Face} (h : f.ReadBy choice) :
    Sfnt.WellNamed f.toFaceMetadata := by
  obtain ⟨data, file, path, index, hfile, hface⟩ := h
  rw [FontFile.face] at hface
  split at hface
  · cases hface
  next m hm =>
  cases hface
  exact FontFile.metadata_wellNamed hchoice hfile hm

namespace Catalog

/-- Every face that can be read has names, and is found by them in any catalog that it is in. -/
theorem found_by_own_names (choice : Sfnt.Choice) (hchoice : choice.Picks) :
    (∀ data file index m, FontFile.sfntBy choice data = .ok file → file.metadata index = .ok m →
      Sfnt.WellNamed m) ∧
    ∀ faces : List Face, (∀ f ∈ faces, f.ReadBy choice) →
      (Distinct faces → ∀ f ∈ faces, f ∈ (build faces).faces) ∧
      ∀ f ∈ (build faces).faces, ∀ style : StyleHints,
        (∀ n ∈ f.typographicNames, n.toList.head? ≠ some '@' →
          ∃ g ∈ (build faces).faces, (∃ n' ∈ g.typographicNames, exactKey n' = exactKey n) ∧
            (build faces).find ⟨n, style⟩ = .found g .exactTypographic) ∧
        ∀ n ∈ f.win32Names, n.toList.head? ≠ some '@' →
          ∃ g ∈ (build faces).faces, ∃ t,
            (∃ n' ∈ g.typographicNames ++ g.win32Names, exactKey n' = exactKey n) ∧
            (build faces).find ⟨n, style⟩ = .found g t ∧ t.isExact = true := by
  refine ⟨fun data file index m hfile h => FontFile.metadata_wellNamed hchoice hfile h, fun faces hread => ⟨?_, ?_⟩⟩
  · intro hdistinct f hf
    exact Array.mem_toList_iff.1 ((mem_arrange_iff hdistinct).2 hf)
  · intro f hf style
    have hmem : f ∈ (build faces).faces.toList := Array.mem_toList_iff.2 hf
    have hnamed := (hread f (mem_of_mem_build hmem)).wellNamed hchoice
    simp only [find_build, ← Array.mem_toList_iff]
    constructor
    · intro n hn hplain
      obtain ⟨name, hname, rfl⟩ := List.mem_map.1 hn
      have hblank := (hnamed.typographic.trimmed name hname).isBlankText (hnamed.typographic.ne_empty name hname)
      exact Ladder.answer_typographicName hmem hplain hblank style hn
    · intro n hn hplain
      obtain rfl := List.mem_singleton.1 hn
      exact Ladder.answer_win32Name hmem hplain (hnamed.win32_trimmed.isBlankText hnamed.win32_ne_empty) style hn

/-- A font with one name, the Win32 family name " A ". -/
def oneName : ByteArray := ⟨#[
  0, 1, 0, 0, 0, 1, 0, 0, 0, 0, 0, 0,
  0x6E, 0x61, 0x6D, 0x65, 0, 0, 0, 0, 0, 0, 0, 28, 0, 0, 0, 24,
  0, 0, 0, 1, 0, 18, 0, 3, 0, 1, 4, 9, 0, 1, 0, 6, 0, 0,
  0, 0x20, 0, 0x41, 0, 0x20]⟩

def oneNameFace : Face where
  win32Family := "A"
  typographicFamilies := [⟨"en-US", "A"⟩]
  path := .ofString "a.ttf"
  index := 0

theorem oneName_face : ∃ file, FontFile.sfntBy Sfnt.englishOrFirst oneName = .ok file ∧
    file.face (.ofString "a.ttf") 0 = .ok oneNameFace := by
  have hread : (match FontFile.sfntBy Sfnt.englishOrFirst oneName with
      | .ok file => (match file.face (.ofString "a.ttf") 0 with
        | .ok f => decide (f = oneNameFace)
        | .error _ => false)
      | .error _ => false) = true := by
    decide +kernel
  split at hread
  · next file hfile =>
    split at hread
    · next f hface =>
      obtain rfl := of_decide_eq_true hread
      exact ⟨file, hfile, hface⟩
    · cases hread
  · cases hread

theorem found_by_own_names_oneName :
    Sfnt.Choice.Picks Sfnt.englishOrFirst ∧
      (∃ file m, FontFile.sfntBy Sfnt.englishOrFirst oneName = .ok file ∧ file.metadata 0 = .ok m ∧
        Sfnt.WellNamed m) ∧
      (∀ f ∈ [oneNameFace], f.ReadBy Sfnt.englishOrFirst) ∧ Distinct [oneNameFace] ∧
      oneNameFace ∈ (build [oneNameFace]).faces ∧
      ("A" ∈ oneNameFace.typographicNames ∧ "A" ∈ oneNameFace.win32Names ∧ "A".toList.head? ≠ some '@') ∧
      (∃ g ∈ (build [oneNameFace]).faces, (∃ n' ∈ g.typographicNames, exactKey n' = exactKey "A") ∧
        (build [oneNameFace]).find ⟨"A", {}⟩ = .found g .exactTypographic) ∧
      ∃ g ∈ (build [oneNameFace]).faces, ∃ t,
        (∃ n' ∈ g.typographicNames ++ g.win32Names, exactKey n' = exactKey "A") ∧
        (build [oneNameFace]).find ⟨"A", {}⟩ = .found g t ∧ t.isExact = true := by
  obtain ⟨file, hfile, hface⟩ := oneName_face
  obtain ⟨hnamed, hfound⟩ := found_by_own_names Sfnt.englishOrFirst Sfnt.englishOrFirst_picks
  have hread : ∀ f ∈ [oneNameFace], f.ReadBy Sfnt.englishOrFirst := by
    intro f hf
    obtain rfl := List.mem_singleton.1 hf
    exact ⟨oneName, file, .ofString "a.ttf", 0, hfile, hface⟩
  have hdistinct : Distinct [oneNameFace] := by
    intro f hf g hg _
    rw [List.mem_singleton.1 hf, List.mem_singleton.1 hg]
  have hm : ∃ m, file.metadata 0 = .ok m := by
    rw [FontFile.face] at hface
    split at hface
    · cases hface
    · next m hm => exact ⟨m, hm⟩
  obtain ⟨m, hm⟩ := hm
  obtain ⟨hmem, hown⟩ := hfound [oneNameFace] hread
  have hbuilt := hmem hdistinct oneNameFace (List.mem_singleton_self _)
  have hname : "A" ∈ oneNameFace.typographicNames := by decide
  have hname' : "A" ∈ oneNameFace.win32Names := by decide
  have hplain : "A".toList.head? ≠ some '@' := by decide
  exact ⟨Sfnt.englishOrFirst_picks, ⟨file, m, hfile, hm, hnamed oneName file 0 m hfile hm⟩, hread, hdistinct,
    hbuilt, ⟨hname, hname', hplain⟩, (hown oneNameFace hbuilt {}).1 "A" hname hplain,
    (hown oneNameFace hbuilt {}).2 "A" hname' hplain⟩

end Catalog

end FontCatalog
