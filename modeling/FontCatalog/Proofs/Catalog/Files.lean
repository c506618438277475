import FontCatalog.Catalog.Files
import FontCatalog.Proofs.Catalog.Document

/-! A catalog that was loaded from files has only paths that are UTF-8, so it can be saved and sent; a
catalog whose document is in a file is loaded from there. -/
namespace FontCatalog
set_option autoImplicit false

/-! ## Bytes of a file -/

theorem toList_loop (data : ByteArray) (i : Nat) (done : Bytes) :
    ByteArray.toList.loop data i done = done.reverse ++ data.data.toList.drop i := by
  induction i, done using ByteArray.toList.loop.induct data with
  | case1 i done hi ih =>
    have hsize : i < data.data.size := hi
    have hget : data.get! i = data.data.toList[i] := getElem!_pos data.data i hsize
    rw [ByteArray.toList.loop, if_pos hi, ih, hget, List.drop_eq_getElem_cons hsize,
      List.reverse_cons, List.append_assoc]
    rfl
  | case2 i done hi =>
    have hle : data.data.toList.length ≤ i := Nat.not_lt.1 hi
    rw [ByteArray.toList.loop, if_neg hi, List.drop_of_length_le hle, List.append_nil]

theorem toList_toArray (bs : Bytes) : (ByteArray.mk bs.toArray).toList = bs :=
  toList_loop ⟨bs.toArray⟩ 0 []

/-! ## Paths of faces that were read -/

theorem Path.text?_ofString (s : String) : (ofString s).text? = some s := Text.decode?_encode s

theorem Face.textual_of_decode {v : Json} {f : Face} (h : decode v = .ok f) :
    f.path.text?.isSome = true := by
  rw [decode] at h
  cases hshape : shape.ofTree .document v with
  | error e =>
    rw [hshape] at h
    cases h
  | ok w =>
    rw [hshape] at h
    cases h
    show (Path.ofString _).text?.isSome = true
    rw [Path.text?_ofString]
    rfl

namespace Catalog

theorem textual_of_decodeEntries {vs : List Json} {entry : Nat} {faces : List Face}
    (h : decodeEntries entry vs = .ok faces) : Textual faces := by
  induction vs generalizing entry faces with
  | nil =>
    cases h
    exact List.forall_mem_nil _
  | cons v vs ih =>
    rw [decodeEntries] at h
    cases hentry : decodeEntry entry v with
    | error e =>
      rw [hentry] at h
      cases h
    | ok f =>
      rw [hentry] at h
      cases hrest : decodeEntries (entry + 1) vs with
      | error e =>
        rw [hrest] at h
        cases h
      | ok fs =>
        rw [hrest] at h
        cases h
        refine List.forall_mem_cons.2 ⟨?_, ih hrest⟩
        unfold decodeEntry at hentry
        repeat' split at hentry
        all_goals cases hentry
        exact Face.textual_of_decode (by assumption)

theorem textual_of_decodeDocument {v : Json} {faces : List Face}
    (h : decodeDocument v = .ok faces) : Textual faces := by
  unfold decodeDocument at h
  dsimp only at h
  split at h
  · split at h
    · exact textual_of_decodeEntries h
    · cases h
  · split at h
    · split at h
      · exact textual_of_decodeEntries h
      · cases h
    · cases h

/-! ## Loading -/

/-- A catalog that was read was made from faces whose paths are UTF-8. -/
def Loaded (c : Catalog) : Prop := ∃ faces, c = build faces ∧ Textual c.faces.toList

theorem loaded_of_deserialize {bs : Bytes} {c : Catalog} (h : deserialize bs = .ok c) : c.Loaded := by
  unfold deserialize at h
  split at h
  · cases h
  · cases hdocument : decodeDocument _ with
    | error e =>
      rw [hdocument] at h
      cases h
    | ok faces =>
      rw [hdocument] at h
      cases h
      exact ⟨faces, rfl, textual_build (textual_of_decodeDocument hdocument)⟩

theorem loaded_of_loadEach {t : FileTree} {paths : List Path} {cs : List Catalog}
    (h : loadEach t paths = .ok cs) : ∀ c ∈ cs, c.Loaded := by
  induction paths generalizing cs with
  | nil =>
    cases h
    exact List.forall_mem_nil _
  | cons p paths ih =>
    rw [loadEach] at h
    cases hload : load t p with
    | error e =>
      rw [hload] at h
      cases h
    | ok c =>
      rw [hload] at h
      cases hrest : loadEach t paths with
      | error e =>
        rw [hrest] at h
        cases h
      | ok cs =>
        rw [hrest] at h
        cases h
        refine List.forall_mem_cons.2 ⟨?_, ih hrest⟩
        unfold load at hload
        split at hload
        · cases hload
        · exact loaded_of_deserialize hload

theorem loaded_of_loadAll {t : FileTree} {paths : List Path} {c : Catalog}
    (h : loadAll t paths = .ok c) : c.Loaded := by
  unfold loadAll at h
  cases heach : loadEach t paths with
  | error e =>
    rw [heach] at h
    cases h
  | ok cs =>
    rw [heach] at h
    cases h
    refine ⟨_, rfl, textual_build fun f hf => ?_⟩
    obtain ⟨c, hc, hf⟩ := List.mem_flatMap.1 hf
    obtain ⟨-, -, htext⟩ := loaded_of_loadEach heach c hc
    exact htext f hf

/-- A catalog whose document is in a file is loaded from there. -/
theorem loadAll_document {t : FileTree} {p : Path} {bs : Bytes} {faces : List Face}
    (hread : t.read p = .ok ⟨bs.toArray⟩) (h : deserialize bs = .ok (build faces)) :
    loadAll t [p] = .ok (build faces) := by
  have hmerge : merge [build faces] = build faces := by
    rw [merge, List.flatMap_singleton, build_faces]
  rw [loadAll, loadEach, load, hread]
  dsimp only
  rw [toList_toArray, h]
  dsimp only [loadEach, Except.map]
  rw [hmerge]

end Catalog

end FontCatalog
