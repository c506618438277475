import FontCatalog.Catalog.Document
import FontCatalog.Proofs.Catalog.Order
import FontCatalog.Proofs.Face.Json

/-! The document of a catalog is read back to the catalog itself; it exists if and only if all paths
are UTF-8. -/
namespace FontCatalog
set_option autoImplicit false
open Json

namespace Catalog

/-! ## Faces -/

/-- Every path is valid UTF-8. -/
def Textual (faces : List Face) : Prop := ∀ f ∈ faces, f.path.text?.isSome = true

theorem textual_build {faces : List Face} (h : Textual faces) :
    Textual (build faces).faces.toList := fun f hf => h f (mem_of_mem_build hf)

theorem facesToJson?_isSome (faces : List Face) :
    (facesToJson? faces).isSome = true ↔ Textual faces := by
  induction faces with
  | nil => simp [facesToJson?, Textual]
  | cons f faces ih =>
    rw [Textual, List.forall_mem_cons, ← Textual, ← ih, facesToJson?, Face.toJson?, Path.toJson?]
    cases hpath : f.path.text? with
    | none => simp
    | some s => simp

/-- A list of JSON values for faces with paths that have a text. -/
inductive Written : List Face → List Json → Prop
  | nil : Written [] []
  | cons {f : Face} {s : String} {faces : List Face} {vs : List Json} (h : f.path.text? = some s)
    (hrest : Written faces vs) : Written (f :: faces) (f.toJsonWith (.text s) :: vs)

theorem written_of_facesToJson? {faces : List Face} {vs : List Json}
    (h : facesToJson? faces = some vs) : Written faces vs := by
  induction faces generalizing vs with
  | nil =>
    cases h
    exact .nil
  | cons f faces ih =>
    rw [facesToJson?, Face.toJson?, Path.toJson?] at h
    cases hpath : f.path.text? with
    | none =>
      rw [hpath] at h
      cases h
    | some s =>
      rw [hpath] at h
      obtain ⟨ws, hws, rfl⟩ := Option.map_eq_some_iff.1 h
      exact .cons hpath (ih hws)

theorem Written.plain {faces : List Face} {vs : List Json} (h : Written faces vs) (depth : Nat) :
    ∀ v ∈ vs, v.Plain (depth + 3) := by
  induction h with
  | nil => exact List.forall_mem_nil _
  | cons hpath hrest ih => exact List.forall_mem_cons.2 ⟨Face.plain_toJsonWith _ _ depth, ih⟩

/-! ## Entries -/

theorem decodeEntry_keyed {f : Face} {s : String} (h : f.path.text? = some s) (entry : Nat) :
    decodeEntry entry (f.toJsonWith (.text s)).keyed = .ok f := by
  have hdecode := Face.decode_keyed h
  obtain ⟨sorted, hkeyed, hlookup⟩ := Face.keyed_toJsonWith f s
  have hpresent : requiredFields.find? (fun name => (lookup name sorted).isNone) = none := by
    simp only [hlookup, Option.isNone_map]
    rfl
  rw [hkeyed] at hdecode ⊢
  rw [decodeEntry, hpresent]
  dsimp only
  rw [hdecode]

theorem Written.decodeEntries {faces : List Face} {vs : List Json} (h : Written faces vs)
    (entry : Nat) : Catalog.decodeEntries entry (vs.map keyed) = .ok faces := by
  induction h generalizing entry with
  | nil => rfl
  | cons hpath hrest ih =>
    rw [List.map_cons, Catalog.decodeEntries, decodeEntry_keyed hpath, ih]

/-! ## The document -/

theorem Written.decodeDocument {faces : List Face} {vs : List Json} (h : Written faces vs) :
    Catalog.decodeDocument (documentOf vs).keyed = .ok faces := by
  have hnames : (["version", "faces"] : List String).Nodup := by decide
  obtain ⟨ms, hms, hnodup⟩ : ∃ ms, documentOf vs = .object ms ∧ (names ms).Nodup :=
    ⟨_, rfl, hnames⟩
  obtain ⟨sorted, hkeyed, -, hlookup⟩ := keyed_object hnodup
  have hfaces : (Json.object sorted).get? "faces" = some (.list (vs.map keyed)) := by
    have hget : (documentOf vs).get? "faces" = some (.list vs) := rfl
    rw [hms] at hget
    rw [get?, hlookup, ← get?, hget, Option.map_some, keyed, keyedItems_eq]
  have hversion : (Json.object sorted).get? "version" = some (.nat formatVersion) := by
    have hget : (documentOf vs).get? "version" = some (.nat formatVersion) := rfl
    rw [hms] at hget
    rw [get?, hlookup, ← get?, hget, Option.map_some, keyed_nat]
  rw [hms, hkeyed, Catalog.decodeDocument, hfaces, hversion]
  exact h.decodeEntries 0

theorem Written.plain_documentOf {faces : List Face} {vs : List Json} (h : Written faces vs) :
    (documentOf vs).Plain maxDepth := by
  refine .object fun m hm => ?_
  simp only [List.mem_cons, List.not_mem_nil, or_false] at hm
  rcases hm with rfl | rfl
  · exact .integer (by decide) (by decide)
  · exact .list (h.plain 122)

theorem Written.deserialize {faces : List Face} {vs : List Json} (h : Written faces vs) :
    Catalog.deserialize (Text.encode (documentOf vs).renderPretty) = .ok (build faces) := by
  rw [Catalog.deserialize, parseKeyed, encode_renderPretty, parse_spell h.plain_documentOf]
  dsimp only [Except.map]
  rw [h.decodeDocument]

/-- A catalog is written if and only if all paths are UTF-8, and then reading what was written gives the
same catalog. -/
theorem deserialize_serialize (faces : List Face) :
    (Textual (build faces).faces.toList →
      ∃ bs, (build faces).serialize? = some bs ∧ deserialize bs = .ok (build faces)) ∧
    (¬ Textual (build faces).faces.toList → (build faces).serialize? = none) := by
  rw [serialize?]
  cases hjson : facesToJson? (build faces).faces.toList with
  | none =>
    have hnot : ¬ Textual (build faces).faces.toList := by
      rw [← facesToJson?_isSome, hjson]
      decide
    exact ⟨fun h => absurd h hnot, fun _ => rfl⟩
  | some vs =>
    have hwritten := written_of_facesToJson? hjson
    have htextual : Textual (build faces).faces.toList := by
      rw [← facesToJson?_isSome, hjson]
      rfl
    refine ⟨fun _ => ⟨Text.encode (documentOf vs).renderPretty, rfl, ?_⟩, fun h => absurd htextual h⟩
    rw [hwritten.deserialize, build_faces]

theorem deserialize_serialize_one :
    ∃ bs, (build [{ fullName := "A \"b\"\n𝔸", path := .ofString "/f/é.ttf", index := 7 }]).serialize? =
        some bs ∧
      deserialize bs =
        .ok (build [{ fullName := "A \"b\"\n𝔸", path := .ofString "/f/é.ttf", index := 7 }]) :=
  (deserialize_serialize _).1 (textual_build (List.forall_mem_singleton.2 (by decide)))

end Catalog

end FontCatalog
