import FontCatalog.Proofs.Catalog.Loading
import FontCatalog.Proofs.Json.Widening

/-! Documents with members that this version does not know. They make the same catalog, wherever among the objects
of the document those members stand and in whatever order the known ones come. -/
namespace FontCatalog
set_option autoImplicit false
open Json

/-! ## Names and faces -/

namespace LocalizedName

def Widened : Json → Json → Prop := Json.Widened ["language", "name"] fun _ => Eq

theorem ofTree_widened {v v' w : Json} (h : Widened v v') (hdistinct : v.Distinct)
    (hv : shape.ofTree .document v.keyed = .ok w) : shape.ofTree .document v'.keyed = .ok w := by
  refine Shape.record_of_widened_keyed h hdistinct (by simp) (fun n f _ v v' w _ hR hread => ?_) hv
  rw [← hR, hread]

end LocalizedName

namespace Face

def fieldNames : List String :=
  ["full_name", "postscript_name", "win32_family_name", "typographic_family_names", "source_file_path", "face_index",
    "weight", "italic", "ps_outline"]

def Widened : Json → Json → Prop :=
  Json.Widened fieldNames fun n v v' => v = v' ∨ n = "typographic_family_names" ∧ Each LocalizedName.Widened v v'

theorem decode_widened {v v' : Json} {f : Face} (h : Widened v v') (hdistinct : v.Distinct)
    (hv : decode v.keyed = .ok f) : decode v'.keyed = .ok f := by
  rw [decode] at hv ⊢
  cases hshape : shape.ofTree .document v.keyed with
  | error m =>
    rw [hshape] at hv
    cases hv
  | ok w =>
    have hwide : shape.ofTree .document v'.keyed = .ok w := by
      refine Shape.record_of_widened_keyed h hdistinct (by simp [fieldNames]) (fun n g hg v v' w hv hR hread => ?_)
        hshape
      rcases hR with rfl | ⟨rfl, hnames⟩
      · exact hread
      · cases hg
        exact Shape.list_of_each hnames hv (fun _ _ _ hv hname => LocalizedName.ofTree_widened hname hv) hread
    rw [hshape] at hv
    rw [hwide, hv]

theorem describes_widened {v v' : Json} {f : Face} (h : Widened v v') (hdistinct : v.Distinct)
    (hv : Catalog.Describes v.keyed f) : Catalog.Describes v'.keyed f := by
  obtain ⟨members, hobject, hfields, hdecode⟩ := hv
  have hwide := decode_widened h hdistinct hdecode
  rcases h.cases_object with rfl | ⟨ms, ms', rfl, rfl, hwider⟩
  · exact ⟨members, hobject, hfields, hdecode⟩
  · have hsorted := hwider.keyed (S := fun _ _ _ => True) hdistinct fun _ _ _ _ _ => trivial
    have hrequired : ∀ n ∈ Catalog.requiredFields, n ∈ fieldNames := by decide
    rw [keyed] at hobject hwide ⊢
    cases hobject
    refine ⟨_, rfl, fun n hn => ?_, hwide⟩
    rw [hsorted.isSome (hrequired n hn)]
    exact hfields n hn

end Face

/-! ## Documents -/

namespace Catalog

/-- More members and another order in a document, in its faces and in their localized names. -/
def Widened : Json → Json → Prop :=
  Json.Widened ["version", "faces"] fun n v v' => v = v' ∨ n = "faces" ∧ Each Face.Widened v v'

/-- A wider document has wider entries and the same version. -/
theorem isDocument_widened {bs bs' : Bytes} {v v' : Json} {entries : List Json} (hv : parse bs = .ok v)
    (hv' : parse bs' = .ok v') (h : Widened v v') (hdistinct : v.Distinct) (hdocument : IsDocument bs entries) :
    ∃ entries', IsDocument bs' entries' ∧
      List.Forall₂ (fun e e' => ∀ f, Describes e f → Describes e' f) entries entries' := by
  obtain ⟨members, hparse, hcurrent, hfaces⟩ := hdocument
  have hkeyed : v.keyed = .object members := by
    rw [parseKeyed, hv] at hparse
    exact Except.ok.inj hparse
  have hparse' : parseKeyed bs' = .ok v'.keyed := by
    rw [parseKeyed, hv']
    rfl
  rcases h.cases_object with rfl | ⟨ms, ms', rfl, rfl, hwider⟩
  · exact ⟨entries, ⟨members, hkeyed ▸ hparse', hcurrent, hfaces⟩, List.forall₂_same.2 fun _ _ _ hf => hf⟩
  · have hsorted := hwider.keyed
      (S := fun n x x' => x = x' ∨
        n = "faces" ∧ ∃ v v', v.Distinct ∧ Each Face.Widened v v' ∧ x = v.keyed ∧ x' = v'.keyed)
      hdistinct fun n v v' hv hR =>
        hR.imp (congrArg keyed) (And.imp_right fun hfaces => ⟨v, v', hv, hfaces, rfl, rfl⟩)
    rw [keyed] at hkeyed hparse'
    cases hkeyed
    have hversion : lookup "version" (sortMembers (keyedMembers ms')) =
        lookup "version" (sortMembers (keyedMembers ms)) := by
      have hrelated := hsorted.related "version" (by simp)
      generalize lookup "version" (sortMembers (keyedMembers ms)) = x at hrelated ⊢
      generalize lookup "version" (sortMembers (keyedMembers ms')) = x' at hrelated ⊢
      cases hrelated with
      | none => rfl
      | some hR =>
        rcases hR with rfl | ⟨hn, -⟩
        · rfl
        · exact absurd hn (by decide)
    have hcurrent' : Current (.object (sortMembers (keyedMembers ms'))) := by
      rw [Current, get?, hversion]
      exact hcurrent
    have hrelated := hsorted.related "faces" (by simp)
    rw [hfaces] at hrelated
    generalize hx' : lookup "faces" (sortMembers (keyedMembers ms')) = x' at hrelated
    cases hrelated with
    | some hR =>
      rcases hR with rfl | ⟨-, v, v', hv, hR, hx, rfl⟩
      · exact ⟨entries, ⟨_, hparse', hcurrent', hx'⟩, List.forall₂_same.2 fun _ _ _ hf => hf⟩
      · obtain @⟨vs, vs', hitems⟩ := hR
        rw [keyed, keyedItems_eq] at hx hx'
        cases hx
        refine ⟨_, ⟨_, hparse', hcurrent', hx'⟩, ?_⟩
        cases hv with
        | list hvs =>
          exact List.forall₂_map_left_iff.2 (List.forall₂_map_right_iff.2
            (((List.forall₂_and_left vs vs').2 ⟨hvs, hitems⟩).imp
              fun v v' hwide f => Face.describes_widened hwide.2 hwide.1))

theorem forall₂_describes {entries entries' : List Json} {faces : List Face}
    (h : List.Forall₂ (fun e e' => ∀ f, Describes e f → Describes e' f) entries entries')
    (hfaces : List.Forall₂ Describes entries faces) : List.Forall₂ Describes entries' faces := by
  induction h generalizing faces with
  | nil => exact hfaces
  | cons he _ ih =>
    cases hfaces with
    | cons hf hrest => exact .cons (he _ hf) (ih hrest)

/-- A document and a wider one make the same catalog. -/
theorem deserialize_widened {bs bs' : Bytes} {v v' : Json} {c : Catalog} (hv : parse bs = .ok v)
    (hv' : parse bs' = .ok v') (h : Widened v v') (hdistinct : v.Distinct) (hc : deserialize bs = .ok c) :
    deserialize bs' = .ok c := by
  obtain ⟨entries, faces, hdocument, hfaces, rfl⟩ := deserialize_eq_ok_iff.1 hc
  obtain ⟨entries', hdocument', hentries⟩ := isDocument_widened hv hv' h hdistinct hdocument
  exact deserialize_eq_ok_iff.2 ⟨entries', faces, hdocument', forall₂_describes hentries hfaces, rfl⟩

/-- Whatever makes a catalog is JSON. -/
theorem exists_parse {bs : Bytes} {c : Catalog} (h : deserialize bs = .ok c) : ∃ v, parse bs = .ok v := by
  rw [deserialize, parseKeyed] at h
  cases hparse : parse bs with
  | error e =>
    rw [hparse] at h
    cases h
  | ok v => exact ⟨v, rfl⟩

end Catalog

end FontCatalog
