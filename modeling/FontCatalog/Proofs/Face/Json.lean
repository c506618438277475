import FontCatalog.Face.Json
import FontCatalog.Proofs.Json.Reader
import FontCatalog.Proofs.Json.Shape

/-! Faces as JSON and back: a face whose path is UTF-8 has a JSON form, and is read from it with all
its members. -/
namespace FontCatalog
set_option autoImplicit false
open Json

/-! ## Paths -/

/-- A path is made again from its text. -/
theorem Path.ofString_text? {p : Path} {s : String} (h : p.text? = some s) : ofString s = p := by
  rw [ofString, Text.encode_of_decode? h]

/-! ## Names -/

namespace LocalizedName

theorem ofTree_toJson (n : LocalizedName) (origin : Origin) :
    shape.ofTree origin n.toJson.keyed = .ok n.toJson := by
  have hnames : (["language", "name"] : List String).Nodup := by decide
  rw [toJson, shape]
  refine (Shape.record_ofTree_keyed ?_ ?_).trans rfl
  · exact hnames
  · intro f hf
    simp only [List.mem_cons, List.not_mem_nil, or_false] at hf
    rcases hf with rfl | rfl
    · exact ⟨.text n.language, rfl, by rw [keyed_text]; rfl⟩
    · exact ⟨.text n.name, rfl, by rw [keyed_text]; rfl⟩

theorem ofJson_toJson (n : LocalizedName) : ofJson n.toJson = n := rfl

theorem plain_toJson (n : LocalizedName) (depth : Nat) : n.toJson.Plain (depth + 1) := by
  refine .object fun m hm => ?_
  simp only [List.mem_cons, List.not_mem_nil, or_false] at hm
  rcases hm with rfl | rfl <;> exact .text _

theorem list_ofTree_toJson (names : List LocalizedName) (origin : Origin) :
    (Shape.list shape).ofTree origin (Json.list (names.map toJson)).keyed =
      .ok (.list (names.map toJson)) := by
  rw [keyed, keyedItems_eq, List.map_map]
  dsimp only [Shape.list]
  rw [Shape.mapItems_map (a := keyed ∘ toJson) fun n _ => ofTree_toJson n origin]
  rfl

end LocalizedName

/-! ## Faces -/

namespace Face

theorem nodup_fieldNames :
    (["full_name", "postscript_name", "win32_family_name", "typographic_family_names",
      "source_file_path", "face_index", "weight", "italic", "ps_outline"] : List String).Nodup := by
  decide

theorem keyed_toJsonWith (f : Face) (s : String) :
    ∃ sorted, (f.toJsonWith (.text s)).keyed = .object sorted ∧
      ∀ n, lookup n sorted = ((f.toJsonWith (.text s)).get? n).map keyed := by
  obtain ⟨ms, hms, hnames⟩ : ∃ ms, f.toJsonWith (.text s) = .object ms ∧ (names ms).Nodup :=
    ⟨_, rfl, nodup_fieldNames⟩
  obtain ⟨sorted, hkeyed, -, hlookup⟩ := keyed_object hnames
  rw [hms]
  exact ⟨sorted, hkeyed, hlookup⟩

theorem shape_ofTree (f : Face) (s : String) (origin : Origin) :
    shape.ofTree origin (f.toJsonWith (.text s)).keyed = .ok (f.toJsonWith (.text s)) := by
  rw [toJsonWith, shape]
  refine (Shape.record_ofTree_keyed ?_ ?_).trans rfl
  · exact nodup_fieldNames
  · intro g hg
    simp only [List.mem_cons, List.not_mem_nil, or_false] at hg
    rcases hg with rfl | rfl | rfl | rfl | rfl | rfl | rfl | rfl | rfl
    · exact ⟨.text f.fullName, rfl, by rw [keyed_text]; rfl⟩
    · exact ⟨.text f.postscriptName, rfl, by rw [keyed_text]; rfl⟩
    · exact ⟨.text f.win32Family, rfl, by rw [keyed_text]; rfl⟩
    · exact ⟨.list (f.typographicFamilies.map LocalizedName.toJson), rfl,
        LocalizedName.list_ofTree_toJson f.typographicFamilies origin⟩
    · exact ⟨.text s, rfl, by rw [keyed_text]; rfl⟩
    · exact ⟨.nat f.index.toNat, rfl, by
        rw [keyed_nat]; exact Shape.word_ofTree f.index.toNat_lt origin⟩
    · exact ⟨.nat f.weight.toNat, rfl, by
        rw [keyed_nat]; exact Shape.word_ofTree f.weight.toNat_lt origin⟩
    · exact ⟨.bool f.italic, rfl, by rw [keyed_bool]; rfl⟩
    · exact ⟨.bool f.psOutline, rfl, by rw [keyed_bool]; rfl⟩

theorem ofJson_toJsonWith {f : Face} {s : String} (h : f.path.text? = some s) :
    ofJson (f.toJsonWith (.text s)) = f := by
  have hpath := Path.ofString_text? h
  have hindex : (Int.toNat f.index.toNat).toUInt32 = f.index := by simp
  have hweight : (Int.toNat f.weight.toNat).toUInt16 = f.weight := by simp
  have hnames : (f.typographicFamilies.map LocalizedName.toJson).map LocalizedName.ofJson =
      f.typographicFamilies := by
    rw [List.map_map]
    exact List.map_id _
  calc ofJson (f.toJsonWith (.text s))
    _ = { fullName := f.fullName, postscriptName := f.postscriptName, win32Family := f.win32Family,
          typographicFamilies :=
            (f.typographicFamilies.map LocalizedName.toJson).map LocalizedName.ofJson,
          path := .ofString s, index := (Int.toNat f.index.toNat).toUInt32,
          weight := (Int.toNat f.weight.toNat).toUInt16, italic := f.italic,
          psOutline := f.psOutline } := rfl
    _ = f := by rw [hpath, hindex, hweight, hnames]

/-- A face is read from its sorted object. -/
theorem decode_keyed {f : Face} {s : String} (h : f.path.text? = some s) :
    decode (f.toJsonWith (.text s)).keyed = .ok f := by
  rw [decode, shape_ofTree, Except.map, ofJson_toJsonWith h]

/-- A face has no numbers but integers and is three levels deep. -/
theorem plain_toJsonWith (f : Face) (s : String) (depth : Nat) :
    (f.toJsonWith (.text s)).Plain (depth + 3) := by
  refine .object fun m hm => ?_
  simp only [List.mem_cons, List.not_mem_nil, or_false] at hm
  rcases hm with rfl | rfl | rfl | rfl | rfl | rfl | rfl | rfl | rfl
  · exact .text _
  · exact .text _
  · exact .text _
  · refine .list fun v hv => ?_
    obtain ⟨n, -, rfl⟩ := List.mem_map.1 hv
    exact n.plain_toJson depth
  · exact .text _
  · have hlt := f.index.toNat_lt
    exact .integer (by omega) (by omega)
  · have hlt := f.weight.toNat_lt
    exact .integer (by omega) (by omega)
  · exact .bool _
  · exact .bool _

end Face

end FontCatalog
