import FontCatalog.Proofs.Json.Streaming
import FontCatalog.Wire.Request

/-! What a text must hold to be a request. Requests are read back from what is sent. -/
namespace FontCatalog.Wire
set_option autoImplicit false
open Json

namespace Request

theorem choice_ofTree (b : Option Bool) (origin : Origin) :
    (Shape.optional .boolean).ofTree origin (choiceToJson b) = .ok (choiceToJson b) := by
  cases b <;> rfl

theorem toBool?_choiceToJson (b : Option Bool) : toBool? (choiceToJson b) = b := by
  cases b <;> rfl

theorem shape_ofTree (r : Request) (origin : Origin) :
    shape.ofTree origin r.toJson = .ok r.toJson := by
  have hnames : (["version", "family", "bold", "italic"] : List String).Nodup := by decide
  rw [toJson, shape]
  refine (Shape.record_ofTree_self ?_ ?_).trans rfl
  · exact hnames
  · intro f hf
    simp only [List.mem_cons, List.not_mem_nil, or_false] at hf
    rcases hf with rfl | rfl | rfl | rfl
    · exact ⟨_, rfl, Shape.word_ofTree r.version.toNat_lt origin⟩
    · exact ⟨.text r.family, rfl, rfl⟩
    · exact ⟨_, rfl, choice_ofTree r.bold origin⟩
    · exact ⟨_, rfl, choice_ofTree r.italic origin⟩

theorem ofJson_toJson (r : Request) : ofJson r.toJson = r := by
  have hversion : (Int.toNat r.version.toNat).toUInt32 = r.version := by simp
  calc ofJson r.toJson
    _ = ⟨(Int.toNat r.version.toNat).toUInt32, r.family, toBool? (choiceToJson r.bold),
          toBool? (choiceToJson r.italic)⟩ := rfl
    _ = r := by rw [hversion, toBool?_choiceToJson, toBool?_choiceToJson]

def fields : List Shape.Field :=
  [⟨"version", .word32, false⟩, ⟨"family", .text, false⟩, ⟨"bold", .optional .boolean, true⟩,
    ⟨"italic", .optional .boolean, true⟩]

theorem fields_readsTrees : ∀ f ∈ fields, f.shape.ReadsTrees := by
  intro f hf
  simp only [fields, List.mem_cons, List.not_mem_nil, or_false] at hf
  rcases hf with rfl | rfl | rfl | rfl
  · exact Shape.word_readsTrees 32 "u32"
  · exact Shape.string_readsTrees "a string"
  · exact Shape.optional_readsTrees Shape.boolean_readsTrees
  · exact Shape.optional_readsTrees Shape.boolean_readsTrees

/-- A request is decoded from the trees of the outline, if every member that is known has one. -/
theorem decode_eq_ok {bs rest : Bytes} {r : Request} (hobject : skipSpace bs = byte '\x7b' :: rest) :
    decode bs = .ok r ↔ ∃ ms w, outline bs = .ok ms ∧ Shape.KnownTrees fields ms ∧
      shape.ofTree .document (.object (trees ms)) = .ok w ∧ r = ofJson w := by
  have hparse {w : Json} : shape.parse bs = .ok w ↔ ∃ ms, outline bs = .ok ms ∧ Shape.KnownTrees fields ms ∧
      shape.ofTree .document (.object (trees ms)) = .ok w :=
    Shape.parse_record_eq_ok fields_readsTrees hobject
  rw [decode]
  constructor
  · intro h
    split at h <;> cases h
    next w hw =>
    obtain ⟨ms, houtline, hknown, htree⟩ := hparse.1 hw
    exact ⟨ms, w, houtline, hknown, htree, rfl⟩
  · rintro ⟨ms, w, houtline, hknown, htree, rfl⟩
    rw [hparse.2 ⟨ms, houtline, hknown, htree⟩]

theorem plain_toJson (r : Request) (depth : Nat) : r.toJson.Plain (depth + 1) := by
  have hchoice (b : Option Bool) : (choiceToJson b).Plain depth := by
    cases b with
    | none => exact .null
    | some b => exact .bool b
  have hversion := r.version.toNat_lt
  refine .object fun m hm => ?_
  simp only [List.mem_cons, List.not_mem_nil, or_false] at hm
  rcases hm with rfl | rfl | rfl | rfl
  · exact .integer (by omega) (by omega)
  · exact .text _
  · exact hchoice r.bold
  · exact hchoice r.italic

/-- A request is decoded to what was encoded. -/
theorem decode_encode (r : Request) : decode r.encode = .ok r := by
  obtain ⟨ms, hms⟩ : ∃ ms, r.toJson = .object ms := ⟨_, rfl⟩
  have hplain : (Json.object ms).Plain maxDepth := hms ▸ plain_toJson r 126
  have houtline := outline_spell hplain compact 0
  obtain ⟨rest, hobject⟩ := object_of_outline houtline
  have htree : shape.ofTree .document (.object (trees (whole ms))) = .ok r.toJson := by
    rw [trees_whole, ← hms, shape_ofTree]
  rw [encode, encode_render, hms]
  exact (decode_eq_ok hobject).2
    ⟨whole ms, r.toJson, houtline, Shape.knownTrees_whole fields ms, htree, (ofJson_toJson r).symm⟩

/-- The query of a request is the one that was asked. -/
theorem toQuery_ofQuery (q : Query) : (ofQuery q).toQuery = .ok q := rfl

end Request

end FontCatalog.Wire
