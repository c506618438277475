import FontCatalog.Proofs.Wire.Frame
import FontCatalog.Proofs.Wire.Response

/-! How long requests and responses are. A request without wishes is as long as the name in it, as it is
written, and 51 bytes more; a response is no shorter than the full name of its face. So there are requests and
responses whose length does not fit the four bytes of a frame. -/
namespace FontCatalog
set_option autoImplicit false

/-! ## Texts in JSON -/

theorem Text.length_le_encodeChars (cs : List Char) : cs.length ≤ (encodeChars cs).length := by
  induction cs with
  | nil => exact Nat.zero_le _
  | cons c cs ih =>
    have hsome : 0 < (String.utf8EncodeChar c).length := by
      rw [String.length_utf8EncodeChar]
      exact c.utf8Size_pos
    rw [encodeChars_cons, List.length_append, List.length_cons]
    omega

namespace Json

theorem length_le_escaped (cs : List Char) : cs.length ≤ (cs.flatMap escapeChar).length := by
  induction cs with
  | nil => exact Nat.zero_le _
  | cons c cs ih =>
    have hsome : 0 < (escapeChar c).length := by
      unfold escapeChar
      split_ifs <;> exact Nat.succ_pos _
    rw [List.flatMap_cons, List.length_append, List.length_cons]
    omega

section
variable (l : Layout) (k : Nat)

theorem length_le_spell_text (s : String) : s.toList.length ≤ ((Json.text s).spell l k).length := by
  have hescaped := length_le_escaped s.toList
  have hencoded := Text.length_le_encodeChars (s.toList.flatMap escapeChar)
  rw [spell_text, textBody]
  simp only [List.length_cons, List.length_append]
  omega

/-- An object is longer than each value in it. -/
theorem length_spell_le_object {members : List (String × Json)} {m : String × Json} (hm : m ∈ members) :
    (m.2.spell l (k + 1)).length ≤ ((Json.object members).spell l k).length := by
  have hnamed := (length_le_named l k m).2
  rw [spell_object]
  cases members with
  | nil => cases hm
  | cons n rest =>
    rw [objectBody]
    simp only [List.length_cons, List.length_append]
    rcases List.mem_cons.1 hm with rfl | hm
    · omega
    · have hlisted := length_text_le_listed (l.line (k + 1)) (l.line k ++ [byte '\x7d'])
        (fun m => named m.1 (spellValue l k m)) hm
      omega

end

/-! ## Long texts -/

/-- A text of so many letters. -/
def longText (n : Nat) : String := String.ofList (List.replicate n 'A')

theorem length_longText (n : Nat) : (longText n).toList.length = n := by
  rw [longText, String.toList_ofList, List.length_replicate]

theorem length_textBody_longText (n : Nat) : (textBody (longText n)).length = n := by
  induction n with
  | zero => rfl
  | succ n ih =>
    have hcons : (longText (n + 1)).toList = 'A' :: (longText n).toList := by
      rw [longText, longText, String.toList_ofList, String.toList_ofList, List.replicate_succ]
    rw [textBody, hcons, List.flatMap_cons, Text.encodeChars_append, List.length_append, ← textBody, ih]
    exact Nat.add_comm 1 n

end Json

namespace Wire
open Json

/-! ## Requests -/

theorem Request.write_toJson (family : String) :
    (Request.ofQuery ⟨family, {}⟩).toJson.write =
      "\x7b\"version\":1,\"family\":\"".toList ++ (family.toList.flatMap escapeChar ++
        "\",\"bold\":null,\"italic\":null\x7d".toList) := by
  simp only [ofQuery, toJson, choiceToJson, write, writeMembers, writeText, List.cons_append, List.append_assoc]
  rfl

/-- A request without wishes adds 51 bytes to the name. -/
theorem Request.length_encode (family : String) :
    (Request.ofQuery ⟨family, {}⟩).encode.length = (textBody family).length + 51 := by
  have hhead : (Text.encodeChars "\x7b\"version\":1,\"family\":\"".toList).length = 23 := by decide
  have htail : (Text.encodeChars "\",\"bold\":null,\"italic\":null\x7d".toList).length = 28 := by decide
  rw [encode, render, Text.encode, String.toList_ofList, write_toJson, Text.encodeChars_append,
    Text.encodeChars_append, List.length_append, List.length_append, hhead, htail]
  show 23 + ((textBody family).length + 28) = _
  omega

/-! ## Responses -/

theorem FaceSummary.length_le_jsonWith (s : FaceSummary) (path : String) (k : Nat) :
    s.fullName.toList.length ≤ ((s.jsonWith path).spell compact k).length := by
  have hmember : ("full_name", Json.text s.fullName) ∈
      [("path", Json.text path), ("index", .nat s.index.toNat), ("full_name", .text s.fullName),
        ("postscript_name", .text s.postscriptName), ("win32_family_name", .text s.win32Family),
        ("weight", .nat s.weight.toNat), ("italic", .bool s.italic)] := by
    simp
  exact Nat.le_trans (length_le_spell_text compact (k + 1) s.fullName) (length_spell_le_object compact k hmember)

theorem Response.encode_found {f : Face} {t : Tier} {reply : Bytes}
    (h : (Response.ofAnswer (.found f t)).encode = .ok reply) :
    ∃ path, f.path.text? = some path ∧
      reply = (Json.object [("version", .nat protocolVersion.toNat), ("result", .text "found"),
        ("tier", .text t.name), ("face", (FaceSummary.ofFace f).jsonWith path)]).spell compact 0 := by
  obtain ⟨v, hv, rfl⟩ := encode_eq_ok h
  obtain ⟨face, hface, rfl⟩ := Option.map_eq_some_iff.1 hv
  obtain ⟨path, hpath, rfl⟩ := FaceSummary.toJson?_eq_some hface
  exact ⟨path, hpath, rfl⟩

theorem Response.length_le_encode {f : Face} {t : Tier} {reply : Bytes}
    (h : (Response.ofAnswer (.found f t)).encode = .ok reply) : f.fullName.toList.length ≤ reply.length := by
  obtain ⟨path, -, rfl⟩ := encode_found h
  have hmember : ("face", (FaceSummary.ofFace f).jsonWith path) ∈ [("version", Json.nat protocolVersion.toNat),
      ("result", .text "found"), ("tier", .text t.name), ("face", (FaceSummary.ofFace f).jsonWith path)] := by
    simp
  exact Nat.le_trans ((FaceSummary.ofFace f).length_le_jsonWith path 1) (length_spell_le_object compact 0 hmember)

end Wire

end FontCatalog
