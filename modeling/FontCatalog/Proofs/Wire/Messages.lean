import FontCatalog.Proofs.Wire.Response

/-! Messages are read back as they were written: every request, and every response but for one whose face has a
path that is no text. -/
namespace FontCatalog.Wire
set_option autoImplicit false

namespace Response

/-- A response that can be sent: the path of its face is text. -/
def Sendable (r : Response) : Prop := ∀ face, r.face? = some face → face.path.text?.isSome = true

theorem toJson?_isSome_iff (r : Response) : r.toJson?.isSome = true ↔ r.Sendable := by
  obtain ⟨version, outcome⟩ := r
  cases outcome with
  | notFound =>
    refine ⟨fun _ face hface => ?_, fun _ => rfl⟩
    cases hface
  | found tier face =>
    have hpath : (toJson? ⟨version, .found tier face⟩).isSome = face.path.text?.isSome := by
      simp [toJson?, FaceSummary.toJson?, Path.toJson?]
    rw [hpath]
    constructor
    · intro h other hother
      cases hother
      exact h
    · exact fun h => h face rfl

theorem encode_sendable {r : Response} (h : r.Sendable) : ∃ payload, r.encode = .ok payload := by
  obtain ⟨v, hv⟩ := Option.isSome_iff_exists.1 ((toJson?_isSome_iff r).2 h)
  exact ⟨Text.encode v.render, by rw [encode, hv]⟩

theorem encode_not_sendable {r : Response} (h : ¬ r.Sendable) : r.encode = .error .unwritablePath := by
  rw [← toJson?_isSome_iff, Bool.not_eq_true, Option.isSome_eq_false_iff, Option.isNone_iff_eq_none] at h
  rw [encode, h]

end Response

/-- Whatever is sent is read back. -/
theorem messages_read_back :
    (∀ r : Request, Request.decode r.encode = .ok r) ∧
    (∀ q : Query, ∃ r, Request.decode (Request.ofQuery q).encode = .ok r ∧ r.toQuery = .ok q) ∧
    (∀ payload r, Request.decode payload = .ok r → Request.decode r.encode = .ok r) ∧
    ∀ r : Response,
      (r.Sendable → ∃ payload, r.encode = .ok payload ∧ Response.decode payload = .ok r) ∧
      (¬ r.Sendable → r.encode = .error .unwritablePath) := by
  refine ⟨Request.decode_encode, fun q => ⟨.ofQuery q, Request.decode_encode _, Request.toQuery_ofQuery q⟩,
    fun _ r _ => Request.decode_encode r, fun r => ⟨fun h => ?_, Response.encode_not_sendable⟩⟩
  obtain ⟨payload, hpayload⟩ := Response.encode_sendable h
  exact ⟨payload, hpayload, Response.decode_encode hpayload⟩

/-- A face with a weight and a number that are as great as can be. -/
theorem messages_read_back_greatest :
    ∃ payload, (Response.mk 7 (.found .exactWin32
        ⟨.ofString "/f/é\"\n𝔸.ttf", 4294967295, "", "", "A", 65535, true⟩)).encode = .ok payload ∧
      Response.decode payload = .ok ⟨7, .found .exactWin32
        ⟨.ofString "/f/é\"\n𝔸.ttf", 4294967295, "", "", "A", 65535, true⟩⟩ := by
  refine (messages_read_back.2.2.2 _).1 fun face hface => ?_
  cases hface
  decide

end FontCatalog.Wire
