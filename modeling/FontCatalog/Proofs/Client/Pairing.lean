import FontCatalog.Proofs.Client.Dialogue

/-! Which calls get their own responses: all of them, unless a call is broken off. Then calls may follow
that get the responses to earlier ones. -/
namespace FontCatalog.Dialogue
set_option autoImplicit false
open Wire

/-! ## Responses that belong to other calls -/

/-- A short request, and a client that waits for the response. -/
def prompt (reply : Bytes) (h : reply.length ≤ defaultMaxFrame) : Call :=
  ⟨⟨"", {}⟩, reply, Nat.le_trans h (by decide), none⟩

theorem prompt_sent {reply : Bytes} (h : reply.length ≤ defaultMaxFrame) : (prompt reply h).Sent := by
  have hshort : (Request.ofQuery ⟨"", {}⟩).encode.length ≤ maxLength := by
    rw [Request.encode, Json.encode_render]
    decide
  exact ⟨_, writeFrame_eq hshort⟩

theorem prompt_unbroken {reply : Bytes} (h : reply.length ≤ defaultMaxFrame) :
    ¬ (prompt reply h).BrokenOff := by
  rintro ⟨-, hlong | ⟨n, htime, -⟩⟩
  · exact absurd h (Nat.not_le.2 hlong)
  · cases htime

/-- The payload of the response that nothing was found. -/
def nothingReply : Bytes :=
  Text.encode (Json.object [("version", .nat 1), ("result", .text "not_found")]).render

/-- A response with a face. -/
def faceJson : Json :=
  .object [("version", .nat 1), ("result", .text "found"), ("tier", .text "fuzzy"),
    ("face", .object [("path", .text ""), ("index", .nat 0), ("full_name", .text ""),
      ("postscript_name", .text ""), ("win32_family_name", .text ""), ("weight", .nat 400),
      ("italic", .bool false)])]

def faceReply : Bytes := Text.encode faceJson.render

theorem encode_nothingReply : (Response.ofAnswer .notFound).encode = .ok nothingReply := rfl

theorem encode_faceReply : (Response.ofAnswer (.found default .fuzzy)).encode = .ok faceReply := by
  have hjson : (Response.ofAnswer (.found default .fuzzy)).toJson? = some faceJson := rfl
  rw [Response.encode, hjson, faceReply]

theorem nothingReply_short : nothingReply.length ≤ defaultMaxFrame := by
  rw [nothingReply, Json.encode_render]
  decide

theorem faceReply_short : faceReply.length ≤ defaultMaxFrame := by
  rw [faceReply, Json.encode_render]
  decide +kernel

attribute [irreducible] nothingReply faceReply

theorem responseOf_faceReply_ne : Client.responseOf faceReply ≠ Client.responseOf nothingReply := by
  rw [Client.responseOf_encode encode_faceReply, Client.responseOf_encode encode_nothingReply]
  intro heq
  cases heq

/-- With another response before its own, a call gets that one. -/
theorem not_paired_before {d : Dialogue} (hmax : d.client.maxFrame = defaultMaxFrame) (rest : Bytes)
    (h : d.leftover = frame nothingReply ++ rest) : ¬ d.Paired [prompt faceReply faceReply_short] := by
  intro hpaired
  have hanother : (d.call (prompt faceReply faceReply_short)).1 = Client.responseOf nothingReply :=
    congrArg Prod.fst (call_frame (prompt_sent _) rfl (prompt nothingReply nothingReply_short).fits
      (nothingReply_short.trans_eq hmax.symm) h)
  have hown := hpaired.1 (.ofAnswer .notFound)
  rw [hanother, Client.responseOf_encode encode_nothingReply] at hown
  exact responseOf_faceReply_ne ((hown rfl).trans (Client.responseOf_encode encode_nothingReply).symm)

/-- With an empty frame before responses that are all the same, the next call but one gets such a
response and not its own. -/
theorem not_paired_behind {d : Dialogue} (hmax : d.client.maxFrame = defaultMaxFrame) {k : Nat}
    (h : d.leftover = frame [] ++ (List.replicate k (frame nothingReply)).flatten) :
    ¬ d.Paired [prompt nothingReply nothingReply_short, prompt faceReply faceReply_short] := by
  intro hpaired
  have hnil := call_frame (prompt_sent nothingReply_short) rfl (Nat.zero_le _) (Nat.zero_le _) h
  have hqueue : (List.replicate k (frame nothingReply)).flatten ++ frame nothingReply ++ [] =
      frame nothingReply ++ (List.replicate k (frame nothingReply)).flatten := by
    rw [List.append_nil, ← List.flatten_cons, ← List.replicate_succ, List.replicate_succ',
      List.flatten_append, List.flatten_singleton]
  have hlast := hpaired.2
  rw [hnil] at hlast
  refine not_paired_before ?_ (List.replicate k (frame nothingReply)).flatten ?_ hlast
  · exact hmax
  · exact hqueue

/-- Whatever a call that is broken off has left, there are calls after it that are not broken off and
end in one that gets the response to another. -/
theorem exists_mispaired {d : Dialogue} (hmax : d.client.maxFrame = defaultMaxFrame)
    (hleftover : d.leftover ≠ []) :
    ∃ later, (∀ c ∈ later, ¬ c.BrokenOff) ∧ ¬ d.Paired later := by
  obtain ⟨payload, k, hpayload, hdrain⟩ := exists_frame_after d.leftover
  cases k with
  | zero =>
    have hlength := congrArg List.length (Option.some.inj hdrain)
    rw [List.length_append, length_frame, length_frame, List.length_nil] at hlength
    exact absurd (List.length_eq_zero_iff.1 (by omega)) hleftover
  | succ k =>
    obtain ⟨left, hleft, hrest⟩ := Option.bind_eq_some_iff.1 hdrain
    rw [← hmax] at hleft hrest
    -- The first call completes what was left; calls like the second then queue up behind a frame.
    obtain ⟨hone, hmaxOne⟩ := call_prompt (c := prompt payload hpayload) (prompt_sent hpayload) rfl hleft
    rw [← hone, ← hmaxOne] at hrest
    obtain ⟨hmany, hmaxMany⟩ := after_replicate (prompt_sent nothingReply_short) rfl hrest
    rw [hmaxOne, hmax] at hmaxMany
    refine ⟨prompt payload hpayload :: (List.replicate k (prompt nothingReply nothingReply_short) ++
        [prompt nothingReply nothingReply_short, prompt faceReply faceReply_short]),
      fun c hc => ?_, fun hpaired => ?_⟩
    · simp only [List.mem_cons, List.mem_append, List.mem_replicate, List.not_mem_nil, or_false] at hc
      rcases hc with rfl | ⟨-, rfl⟩ | rfl | rfl <;> exact prompt_unbroken _
    · exact not_paired_behind hmaxMany hmany ((paired_append _ _ _).1 hpaired.2).2

/-- Calls that are not broken off get their own responses, whatever the last one does. -/
theorem paired_unbroken {calls : List Call} (h : ∀ c ∈ calls.dropLast, ¬ c.BrokenOff) :
    Paired {} calls := by
  induction calls with
  | nil => trivial
  | cons c calls ih =>
    by_cases hbroken : c.BrokenOff
    · -- Only the last call may be broken off.
      cases calls with
      | nil =>
        obtain ⟨⟨e, he⟩, -⟩ := call_brokenOff hbroken
        refine ⟨fun r hr => ?_, trivial⟩
        rw [he] at hr
        cases hr
      | cons next calls => exact absurd hbroken (h c List.mem_cons_self)
    · obtain ⟨hstart, hown⟩ := call_start hbroken
      refine ⟨hown, ?_⟩
      rw [hstart]
      refine ih fun p hp => h p ?_
      cases calls with
      | nil => cases hp
      | cons next calls => exact List.mem_cons_of_mem _ hp

theorem exists_mispaired_of_brokenOff {calls : List Call} {c : Call} (hmem : c ∈ calls)
    (hbroken : c.BrokenOff) :
    ∃ (k : Nat) (later : List Call), (∀ p ∈ later, ¬ p.BrokenOff) ∧
      ¬ Paired {} (calls.take k ++ later) := by
  induction calls with
  | nil => cases hmem
  | cons first calls ih =>
    by_cases hfirst : first.BrokenOff
    · obtain ⟨-, hleftover, hmax⟩ := call_brokenOff hfirst
      obtain ⟨later, hlater, hnot⟩ := exists_mispaired hmax hleftover
      exact ⟨1, later, hlater, fun hpaired => hnot hpaired.2⟩
    · have hrest : c ∈ calls := by
        rcases List.mem_cons.1 hmem with rfl | hrest
        · exact absurd hbroken hfirst
        · exact hrest
      obtain ⟨k, later, hlater, hnot⟩ := ih hrest
      refine ⟨k + 1, later, hlater, fun hpaired => hnot ?_⟩
      have htail := hpaired.2
      rwa [(call_start hfirst).1] at htail

/-- Every call gets its own response, with any calls to follow that are not broken off before the last,
if and only if no call is broken off. -/
theorem paired_iff_unbroken (calls : List Call) :
    (∀ (k : Nat) (later : List Call), (∀ c ∈ later.dropLast, ¬ c.BrokenOff) →
      Paired {} (calls.take k ++ later)) ↔ ∀ c ∈ calls, ¬ c.BrokenOff := by
  constructor
  · intro h c hc hbroken
    obtain ⟨k, later, hlater, hnot⟩ := exists_mispaired_of_brokenOff hc hbroken
    exact hnot (h k later fun p hp => hlater p (List.dropLast_subset _ hp))
  · intro h k later hlater
    have htake : ∀ c ∈ calls.take k, ¬ c.BrokenOff := fun c hc => h c (List.mem_of_mem_take hc)
    rw [paired_append, after_unbroken htake]
    exact ⟨paired_unbroken fun c hc => htake c (List.dropLast_subset _ hc), paired_unbroken hlater⟩

/-! ## A response that is too long -/

/-- After a response that is too long and begins with the frame of another, the next call gets that
one. -/
theorem not_paired_tooLarge {reply rest : Bytes} (hreply : reply = frame nothingReply ++ rest)
    (hfits : reply.length ≤ maxLength) (hlong : defaultMaxFrame < reply.length) :
    ¬ Paired {} [⟨⟨"", {}⟩, reply, hfits, none⟩, prompt faceReply faceReply_short] := by
  have hsent : Call.Sent ⟨⟨"", {}⟩, reply, hfits, none⟩ := prompt_sent nothingReply_short
  have hfour : 4 ≤ (frame reply).length := by
    rw [length_frame]
    exact Nat.le_add_right ..
  obtain ⟨-, hleftover, hmax⟩ := call_tooLarge hsent hlong hfour
  intro hpaired
  exact not_paired_before hmax rest (hleftover.trans hreply) hpaired.2

/-- A payload that is too long: its first frame, and many that follow, stand before the next
response. -/
def longReply : Bytes :=
  frame nothingReply ++ (List.replicate 99864 (encodeLength 4194326 ++ frame nothingReply)).flatten

theorem length_longReply : longReply.length = 4194326 := by
  have hlength : (frame nothingReply).length = 38 := by
    rw [length_frame, nothingReply, Json.encode_render]
    decide
  rw [longReply, List.length_append, List.length_flatten, List.map_replicate, List.length_append, hlength,
    length_encodeLength, List.sum_replicate_nat]

theorem longReply_fits : longReply.length ≤ maxLength := by
  rw [length_longReply]
  decide

theorem not_paired_longReply :
    ¬ Paired {} [⟨⟨"", {}⟩, longReply, longReply_fits, none⟩, prompt faceReply faceReply_short] := by
  have hlong : defaultMaxFrame < longReply.length := by
    rw [length_longReply]
    decide
  exact not_paired_tooLarge rfl longReply_fits hlong

end FontCatalog.Dialogue
