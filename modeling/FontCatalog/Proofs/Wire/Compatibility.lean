import FontCatalog.Proofs.Catalog.Widening
import FontCatalog.Proofs.Json.Streaming
import FontCatalog.Proofs.Wire.Response

/-! What comes from a later version: documents, requests and responses with members that this version does not know
and with the known ones in any order. They mean what they mean without. -/
namespace FontCatalog.Wire
set_option autoImplicit false
open Json

/-! ## Requests -/

namespace Request

def fieldNames : List String := fields.map Shape.Field.name

variable {bs bs' : Bytes} {r : Request} {ms ms' : Outline}

/-- A request is decoded from every object with wider members. -/
theorem decode_of_wider (h : decode bs = .ok r) (hms : outline bs = .ok ms) (hms' : outline bs' = .ok ms')
    (hwider : Wider fieldNames (fun _ => Eq) ms ms') : decode bs' = .ok r := by
  have hnames : ∀ f ∈ fields, f.name ∈ fieldNames := fun f hf => List.mem_map_of_mem hf
  obtain ⟨rest, hobject⟩ := object_of_outline hms
  obtain ⟨rest', hobject'⟩ := object_of_outline hms'
  obtain ⟨us, w, hus, hknown, htree, rfl⟩ := (decode_eq_ok hobject).1 h
  rw [hms] at hus
  cases hus
  have htree' : shape.ofTree .document (.object (trees ms')) = .ok w := by
    refine Shape.record_of_wider hwider.trees hnames (fun n f _ v v' w hv hread => ?_) htree
    rw [← hv, hread]
  exact (decode_eq_ok hobject').2 ⟨ms', w, hms', Shape.knownTrees_of_wider hwider hnames hknown, htree', rfl⟩

end Request

/-! ## Responses -/

namespace FaceSummary

def fieldNames : List String :=
  ["path", "index", "full_name", "postscript_name", "win32_family_name", "weight", "italic"]

def Widened : Json → Json → Prop := Json.Widened fieldNames fun _ => Eq

theorem ofTree_widened {v v' w : Json} (h : Widened v v') (hv : shape.ofTree .aside v = .ok w) :
    shape.ofTree .aside v' = .ok w := by
  refine Shape.record_of_widened h (by simp [fieldNames]) (fun n f _ v v' w hR hread => ?_) hv
  rw [← hR, hread]

end FaceSummary

namespace Response

def fieldNames : List String := ["version", "result", "tier", "face"]

/-- More members in any order, and a face that may have more as well. -/
abbrev Wider : List (String × Json) → List (String × Json) → Prop :=
  Json.Wider fieldNames fun n v v' => v = v' ∨ n = "face" ∧ FaceSummary.Widened v v'

variable {length : Nat} {bs bs' rest : Bytes} {n : String} {v : Json} {ms ms' : List (String × Json)}
  {m m' : Members} {r : Response}

/-! ### Outcomes -/

theorem takeResult_some {result b : Bool} {acc others : List (String × Json)} :
    takeResult (some result) acc ms = .ok (b, others) ↔
      "result" ∉ names ms ∧ b = result ∧ others = acc.reverse ++ ms := by
  induction ms generalizing acc with
  | nil =>
    rw [takeResult, Except.ok.injEq, Prod.mk.injEq, List.append_nil]
    constructor
    · rintro ⟨rfl, rfl⟩
      exact ⟨List.not_mem_nil, rfl, rfl⟩
    · rintro ⟨-, rfl, rfl⟩
      exact ⟨rfl, rfl⟩
  | cons x ms ih =>
    rw [takeResult, mem_names_cons, not_or]
    split
    · next hx =>
      constructor
      · intro h
        cases h
      · rintro ⟨⟨hne, -⟩, -⟩
        exact absurd (eq_of_beq hx).symm hne
    · next hx =>
      rw [ih, List.reverse_cons, List.append_assoc]
      constructor
      · rintro ⟨hms, hb, hothers⟩
        exact ⟨⟨fun he => hx (beq_iff_eq.2 he.symm), hms⟩, hb, hothers⟩
      · rintro ⟨⟨-, hms⟩, hb, hothers⟩
        exact ⟨hms, hb, hothers⟩

theorem filter_result (h : "result" ∉ names ms) : (ms.filter fun m => m.1 != "result") = ms := by
  refine List.filter_eq_self.2 fun m hm => ?_
  have hne : m.1 ≠ "result" := fun he => h (he ▸ List.mem_map_of_mem hm)
  simpa using hne

theorem takeResult_none {b : Bool} {acc others : List (String × Json)} :
    takeResult none acc ms = .ok (b, others) ↔ (names ms).count "result" ≤ 1 ∧
      (∃ v, lookup "result" ms = some v ∧ resultOf v = .ok b) ∧
        others = acc.reverse ++ ms.filter fun m => m.1 != "result" := by
  induction ms generalizing acc with
  | nil =>
    constructor
    · intro h
      cases h
    · rintro ⟨-, ⟨v, hv, -⟩, -⟩
      cases hv
  | cons x ms ih =>
    rw [takeResult, names, List.map_cons, ← names, List.count_cons, lookup]
    by_cases hx : (x.1 == "result") = true
    · rw [if_pos hx, if_pos hx, if_pos hx, if_neg (by decide), List.filter_cons_of_neg (by simpa using hx)]
      have hcount : (names ms).count "result" + 1 ≤ 1 ↔ "result" ∉ names ms := by
        rw [← List.count_eq_zero]
        omega
      rw [hcount]
      have hsome : (∃ v, some x.2 = some v ∧ resultOf v = .ok b) ↔ resultOf x.2 = .ok b := by simp
      rw [hsome]
      cases hresult : resultOf x.2 with
      | error e =>
        constructor
        · intro h
          cases h
        · rintro ⟨-, h, -⟩
          cases h
      | ok result =>
        dsimp only
        rw [takeResult_some, Except.ok.injEq]
        constructor
        · rintro ⟨hnot, rfl, rfl⟩
          exact ⟨hnot, rfl, by rw [filter_result hnot]⟩
        · rintro ⟨hnot, rfl, rfl⟩
          exact ⟨hnot, rfl, by rw [filter_result hnot]⟩
    · rw [if_neg hx, if_neg hx, if_neg hx, ih, List.filter_cons_of_pos (by simpa using hx), List.reverse_cons,
        List.append_assoc, Nat.add_zero]
      rfl

theorem outcomeOf_eq_ok {outcome : Outcome} : outcomeOf ms = .ok outcome ↔ ∃ b v,
    (names ms).count "result" ≤ 1 ∧ lookup "result" ms = some v ∧ resultOf v = .ok b ∧
      match b with
      | false => outcome = .notFound
      | true => ∃ w, foundShape.ofTree .aside (.object (ms.filter fun m => m.1 != "result")) = .ok w ∧
          outcome = .found (((w.get? "tier").bind fun w => Tier.ofName? w.toText).getD .fuzzy)
            (w.member "face" FaceSummary.ofJson default) := by
  rw [outcomeOf]
  constructor
  · intro h
    split at h
    · cases h
    · next htake =>
      cases h
      obtain ⟨honce, ⟨v, hv, hresult⟩, -⟩ := takeResult_none.1 htake
      exact ⟨false, v, honce, hv, hresult, rfl⟩
    · next htake =>
      obtain ⟨honce, ⟨v, hv, hresult⟩, hothers⟩ := takeResult_none.1 htake
      split at h <;> cases h
      next w hshape =>
      rw [hothers, List.reverse_nil, List.nil_append] at hshape
      exact ⟨true, v, honce, hv, hresult, w, hshape, rfl⟩
  · rintro ⟨b, v, honce, hv, hresult, houtcome⟩
    rw [takeResult_none.2 ⟨honce, ⟨v, hv, hresult⟩, rfl⟩]
    cases b with
    | false =>
      cases houtcome
      rfl
    | true =>
      obtain ⟨w, hshape, rfl⟩ := houtcome
      dsimp only
      rw [List.reverse_nil, List.nil_append, hshape]

theorem lookup_of_wider (h : Wider ms ms') (hn : n ∈ fieldNames) (hface : n ≠ "face")
    (honce : (names ms).count n ≤ 1) : (names ms').count n ≤ 1 ∧ lookup n ms' = lookup n ms := by
  have hwanted : ∀ k ∈ [n], k ∈ fieldNames := List.forall_mem_singleton.2 hn
  have halike := h.alike hwanted (List.forall_mem_singleton.2 honce)
  refine ⟨halike.once' n (by simp), ?_⟩
  have hrelated := halike.related n (by simp)
  generalize lookup n ms = x at hrelated ⊢
  generalize lookup n ms' = x' at hrelated ⊢
  cases hrelated with
  | none => rfl
  | some hR =>
    rcases hR with rfl | ⟨hn, -⟩
    · rfl
    · exact absurd hn hface

theorem outcomeOf_of_wider {outcome : Outcome} (h : Wider ms ms') (hms : outcomeOf ms = .ok outcome) :
    outcomeOf ms' = .ok outcome := by
  obtain ⟨b, v, honce, hv, hresult, houtcome⟩ := outcomeOf_eq_ok.1 hms
  obtain ⟨honce', hlookup⟩ := lookup_of_wider h (by simp [fieldNames]) (by decide) honce
  refine outcomeOf_eq_ok.2 ⟨b, v, honce', by rw [hlookup, hv], hresult, ?_⟩
  cases b with
  | false => exact houtcome
  | true =>
    obtain ⟨w, hshape, houtcome⟩ := houtcome
    refine ⟨w, ?_, houtcome⟩
    refine Shape.record_of_wider (h.filter fun n => n != "result") (by simp [fieldNames]) ?_ hshape
    intro n f hf v v' w hR hread
    rcases hR with rfl | ⟨rfl, hface⟩
    · exact hread
    · cases hf
      exact FaceSummary.ofTree_widened hface hread

theorem says_of_wider (h : Wider ms ms') (hms : Says ms r) : Says ms' r := by
  obtain ⟨honce, ⟨v, w, hv, hw, hr⟩, houtcome⟩ := hms
  obtain ⟨honce', hlookup⟩ := lookup_of_wider h (by simp [fieldNames]) (by decide) honce
  exact ⟨honce', ⟨v, w, by rw [hlookup, hv], hw, hr⟩, outcomeOf_of_wider (h.filter fun n => n != "version") houtcome⟩

end Response

/-! ## All that is read -/

/-- Members with unknown names and another order of the members change nothing that is read: in a document in which
no object has a name twice, in a request and in a response, in the outer object and in those inside. -/
theorem unknown_members_ignored :
    (∀ (bs : Bytes) (c : Catalog), Catalog.deserialize bs = .ok c → ∃ v, parse bs = .ok v ∧
      (v.Distinct → ∀ (bs' : Bytes) (v' : Json), parse bs' = .ok v' → Catalog.Widened v v' →
        Catalog.deserialize bs' = .ok c)) ∧
    (∀ (bs rest : Bytes) (r : Request), skipSpace bs = byte '\x7b' :: rest → Request.decode bs = .ok r →
      ∃ ms, outline bs = .ok ms ∧ ∀ (bs' : Bytes) (ms' : Outline), outline bs' = .ok ms' →
        Wider Request.fieldNames (fun _ => Eq) ms ms' → Request.decode bs' = .ok r) ∧
    (∀ (bs : Bytes) (r : Response), Response.decode bs = .ok r → ∃ ms, outline bs = .ok (whole ms) ∧
      ∀ (bs' : Bytes) (ms' : List (String × Json)), outline bs' = .ok (whole ms') → Response.Wider ms ms' →
        Response.decode bs' = .ok r) := by
  refine ⟨?_, ?_, ?_⟩
  · intro bs c hc
    obtain ⟨v, hv⟩ := Catalog.exists_parse hc
    exact ⟨v, hv, fun hdistinct bs' v' hv' hwider => Catalog.deserialize_widened hv hv' hwider hdistinct hc⟩
  · intro bs rest r hobject hr
    obtain ⟨ms, w, hms, -⟩ := (Request.decode_eq_ok hobject).1 hr
    exact ⟨ms, hms, fun bs' ms' hms' hwider => Request.decode_of_wider hr hms hms' hwider⟩
  · intro bs r hr
    obtain ⟨ms, hms, hsays⟩ := Response.decode_eq_ok.1 hr
    exact ⟨ms, hms, fun bs' ms' hms' hwider =>
      Response.decode_eq_ok.2 ⟨ms', hms', Response.says_of_wider hwider hsays⟩⟩

/-! ### A later response -/

def summary : FaceSummary := ⟨.ofString "/a", 0, "A", "A", "A", 400, false⟩

def summaryMembers : List (String × Json) :=
  [("path", .text "/a"), ("index", .nat 0), ("full_name", .text "A"), ("postscript_name", .text "A"),
    ("win32_family_name", .text "A"), ("weight", .nat 400), ("italic", .bool false)]

/-- A response with its members from the first to the last, or from the last to the first. -/
def responseMembers (face : Json) : List (String × Json) :=
  [("version", .nat 1), ("result", .text "found"), ("tier", .text "fuzzy"), ("face", face)]

/-- The same face with a member more, from the last member to the first. -/
def laterSummary : Json := .object (summaryMembers ++ [("axes", Json.list [])]).reverse

def laterResponse : Json := .object (responseMembers laterSummary ++ [("score", Json.object [])]).reverse

theorem plain_summaryMembers (depth : Nat) : ∀ m ∈ summaryMembers, m.2.Plain depth := by
  have hplain : (Json.object summaryMembers).Plain (depth + 1) := summary.plain_jsonWith "/a" depth
  cases hplain with
  | object h => exact h

theorem plain_responseMembers {depth : Nat} {face : Json} (h : face.Plain depth) :
    ∀ m ∈ responseMembers face, m.2.Plain depth := by
  intro m hm
  simp only [responseMembers, List.mem_cons, List.not_mem_nil, or_false] at hm
  rcases hm with rfl | rfl | rfl | rfl
  · exact .integer (by decide) (by decide)
  · exact .text _
  · exact .text _
  · exact h

theorem plain_later {depth : Nat} {ms : List (String × Json)} {m : String × Json} (hms : ∀ n ∈ ms, n.2.Plain depth)
    (hm : m.2.Plain depth) : (Json.object (ms ++ [m]).reverse).Plain (depth + 1) := by
  refine .object fun n hn => ?_
  rcases List.mem_append.1 (List.mem_reverse.1 hn) with hn | hn
  · exact hms n hn
  · rw [List.mem_singleton.1 hn]
    exact hm

/-- A response with the result behind the face, and with more members in it and in the face. -/
theorem unknown_members_ignored_later :
    Response.decode (laterResponse.spell compact 0) = .ok ⟨1, .found .fuzzy summary⟩ := by
  have hface : (Json.object summaryMembers).Plain 126 := .object (plain_summaryMembers 125)
  have hnone : (Json.list []).Plain 125 := .list (List.forall_mem_nil _)
  have hempty : (Json.object []).Plain 126 := .object (List.forall_mem_nil _)
  have hlaterFace : laterSummary.Plain 126 := plain_later (plain_summaryMembers 125) hnone
  have hplain : (Json.object (responseMembers (.object summaryMembers))).Plain maxDepth :=
    .object (plain_responseMembers hface)
  have hlater : laterResponse.Plain maxDepth :=
    plain_later (plain_responseMembers hlaterFace) hempty
  have hdecode : Response.decode ((Json.object (responseMembers (.object summaryMembers))).spell compact 0) =
      .ok ⟨1, .found .fuzzy summary⟩ :=
    Response.decode_toJson rfl compact 0
  obtain ⟨ms, hms, hcompatible⟩ := unknown_members_ignored.2.2 _ _ hdecode
  rw [outline_spell hplain, Except.ok.injEq] at hms
  rw [← whole_unique rfl hms] at hcompatible
  refine hcompatible _ _ (outline_spell hlater compact 0) ⟨_, _, ?_, ?_, List.reverse_perm _⟩
  · have hwidened : FaceSummary.Widened (.object summaryMembers) laterSummary :=
      .object (wider_eq_iff.2 ⟨[("axes", .list [])], by simp [FaceSummary.fieldNames], List.reverse_perm _⟩)
    exact .cons ⟨rfl, .inl rfl⟩ (.cons ⟨rfl, .inl rfl⟩ (.cons ⟨rfl, .inl rfl⟩
      (.cons ⟨rfl, .inr ⟨rfl, hwidened⟩⟩ .nil)))
  · simp [Response.fieldNames]

end FontCatalog.Wire
