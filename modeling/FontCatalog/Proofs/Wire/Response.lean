import FontCatalog.Proofs.Face.Json
import FontCatalog.Proofs.Wire.Request
import FontCatalog.Wire.Response

/-! What the members of an object must say to be a response. Responses are read back from what is sent, if the path
of the face is UTF-8; otherwise nothing is sent. -/
namespace FontCatalog.Wire
set_option autoImplicit false
open Json

/-! ## Summaries -/

namespace FaceSummary

/-- The JSON of a summary with this text for the path. -/
def jsonWith (s : FaceSummary) (path : String) : Json :=
  .object [("path", .text path), ("index", .nat s.index.toNat), ("full_name", .text s.fullName),
    ("postscript_name", .text s.postscriptName), ("win32_family_name", .text s.win32Family),
    ("weight", .nat s.weight.toNat), ("italic", .bool s.italic)]

theorem toJson?_eq_some {s : FaceSummary} {v : Json} (h : s.toJson? = some v) :
    ∃ path, s.path.text? = some path ∧ v = s.jsonWith path := by
  rw [toJson?, Path.toJson?, Option.map_map] at h
  obtain ⟨path, hpath, rfl⟩ := Option.map_eq_some_iff.1 h
  exact ⟨path, hpath, rfl⟩

theorem shape_ofTree (s : FaceSummary) (path : String) (origin : Origin) :
    shape.ofTree origin (s.jsonWith path) = .ok (s.jsonWith path) := by
  have hnames : (["path", "index", "full_name", "postscript_name", "win32_family_name", "weight",
    "italic"] : List String).Nodup := by decide
  rw [jsonWith, shape]
  refine (Shape.record_ofTree_self ?_ ?_).trans rfl
  · exact hnames
  · intro f hf
    simp only [List.mem_cons, List.not_mem_nil, or_false] at hf
    rcases hf with rfl | rfl | rfl | rfl | rfl | rfl | rfl
    · exact ⟨.text path, rfl, rfl⟩
    · exact ⟨_, rfl, Shape.word_ofTree s.index.toNat_lt origin⟩
    · exact ⟨.text s.fullName, rfl, rfl⟩
    · exact ⟨.text s.postscriptName, rfl, rfl⟩
    · exact ⟨.text s.win32Family, rfl, rfl⟩
    · exact ⟨_, rfl, Shape.word_ofTree s.weight.toNat_lt origin⟩
    · exact ⟨.bool s.italic, rfl, rfl⟩

theorem ofJson_jsonWith {s : FaceSummary} {path : String} (h : s.path.text? = some path) :
    ofJson (s.jsonWith path) = s := by
  have hpath := Path.ofString_text? h
  have hindex : (Int.toNat s.index.toNat).toUInt32 = s.index := by simp
  have hweight : (Int.toNat s.weight.toNat).toUInt16 = s.weight := by simp
  calc ofJson (s.jsonWith path)
    _ = ⟨.ofString path, (Int.toNat s.index.toNat).toUInt32, s.fullName, s.postscriptName,
          s.win32Family, (Int.toNat s.weight.toNat).toUInt16, s.italic⟩ := rfl
    _ = s := by rw [hpath, hindex, hweight]

theorem plain_jsonWith (s : FaceSummary) (path : String) (depth : Nat) :
    (s.jsonWith path).Plain (depth + 1) := by
  refine .object fun m hm => ?_
  simp only [List.mem_cons, List.not_mem_nil, or_false] at hm
  have hindex := s.index.toNat_lt
  have hweight := s.weight.toNat_lt
  rcases hm with rfl | rfl | rfl | rfl | rfl | rfl | rfl
  · exact .text _
  · exact .integer (by omega) (by omega)
  · exact .text _
  · exact .text _
  · exact .text _
  · exact .integer (by omega) (by omega)
  · exact .bool _

end FaceSummary

namespace Response

variable {length : Nat} {bs rest : Bytes} {n : String} {ms : List (String × Json)} {m m' : Members} {r : Response}

/-! ## Members -/

/-- What has been read of the members of an outline, the last of which comes first. -/
structure Took (us : Outline) (m : Members) : Prop where
  all : ∀ x ∈ us, x.2.isSome = true
  once : (names (trees us)).count "version" ≤ 1
  version : Option.Rel (fun v w => Shape.word32.ofTree .document v = .ok w) (lookup "version" (trees us)) m.version
  others : m.others = (trees us).filter fun m => m.1 != "version"

/-- One more member, read at once if it is the version. -/
inductive Takes (m : Members) (n : String) : Option Json → Members → Prop
  | version {v w : Json} (hn : n = "version") (hnew : m.version = none)
    (hw : Shape.word32.ofTree .document v = .ok w) : Takes m n (some v) { m with version := some w }
  | other {v : Json} (hn : n ≠ "version") : Takes m n (some v) { m with others := (n, v) :: m.others }

theorem readMember_eq_ok :
    readMember length m n bs = .ok (m', rest) ↔ ∃ o, Entry length bs o rest ∧ Takes m n o m' := by
  have hword : Shape.word32.ReadsTrees := Shape.word_readsTrees 32 "u32"
  rw [readMember]
  constructor
  · intro h
    split at h
    · next hn =>
      split at h
      · cases h
      next hnew =>
      split at h
      · cases h
      next mid hcolon =>
      split at h <;> cases h
      next w htext =>
      obtain ⟨v, hread, hof⟩ := (hword length (maxDepth - 1) mid w rest).1 htext
      exact ⟨some v, .tree hcolon hread, .version (eq_of_beq hn) (Option.not_isSome_iff_eq_none.1 hnew) hof⟩
    · next hn =>
      split at h
      · cases h
      next mid hcolon =>
      split at h <;> cases h
      next v hread => exact ⟨some v, .tree hcolon hread, .other fun he => hn (beq_iff_eq.2 he)⟩
  · rintro ⟨o, hentry, htakes⟩
    cases htakes with
    | @version v w hn hnew hw =>
      cases hentry with
      | tree hcolon hread =>
        have htext := (hword length (maxDepth - 1) _ w rest).2 ⟨v, hread, hw⟩
        rw [if_pos (beq_iff_eq.2 hn), hnew, if_neg (by decide), hcolon]
        dsimp only
        rw [htext]
    | other hn =>
      cases hentry with
      | tree hcolon hread =>
        rw [if_neg fun he => hn (beq_iff_eq.1 he), hcolon]
        dsimp only
        rw [hread]

theorem took_cons {us : Outline} {o : Option Json} :
    Took ((n, o) :: us) m' ↔ ∃ m, Took us m ∧ Takes m n o m' := by
  constructor
  · rintro ⟨hall, honce, hversion, hothers⟩
    obtain ⟨hsome, hrest⟩ := List.forall_mem_cons.1 hall
    obtain ⟨v, rfl⟩ := Option.isSome_iff_exists.1 hsome
    have htrees : trees ((n, some v) :: us) = (n, v) :: trees us := rfl
    rw [htrees, names, List.map_cons, ← names, List.count_cons] at honce
    rw [htrees, lookup] at hversion
    rw [htrees] at hothers
    obtain ⟨version, others⟩ := m'
    by_cases hn : n = "version"
    · subst hn
      rw [if_pos (beq_self_eq_true _)] at honce
      rw [if_pos (beq_self_eq_true _)] at hversion
      have hnot : "version" ∉ names (trees us) := List.count_eq_zero.1 (by omega)
      rw [List.filter_cons_of_neg (by simp)] at hothers
      have htook : Took us ⟨none, others⟩ :=
        ⟨hrest, by omega, by rw [lookup_eq_none hnot]; exact .none, hothers⟩
      cases hversion with
      | some hw => exact ⟨_, htook, .version rfl rfl hw⟩
    · have hne : ¬ (n == "version") = true := fun he => hn (beq_iff_eq.1 he)
      rw [if_neg hne] at honce
      rw [if_neg hne] at hversion
      rw [List.filter_cons_of_pos (by simpa using hn)] at hothers
      cases hothers
      exact ⟨⟨version, (trees us).filter fun m => m.1 != "version"⟩, ⟨hrest, honce, hversion, rfl⟩, .other hn⟩
  · rintro ⟨m, ⟨hall, honce, hversion, hothers⟩, htakes⟩
    cases htakes with
    | @version v w hn hnew hw =>
      have htrees : trees ((n, some v) :: us) = (n, v) :: trees us := rfl
      subst hn
      rw [hnew] at hversion
      have hnone : lookup "version" (trees us) = none := by
        generalize lookup "version" (trees us) = x at hversion
        cases hversion
        rfl
      refine ⟨List.forall_mem_cons.2 ⟨rfl, hall⟩, ?_, ?_, ?_⟩
      · rw [htrees, names, List.map_cons, ← names, List.count_cons, List.count_eq_zero.2 (not_mem_names hnone)]
        exact Nat.le_refl 1
      · rw [htrees, lookup, if_pos (beq_self_eq_true _)]
        exact .some hw
      · rw [htrees, List.filter_cons_of_neg (by simp), hothers]
    | @other v hn =>
      have htrees : trees ((n, some v) :: us) = (n, v) :: trees us := rfl
      have hne : ¬ (n == "version") = true := fun he => hn (beq_iff_eq.1 he)
      refine ⟨List.forall_mem_cons.2 ⟨rfl, hall⟩, ?_, ?_, ?_⟩
      · rw [htrees, names, List.map_cons, ← names, List.count_cons, if_neg hne]
        exact honce
      · rw [htrees, lookup, if_neg hne]
        exact hversion
      · rw [htrees, List.filter_cons_of_pos (by simpa using hn), hothers]

theorem took_unique {us : Outline} (h : Took us m) (h' : Took us m') : m = m' := by
  obtain ⟨-, -, hversion, hothers⟩ := h
  obtain ⟨-, -, hversion', hothers'⟩ := h'
  obtain ⟨version, others⟩ := m
  obtain ⟨version', others'⟩ := m'
  dsimp only at hversion hversion' hothers hothers'
  rw [hothers, hothers']
  generalize lookup "version" (trees us) = x at hversion hversion'
  cases hversion with
  | none =>
    cases hversion'
    rfl
  | some hw =>
    cases hversion' with
    | some hw' =>
      rw [hw] at hw'
      cases hw'
      rfl

theorem readMembers_eq_ok {fuel : Nat} (hbs : bs.length ≤ length) :
    readMembers length (readMember length) fuel true {} bs = .ok (m, rest) ↔
      ∃ us, readMembers length (outlineMember length) fuel true [] bs = .ok (us, rest) ∧ Took us m :=
  readMembers_outline (fun _ => readMember_eq_ok) took_cons took_unique
    ⟨List.forall_mem_nil _, Nat.zero_le 1, .none, rfl⟩ hbs

/-! ## What members say -/

/-- What members say, if the version is there once and the others make an outcome. -/
structure Says (ms : List (String × Json)) (r : Response) : Prop where
  once : (names ms).count "version" ≤ 1
  version : ∃ v w, lookup "version" ms = some v ∧ Shape.word32.ofTree .document v = .ok w ∧
    r.version = w.toNat.toUInt32
  outcome : outcomeOf (ms.filter fun m => m.1 != "version") = .ok r.outcome

theorem says_of_took {us : Outline} {w : Json} {outcome : Outcome} (h : Took us m) (hversion : m.version = some w)
    (houtcome : outcomeOf m.others.reverse = .ok outcome) :
    Says (trees us.reverse) ⟨w.toNat.toUInt32, outcome⟩ := by
  obtain ⟨-, honce, hrelated, hothers⟩ := h
  have hperm : (trees us).Perm (trees us.reverse) := by
    rw [trees_reverse]
    exact (List.reverse_perm _).symm
  refine ⟨?_, ?_, ?_⟩
  · exact (hperm.map Prod.fst).count_eq "version" ▸ honce
  · rw [hversion, lookup_perm_once honce hperm] at hrelated
    generalize lookup "version" (trees us.reverse) = x at hrelated ⊢
    cases hrelated with
    | some hw => exact ⟨_, w, rfl, hw, rfl⟩
  · rw [trees_reverse, List.filter_reverse, ← hothers]
    exact houtcome

theorem took_of_says (h : Says ms r) : ∃ m w, Took (whole ms).reverse m ∧ m.version = some w ∧
    r.version = w.toNat.toUInt32 ∧ outcomeOf m.others.reverse = .ok r.outcome := by
  obtain ⟨honce, ⟨v, w, hv, hw, hr⟩, houtcome⟩ := h
  have htrees : trees (whole ms).reverse = ms.reverse := by rw [trees_reverse, trees_whole]
  have hperm : ms.Perm ms.reverse := (List.reverse_perm _).symm
  refine ⟨⟨some w, ms.reverse.filter fun m => m.1 != "version"⟩, w, ⟨?_, ?_, ?_, ?_⟩, rfl, hr, ?_⟩
  · intro x hx
    obtain ⟨y, -, rfl⟩ := List.mem_map.1 (List.mem_reverse.1 hx)
    rfl
  · rw [htrees]
    exact (hperm.map Prod.fst).count_eq "version" ▸ honce
  · rw [htrees, ← lookup_perm_once honce hperm, hv]
    exact .some hw
  · rw [htrees]
  · rw [List.filter_reverse, List.reverse_reverse]
    exact houtcome

theorem decode_eq_ok : decode bs = .ok r ↔ ∃ ms, outline bs = .ok (whole ms) ∧ Says ms r := by
  have hdecode : decode bs = .ok r ↔ finish (readResponse bs.length bs) = .ok r := by
    rw [decode]
    constructor
    · intro h
      split at h <;> cases h
      assumption
    · intro h
      rw [h]
  rw [hdecode, finish_eq_ok]
  constructor
  · rintro ⟨rest, h, hrest⟩
    unfold readResponse at h
    split at h
    · cases h
    next b t hbs =>
    split at h
    · next hb =>
      split at h
      · cases h
      next m rest' hread =>
      split at h
      · cases h
      next w hversion =>
      split at h <;> cases h
      next houtcome =>
      have hlength := length_of_skipSpace hbs
      obtain ⟨us, hus, htook⟩ := (readMembers_eq_ok (Nat.le_of_lt hlength)).1 hread
      refine ⟨trees us.reverse, ?_, says_of_took htook hversion houtcome⟩
      rw [whole_trees fun x hx => htook.all x (List.mem_reverse.1 hx)]
      refine finish_eq_ok.2 ⟨rest, ?_, hrest⟩
      rw [readOutline, hbs]
      dsimp only
      rw [if_pos hb, hus]
    · split at h <;> cases h
  · rintro ⟨ms, houtline, hsays⟩
    obtain ⟨rest, hread, hrest⟩ := finish_eq_ok.1 houtline
    refine ⟨rest, ?_, hrest⟩
    unfold readOutline at hread
    split at hread
    · cases hread
    next b t hbs =>
    split at hread
    · next hb =>
      split at hread
      · cases hread
      next us rest' hus =>
      rw [Except.ok.injEq, Prod.mk.injEq] at hread
      obtain ⟨hwhole, rfl⟩ := hread
      have hlength := length_of_skipSpace hbs
      obtain ⟨m, w, htook, hversion, hr, houtcome⟩ := took_of_says hsays
      rw [← hwhole, List.reverse_reverse] at htook
      have hmembers := (readMembers_eq_ok (Nat.le_of_lt hlength)).2 ⟨us, hus, htook⟩
      rw [readResponse, hbs]
      dsimp only
      rw [if_pos hb, hmembers]
      dsimp only
      rw [hversion]
      dsimp only
      rw [houtcome, ← hr]
    · cases hread

theorem toNat_version (version : UInt32) : (Json.nat version.toNat).toNat.toUInt32 = version := by
  show (Int.toNat version.toNat).toUInt32 = version
  simp

theorem plain_version (version : UInt32) (depth : Nat) : (Json.nat version.toNat).Plain depth := by
  have hlt := version.toNat_lt
  exact .integer (by omega) (by omega)

/-- The text of a version and other members is read as a response, if these make an outcome. -/
theorem decode_spell (version : UInt32) {others : List (String × Json)}
    (hname : ∀ m ∈ others, (m.1 == "version") = false)
    (hplain : ∀ m ∈ others, m.2.Plain (maxDepth - 1)) {outcome : Outcome}
    (houtcome : outcomeOf others = .ok outcome) (l : Layout) (k : Nat) :
    decode ((Json.object (("version", .nat version.toNat) :: others)).spell l k) =
      .ok ⟨version, outcome⟩ := by
  have hwhole : (Json.object (("version", .nat version.toNat) :: others)).Plain maxDepth :=
    .object (List.forall_mem_cons.2 ⟨plain_version version _, hplain⟩)
  have hnot : "version" ∉ names others := by
    intro hmem
    obtain ⟨m, hm, hversion⟩ := List.mem_map.1 hmem
    have hne := hname m hm
    rw [hversion] at hne
    cases hne
  have hothers : (others.filter fun m => m.1 != "version") = others :=
    List.filter_eq_self.2 fun m hm => by rw [bne, hname m hm]; rfl
  refine decode_eq_ok.2 ⟨_, outline_spell hwhole l k, ?_, ?_, ?_⟩
  · rw [names, List.map_cons, ← names, List.count_cons, List.count_eq_zero.2 hnot]
    exact Nat.le_refl 1
  · exact ⟨_, _, rfl, Shape.word_ofTree version.toNat_lt .document, (toNat_version version).symm⟩
  · rw [List.filter_cons_of_neg (by simp), hothers]
    exact houtcome

/-! ## Outcomes -/

theorem tier_ofTree (t : Tier) (origin : Origin) :
    tierShape.ofTree origin (.text t.name) = .ok (.text t.name) := by
  cases t <;> rfl

theorem ofName?_name (t : Tier) : Tier.ofName? t.name = some t := by
  cases t <;> rfl

theorem outcomeOf_found (t : Tier) {face : FaceSummary} {path : String}
    (h : face.path.text? = some path) :
    outcomeOf [("result", .text "found"), ("tier", .text t.name), ("face", face.jsonWith path)] =
      .ok (.found t face) := by
  have htake : takeResult none []
      [("result", .text "found"), ("tier", .text t.name), ("face", face.jsonWith path)] =
        .ok (true, [("tier", .text t.name), ("face", face.jsonWith path)]) := rfl
  have hnames : (["tier", "face"] : List String).Nodup := by decide
  have hshape : foundShape.ofTree .aside
      (.object [("tier", .text t.name), ("face", face.jsonWith path)]) =
        .ok (.object [("tier", .text t.name), ("face", face.jsonWith path)]) := by
    refine (Shape.record_ofTree_self ?_ ?_).trans rfl
    · exact hnames
    · intro f hf
      simp only [List.mem_cons, List.not_mem_nil, or_false] at hf
      rcases hf with rfl | rfl
      · exact ⟨_, rfl, tier_ofTree t .aside⟩
      · exact ⟨_, rfl, FaceSummary.shape_ofTree face path .aside⟩
  rw [outcomeOf, htake]
  dsimp only
  rw [hshape]
  show Except.ok (Outcome.found ((Tier.ofName? t.name).getD .fuzzy)
    (FaceSummary.ofJson (face.jsonWith path))) = _
  rw [ofName?_name, FaceSummary.ofJson_jsonWith h, Option.getD_some]

/-! ## Whole responses -/

/-- Every JSON of a response is decoded to the response, in any layout. -/
theorem decode_toJson {r : Response} {v : Json} (h : r.toJson? = some v) (l : Layout) (k : Nat) :
    decode (v.spell l k) = .ok r := by
  obtain ⟨version, outcome⟩ := r
  cases outcome with
  | notFound =>
    cases h
    refine decode_spell version ?_ ?_ rfl l k
    · exact List.forall_mem_singleton.2 rfl
    · exact List.forall_mem_singleton.2 (.text _)
  | found t face =>
    obtain ⟨w, hw, rfl⟩ := Option.map_eq_some_iff.1 h
    obtain ⟨path, hpath, rfl⟩ := FaceSummary.toJson?_eq_some hw
    refine decode_spell version (fun m hm => ?_) (fun m hm => ?_) (outcomeOf_found t hpath) l k
    · simp only [List.mem_cons, List.not_mem_nil, or_false] at hm
      rcases hm with rfl | rfl | rfl <;> rfl
    · simp only [List.mem_cons, List.not_mem_nil, or_false] at hm
      rcases hm with rfl | rfl | rfl
      · exact .text _
      · exact .text _
      · exact face.plain_jsonWith path 125

theorem encode_eq_ok {r : Response} {payload : Bytes} (h : r.encode = .ok payload) :
    ∃ v, r.toJson? = some v ∧ payload = v.spell compact 0 := by
  rw [encode] at h
  split at h
  · next v hv => exact ⟨v, hv, by rw [← encode_render]; exact (Except.ok.inj h).symm⟩
  · cases h

/-- A response that is sent is decoded to the response itself. -/
theorem decode_encode {r : Response} {payload : Bytes} (h : r.encode = .ok payload) :
    decode payload = .ok r := by
  obtain ⟨v, hv, rfl⟩ := encode_eq_ok h
  exact decode_toJson hv compact 0

end Response

end FontCatalog.Wire
