import FontCatalog.FileTree
import Mathlib.Data.List.Basic

/-! Two spellings of a path with the same components lead to the same file, whenever both of them lead to
one. They may still differ: with a slash after it the name of a file leads nowhere. -/
namespace FontCatalog
set_option autoImplicit false

namespace Path

/-! ## Components -/

theorem Component.key_injective {a b : Component} (h : a.key = b.key) : a = b := by
  cases a <;> cases b <;> simp_all [key]
  exact List.map_injective_iff.2 (fun _ _ => UInt8.toNat_inj.1) h

theorem components_eq_of_same {p q : Path} (h : p.same q = true) : p.components = q.components := by
  have hkeys : p.components.map Component.key = q.components.map Component.key := eq_of_beq h
  exact List.map_injective_iff.2 (fun _ _ => Component.key_injective) hkeys

/-- Where a component leads, seen from the place before it. -/
def Component.isMove : Component → Bool
  | .root | .here => false
  | .up | .name _ => true

abbrev moves (pieces : List Bytes) : List Component := pieces.filterMap componentOf

theorem isMove_of_componentOf {piece : Bytes} {c : Component} (h : componentOf piece = some c) :
    c.isMove = true := by
  unfold componentOf at h
  split at h
  · cases h
  · split at h <;> cases h <;> rfl

theorem filter_isMove_moves (ps : List Bytes) : (moves ps).filter Component.isMove = moves ps := by
  apply List.filter_eq_self.2
  intro c hc
  obtain ⟨piece, -, hpiece⟩ := List.mem_filterMap.1 hc
  exact isMove_of_componentOf hpiece

theorem pieces_cons (b : UInt8) (bs : Bytes) :
    ∃ first rest, pieces (b :: bs) = first :: rest ∧ (first = [] ↔ b = slash) := by
  refine ⟨_, _, rfl, ?_⟩
  by_cases hb : b = slash <;> simp [splitStep, hb]

/-- The components are the moves, with a mark in front of them that says where they begin. -/
theorem components_eq (p : Path) :
    p.components = (if p.isAbsolute = true then [.root]
      else if (pieces p.bytes).head? = some [dot] then [.here] else []) ++ moves (pieces p.bytes) := by
  obtain ⟨bs⟩ := p
  cases bs with
  | nil => rfl
  | cons b bs =>
    obtain ⟨first, rest, hpieces, hfirst⟩ := pieces_cons b bs
    have habsolute : isAbsolute ⟨b :: bs⟩ = true ↔ first = [] := by
      rw [hfirst, isAbsolute, List.head?_cons, beq_iff_eq, Option.some.injEq]
    simp only [components, hpieces, habsolute]
    by_cases hempty : first = []
    · simp [hempty, moves, componentOf]
    · by_cases hdot : first = [dot]
      · simp [hdot, moves, componentOf]
      · cases hcomponent : componentOf first <;> simp [hempty, hdot, moves, hcomponent]

theorem isAbsolute_eq_of_same {p q : Path} (h : p.same q = true) : p.isAbsolute = q.isAbsolute := by
  have hroot (p : Path) : p.isAbsolute = true ↔ .root ∈ p.components := by
    have hmoves : .root ∉ moves (pieces p.bytes) := by
      intro hmem
      obtain ⟨piece, -, hpiece⟩ := List.mem_filterMap.1 hmem
      cases isMove_of_componentOf hpiece
    rw [components_eq]
    cases p.isAbsolute
    · by_cases hhere : (pieces p.bytes).head? = some [dot] <;> simp [hhere, hmoves]
    · simp
  rw [Bool.eq_iff_iff, hroot p, hroot q, components_eq_of_same h]

theorem moves_eq_of_same {p q : Path} (h : p.same q = true) :
    moves (pieces p.bytes) = moves (pieces q.bytes) := by
  have hfilter (p : Path) : p.components.filter Component.isMove = moves (pieces p.bytes) := by
    rw [components_eq, List.filter_append, filter_isMove_moves]
    by_cases habsolute : p.isAbsolute = true
    · simp [habsolute, Component.isMove]
    · by_cases hhere : (pieces p.bytes).head? = some [dot] <;> simp [habsolute, hhere, Component.isMove]
  rw [← hfilter p, ← hfilter q, components_eq_of_same h]

end Path

namespace FileTree
open FontCatalog.Path

/-! ## Going down -/

variable {t : FileTree} {follow : Bool} {jump : Location → List Bytes → Except OsError Place}

theorem descend_still {piece : Bytes} (h : componentOf piece = none) (l : Location) (rest : List Bytes) :
    t.descend follow jump l (piece :: rest) = t.descend follow jump l rest := by
  have hstill : piece = [] ∨ piece = [dot] := by
    by_contra hmove
    rw [componentOf, if_neg hmove] at h
    split at h <;> cases h
  rw [descend, if_pos hstill]

theorem descend_up {piece : Bytes} (h : componentOf piece = some .up) (l : Location) (rest : List Bytes) :
    t.descend follow jump l (piece :: rest) = t.descend follow jump l.dropLast rest := by
  unfold componentOf at h
  split at h
  · cases h
  · next hmove =>
    split at h
    · next hup => rw [descend, if_neg hmove, if_pos hup]
    · cases h

theorem descend_name {piece name : Bytes} (h : componentOf piece = some (.name name)) (l : Location)
    (rest : List Bytes) :
    t.descend follow jump l (piece :: rest) =
      if maxName < name.length then .error .nameTooLong
      else match t.get? (l ++ [name]) with
        | none => if rest = [] then .ok ⟨l ++ [name], none⟩ else .error .notFound
        | some .directory => t.descend follow jump (l ++ [name]) rest
        | some (.file data) =>
          if rest = [] then .ok ⟨l ++ [name], some (.file data)⟩ else .error .notDirectory
        | some (.link target) =>
          if rest = [] ∧ follow = false then .ok ⟨l ++ [name], some (.link target)⟩
          else jump (if target.isAbsolute then [] else l) (pieces target.bytes ++ rest) := by
  unfold componentOf at h
  split at h
  · cases h
  · next hmove =>
    split at h
    · cases h
    · next hup =>
      cases h
      rw [descend, if_neg hmove]
      exact if_neg hup

theorem descend_of_moves_nil {ps : List Bytes} (h : moves ps = []) (l : Location) :
    t.descend follow jump l ps = .ok ⟨l, t.get? l⟩ := by
  induction ps with
  | nil => rw [descend]
  | cons piece rest ih =>
    obtain ⟨hpiece, hrest⟩ := List.forall_mem_cons.1 (List.filterMap_eq_nil_iff.1 h)
    rw [descend_still hpiece, ih (List.filterMap_eq_nil_iff.2 hrest)]

/-- Up to its first move a descent looks at nothing. -/
theorem descend_of_moves_cons {ps : List Bytes} {c : Component} {ms : List Component}
    (h : moves ps = c :: ms) (l : Location) :
    ∃ piece rest, componentOf piece = some c ∧ moves rest = ms ∧
      t.descend follow jump l ps = t.descend follow jump l (piece :: rest) := by
  induction ps with
  | nil => cases h
  | cons piece rest ih =>
    cases hpiece : componentOf piece with
    | none =>
      rw [descend_still hpiece]
      exact ih ((List.filterMap_cons_none hpiece).symm.trans h)
    | some c' =>
      have hcons : c' :: moves rest = c :: ms := (List.filterMap_cons_some hpiece).symm.trans h
      obtain ⟨rfl, hms⟩ := List.cons.inj hcons
      exact ⟨piece, rest, hpiece, hms, rfl⟩

/-- Descents with the same moves that both end at a file end at the same one. -/
def Steady (go : Location → List Bytes → Except OsError Place) : Prop :=
  ∀ (l : Location) (ps qs : List Bytes), moves ps = moves qs →
    ∀ (k m : Location) (d e : ByteArray), go l ps = .ok ⟨k, some (.file d)⟩ →
      go l qs = .ok ⟨m, some (.file e)⟩ → k = m ∧ d = e

theorem descend_steady (hjump : Steady jump) : Steady (t.descend true jump) := by
  intro l ps qs hmoves k m d e hk hm
  generalize hms : moves ps = ms at hmoves
  symm at hmoves
  induction ms generalizing l ps qs with
  | nil =>
    rw [descend_of_moves_nil hms] at hk
    rw [descend_of_moves_nil hmoves, hk] at hm
    cases hm
    exact ⟨rfl, rfl⟩
  | cons c ms ih =>
    obtain ⟨piece, rest, hpiece, hrest, hps⟩ := descend_of_moves_cons hms l
    obtain ⟨piece', rest', hpiece', hrest', hqs⟩ := descend_of_moves_cons hmoves l
    rw [hps] at hk
    rw [hqs] at hm
    cases c with
    | root | here => cases isMove_of_componentOf hpiece
    | up =>
      rw [descend_up hpiece] at hk
      rw [descend_up hpiece'] at hm
      exact ih _ _ _ hk hm hrest hrest'
    | name name =>
      rw [descend_name hpiece] at hk
      rw [descend_name hpiece'] at hm
      by_cases hlong : maxName < name.length
      · rw [if_pos hlong] at hk
        cases hk
      rw [if_neg hlong] at hk hm
      cases hget : t.get? (l ++ [name]) with
      | none =>
        simp only [hget] at hk
        split at hk <;> cases hk
      | some n =>
        cases n with
        | directory =>
          simp only [hget] at hk hm
          exact ih _ _ _ hk hm hrest hrest'
        | file data =>
          simp only [hget] at hk hm
          split at hk <;> split at hm <;> cases hk <;> cases hm
          exact ⟨rfl, rfl⟩
        | link target =>
          simp only [hget, Bool.true_eq_false, and_false, if_false] at hk hm
          apply hjump _ _ _ _ _ _ _ _ hk hm
          rw [moves, moves, List.filterMap_append, List.filterMap_append]
          exact congrArg _ (hrest.trans hrest'.symm)

theorem resolve_steady (links : Nat) : Steady (t.resolve true links) := by
  induction links with
  | zero =>
    apply descend_steady
    intro l ps qs _ k m d e hk
    cases hk
  | succ links ih => exact descend_steady ih

/-! ## Files -/

theorem status_file_steady {p q : Path} (hsame : p.same q = true) {k m : Location} {d e : ByteArray}
    (hp : t.status true p = .ok (k, .file d)) (hq : t.status true q = .ok (m, .file e)) :
    k = m ∧ d = e := by
  have hresolve {p : Path} {k : Location} {d : ByteArray} (h : t.status true p = .ok (k, .file d)) :
      t.resolve true maxLinks (if p.isAbsolute then [] else t.here) (pieces p.bytes) =
        .ok ⟨k, some (.file d)⟩ := by
    unfold status locate at h
    split at h
    · cases h
    · cases h
    · next hplace =>
      cases h
      split at hplace
      · cases hplace
      · split at hplace
        · cases hplace
        · split at hplace
          · cases hplace
          · exact hplace
  have hk := hresolve hp
  have hm := hresolve hq
  rw [← isAbsolute_eq_of_same hsame] at hm
  exact resolve_steady maxLinks _ _ _ (moves_eq_of_same hsame) _ _ _ _ hk hm

end FileTree

end FontCatalog
