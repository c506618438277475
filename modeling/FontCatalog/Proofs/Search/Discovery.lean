import FontCatalog.Proofs.FileTree.Spelling
import FontCatalog.Proofs.Search.Finder
import Mathlib.Data.List.Pairwise

/-! The files that a walk discovers. Each path that is handed out leads to a file and can be kept in a
catalog, and no two of them lead to one place; so no two of them have the same components. -/
namespace FontCatalog
set_option autoImplicit false

namespace FileTree
open FontCatalog.Path

variable {t : FileTree}

/-! ## Links at the end of a path -/

/-- Where a descent that follows no link at the end comes to a file, so does one that follows it. -/
def Followed (jump go : Location → List Bytes → Except OsError Place) : Prop :=
  ∀ l ps k data, jump l ps = .ok ⟨k, some (.file data)⟩ → go l ps = .ok ⟨k, some (.file data)⟩

theorem descend_followed {jump go : Location → List Bytes → Except OsError Place} (h : Followed jump go) :
    Followed (t.descend false jump) (t.descend true go) := by
  intro l ps
  induction ps generalizing l with
  | nil => exact fun k data hdescend => hdescend
  | cons piece rest ih =>
    intro k data hdescend
    cases hpiece : componentOf piece with
    | none =>
      rw [descend_still hpiece] at hdescend ⊢
      exact ih _ _ _ hdescend
    | some c =>
      cases c with
      | root | here => cases isMove_of_componentOf hpiece
      | up =>
        rw [descend_up hpiece] at hdescend ⊢
        exact ih _ _ _ hdescend
      | name name =>
        rw [descend_name hpiece] at hdescend ⊢
        by_cases hlong : maxName < name.length
        · rw [if_pos hlong] at hdescend
          cases hdescend
        rw [if_neg hlong] at hdescend ⊢
        cases hget : t.get? (l ++ [name]) with
        | none =>
          simp only [hget] at hdescend
          split at hdescend <;> cases hdescend
        | some n =>
          cases n with
          | directory =>
            simp only [hget] at hdescend ⊢
            exact ih _ _ _ hdescend
          | file data =>
            simp only [hget] at hdescend ⊢
            exact hdescend
          | link target =>
            simp only [hget, Bool.true_eq_false, and_false, and_true, if_false] at hdescend ⊢
            split at hdescend
            · cases hdescend
            · exact h _ _ _ _ hdescend

theorem resolve_followed (links : Nat) : Followed (t.resolve false links) (t.resolve true links) := by
  induction links with
  | zero => exact descend_followed fun _ _ _ _ h => h
  | succ links ih => exact descend_followed ih

theorem status_eq_ok_iff {follow : Bool} {p : Path} {l : Location} {n : Node} :
    t.status follow p = .ok (l, n) ↔ t.locate follow p = .ok ⟨l, some n⟩ := by
  unfold status
  cases t.locate follow p with
  | error e => simp
  | ok place =>
    obtain ⟨k, m⟩ := place
    cases m <;> simp

theorem status_followed {p : Path} {l : Location} {data : ByteArray}
    (h : t.status false p = .ok (l, .file data)) : t.status true p = .ok (l, .file data) := by
  rw [status_eq_ok_iff] at h ⊢
  unfold locate at h ⊢
  split at h
  · cases h
  · next hzero =>
    split at h
    · cases h
    · next hempty =>
      split at h
      · cases h
      · next hlong =>
        rw [if_neg hzero, if_neg hempty, if_neg hlong]
        exact resolve_followed maxLinks _ _ _ _ h

/-! ## Entries of a walk -/

/-- Whether an entry that counts as a file leads to one, and has the key of the place. -/
def Leads (t : FileTree) : WalkItem → Prop
  | .entry p true key => key = t.keyOf p ∧ ∃ l data, t.status true p = .ok (l, .file data)
  | _ => True

theorem leads_entry {p : Path} {n : Node} (h : ∀ data, n = .file data → ∃ l, t.status true p = .ok (l, n)) :
    t.Leads (t.entry p n) := by
  cases n with
  | file data =>
    obtain ⟨l, hl⟩ := h data rfl
    exact ⟨rfl, l, data, hl⟩
  | link target => trivial
  | directory => trivial

theorem walkBelow_leads (follow : Bool) (depth : Nat) (above : List Location) (p : Path) :
    ∀ item ∈ t.walkBelow follow depth above p, t.Leads item := by
  induction depth generalizing above p with
  | zero => exact List.forall_mem_nil _
  | succ depth ih =>
    have henter (l : Location) :
        ∀ item ∈ (t.names l).flatMap fun name => walkBelow t follow depth (l :: above) (p.join ⟨name⟩),
          t.Leads item := by
      intro item hitem
      obtain ⟨name, -, hname⟩ := List.mem_flatMap.1 hitem
      exact ih _ _ item hname
    have hfailure (e : SearchError) : ∀ item ∈ [WalkItem.failure e], t.Leads item := by
      rw [List.forall_mem_singleton]
      trivial
    unfold walkBelow
    dsimp only
    split
    · exact hfailure _
    · next l hstatus => exact List.forall_mem_cons.2 ⟨leads_entry nofun, henter l⟩
    · next l data hstatus =>
      rw [List.forall_mem_singleton]
      exact leads_entry fun _ _ => ⟨l, status_followed hstatus⟩
    · next target hstatus =>
      have hlink : t.Leads (t.entry p (.link target)) := leads_entry nofun
      split
      · split
        · exact hfailure _
        · next l hfollowed =>
          split
          · exact hfailure _
          · exact List.forall_mem_cons.2 ⟨leads_entry nofun, henter l⟩
        · next l n _ hfollowed =>
          rw [List.forall_mem_singleton]
          exact leads_entry fun _ _ => ⟨l, hfollowed⟩
      · split
        · split
          · exact hfailure _
          · next l hfollowed => exact List.forall_mem_cons.2 ⟨hlink, henter l⟩
          · exact List.forall_mem_singleton.2 hlink
        · exact List.forall_mem_singleton.2 hlink

theorem walk_leads (follow : Bool) (roots : List Path) : ∀ item ∈ t.walk follow roots, t.Leads item := by
  intro item hitem
  obtain ⟨root, -, hroot⟩ := List.mem_flatMap.1 hitem
  unfold walkRoot at hroot
  split at hroot
  · exact walkBelow_leads follow _ [] root item hroot
  · rw [List.mem_singleton.1 hroot]
    trivial

end FileTree

/-! ## Files -/

/-- What holds of discovered files. -/
structure Discovered (t : FileTree) (files : List Path) : Prop where
  found : ∀ p ∈ files, ∃ l data, t.status true p = .ok (l, .file data)
  textual : ∀ p ∈ files, p.text?.isSome = true
  apart : files.Pairwise fun p q => t.keyOf p ≠ t.keyOf q

theorem Discovered.eq_of_same {t : FileTree} {files : List Path} (h : Discovered t files) {p q : Path}
    (hp : p ∈ files) (hq : q ∈ files) (hsame : p.same q = true) : p = q := by
  by_contra hne
  obtain ⟨l, data, hpl⟩ := h.found p hp
  obtain ⟨m, data', hqm⟩ := h.found q hq
  obtain ⟨rfl, -⟩ := FileTree.status_file_steady hsame hpl hqm
  have hkeys : t.keyOf p = t.keyOf q := by
    rw [FileTree.keyOf, FileTree.keyOf, hpl, hqm]
  have : Std.Symm fun p q => t.keyOf p ≠ t.keyOf q := ⟨fun _ _ hkey => hkey.symm⟩
  exact h.apart.forall hp hq hne hkeys

namespace Finder

theorem leftOf_discovered {t : FileTree} {items : List FileTree.WalkItem} (hitems : ∀ item ∈ items, t.Leads item)
    (accepts : Path → Bool) (seen : List FileTree.FileKey) :
    Discovered t (leftOf accepts seen items) ∧ ∀ p ∈ leftOf accepts seen items, t.keyOf p ∉ seen := by
  induction items generalizing seen with
  | nil => exact ⟨⟨List.forall_mem_nil _, List.forall_mem_nil _, .nil⟩, List.forall_mem_nil _⟩
  | cons item rest ih =>
    obtain ⟨hitem, hrest⟩ := List.forall_mem_cons.1 hitems
    cases item with
    | failure e => exact ih hrest seen
    | entry p isFile key =>
      unfold leftOf
      split
      · exact ih hrest seen
      · next hskip =>
        simp only [Bool.or_eq_true, Bool.not_eq_true', List.contains_eq_mem, decide_eq_true_eq, not_or,
          Bool.not_eq_false] at hskip
        obtain ⟨⟨rfl, -⟩, hunseen⟩ := hskip
        obtain ⟨rfl, hfound⟩ := hitem
        obtain ⟨⟨hfiles, htextual, hapart⟩, hkeys⟩ := ih hrest (t.keyOf p :: seen)
        have hlater : ∀ q ∈ leftOf accepts (t.keyOf p :: seen) rest, t.keyOf q ∉ seen :=
          fun q hq hseen => hkeys q hq (List.mem_cons_of_mem _ hseen)
        split
        · next htext =>
          refine ⟨⟨List.forall_mem_cons.2 ⟨hfound, hfiles⟩, List.forall_mem_cons.2 ⟨htext, htextual⟩,
            List.pairwise_cons.2 ⟨?_, hapart⟩⟩, List.forall_mem_cons.2 ⟨hunseen, hlater⟩⟩
          intro q hq heq
          exact hkeys q hq (heq ▸ List.mem_cons_self)
        · exact ⟨⟨hfiles, htextual, hapart⟩, hlater⟩

theorem discovered_ofWalk (t : FileTree) (x : Extensions) (follow : Bool) (roots : List Path) :
    Discovered t (ofWalk x (t.walk follow roots)).left :=
  (leftOf_discovered (FileTree.walk_leads follow roots) _ _).1

theorem storable_of_textual {paths : List Path} (h : ∀ p ∈ paths, p.text?.isSome = true) :
    storable paths = (paths, []) := by
  induction paths with
  | nil => rfl
  | cons p rest ih =>
    obtain ⟨hp, hrest⟩ := List.forall_mem_cons.1 h
    rw [storable]
    simp only [hp, if_true, ih hrest]

end Finder

end FontCatalog
