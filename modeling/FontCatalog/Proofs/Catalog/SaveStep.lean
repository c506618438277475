import FontCatalog.Catalog.Files
import FontCatalog.Proofs.FileTree.Directories
import FontCatalog.Proofs.Text.Utf8
import Mathlib.Data.List.Nodup
import Mathlib.Data.List.Perm.Subperm

/-! A single step of a save: what it does at each place of the tree, and how many steps are left after it. -/
namespace FontCatalog.Catalog
set_option autoImplicit false
open FontCatalog.Path

/-- The file under a fresh name that is there at a stage. -/
def SaveStage.temporary? : SaveStage → Option Location
  | .fill _ l | .sync l | .rename l => some l
  | .directory _ | .encode | .create _ | .done _ => none

namespace Saving

/-! ## Fresh names -/

theorem candidate_injective : Function.Injective candidate := by
  intro m n h
  have htext : ".tmp" ++ toString m = ".tmp" ++ toString n := by
    have hdecode := congrArg Text.decode? h
    simpa only [candidate, Text.decode?_encode, Option.some.injEq] using hdecode
  have hdigits : Nat.toDigits 10 m = Nat.toDigits 10 n := by
    have hrepr := congrArg String.toList ((String.append_right_inj _).1 htext)
    simpa using hrepr
  have hvalue := congrArg (Nat.ofDigitChars 10 · 0) hdigits
  simpa using hvalue

/-- There are more candidates than names that are taken. -/
theorem freshName_spec (s : Saving) (t : FileTree) (l : Location) :
    t.get? (l ++ [s.freshName t l]) = none ∧ s.path.fileName? ≠ some (s.freshName t l) := by
  unfold freshName
  dsimp only
  split
  · next n hn =>
    have hfree := List.find?_some hn
    simpa using hfree
  · next hnone =>
    exfalso
    let candidates := (List.range (t.nodes.length + 2)).map fun n => l ++ [candidate n]
    let taken := t.nodes.map Prod.fst ++ s.path.fileName?.toList.map fun name => l ++ [name]
    have hnodup : candidates.Nodup := by
      have hinjective : Function.Injective fun n => l ++ [candidate n] := fun m n h =>
        candidate_injective (by simpa using h)
      exact List.Nodup.map hinjective List.nodup_range
    have hsubset : candidates ⊆ taken := by
      intro k hk
      obtain ⟨n, hn, rfl⟩ := List.mem_map.1 hk
      have hbusy := List.find?_eq_none.1 hnone n hn
      cases hget : t.get? (l ++ [candidate n]) with
      | some node =>
        have hfind : FileTree.find (l ++ [candidate n]) t.nodes = some node := by
          simpa [FileTree.get?] using hget
        exact List.mem_append_left _ (List.mem_map.2 ⟨_, FileTree.mem_of_find hfind, rfl⟩)
      | none =>
        have hname : s.path.fileName? = some (candidate n) := by simpa [hget] using hbusy
        exact List.mem_append_right _ (by simp [hname])
    have hle := (hnodup.subperm hsubset).length_le
    have hone : s.path.fileName?.toList.length ≤ 1 := by cases s.path.fileName? <;> simp
    simp only [candidates, taken, List.length_map, List.length_range, List.length_append] at hle
    omega

/-! ## Steps -/

variable {t : FileTree} {s : Saving}

/-- What is known of a save at its stage. -/
def Holds (t : FileTree) (s : Saving) : Prop :=
  match s.stage with
  | .directory m => m.Within s.path
  | .create document => s.catalog.serialize? = some document
  | .fill document l =>
    s.catalog.serialize? = some document ∧ l.getLast? ≠ s.path.fileName? ∧ ∃ data, t.get? l = some (.file data)
  | .sync l | .rename l =>
    l.getLast? ≠ s.path.fileName? ∧
      ∃ document, s.catalog.serialize? = some document ∧ t.get? l = some (.file ⟨document.toArray⟩)
  | .encode | .done _ => True

/-- All that one step can do before the end. -/
inductive Step (t : FileTree) (s : Saving) : FileTree × Saving → Prop
  | still {stage : SaveStage} (htemporary : stage.temporary? = s.stage.temporary?)
    (hopen : stage ≠ .done (.ok ())) (hholds : Holds t { s with stage }) : Step t s (t, { s with stage })
  | directory {stage : SaveStage} {q : Path} {l : Location} (hbefore : s.stage.temporary? = none)
    (hafter : stage.temporary? = none) (hopen : stage ≠ .done (.ok ())) (hholds : ∀ u, Holds u { s with stage })
    (hq : Above q s.path) (hl : t.get? l = none) (hmake : t.makeDirectory q = .ok (t.insert l .directory)) :
    Step t s (t.insert l .directory, { s with stage })
  | create {document : Bytes} {l : Location} (hstage : s.stage = .create document)
    (hdocument : s.catalog.serialize? = some document) (hl : t.get? l = none)
    (hname : l.getLast? ≠ s.path.fileName?) :
    Step t s (t.insert l (.file .empty), { s with stage := .fill document l })
  | fill {document : Bytes} {l : Location} (hstage : s.stage = .fill document l)
    (hdocument : s.catalog.serialize? = some document) (hname : l.getLast? ≠ s.path.fileName?) :
    Step t s (t.insert l (.file ⟨document.toArray⟩), { s with stage := .sync l })
  | drop {l : Location} {reason : SaveReason} (hstage : s.stage.temporary? = some l) :
    Step t s (t.erase l, s.finish (.error reason))
  | rename {document : Bytes} {l target : Location} (hstage : s.stage = .rename l)
    (hdocument : s.catalog.serialize? = some document) (hname : l.getLast? ≠ s.path.fileName?)
    (hl : t.get? l = some (.file ⟨document.toArray⟩)) (htarget : t.renameTarget s.path = .ok target) :
    Step t s ((t.erase l).insert target (.file ⟨document.toArray⟩), s.finish (.ok ()))

theorem Step.fail {reason : SaveReason} (h : s.stage.temporary? = none) :
    Step t s (t, s.finish (.error reason)) :=
  .still h.symm nofun trivial

theorem Step.making {m : FileTree.Making} (hstage : s.stage = .directory m) (hholds : m.Within s.path)
    {stage : SaveStage} (hafter : stage.temporary? = none) (hopen : stage ≠ .done (.ok ()))
    (hnext : ∀ u, Holds u { s with stage }) : Step t s ((m.step t).1, { s with stage }) := by
  have hbefore : s.stage.temporary? = none := by rw [hstage]; rfl
  rcases (FileTree.Making.step_within (t := t) hholds).2 with hsame | ⟨q, hq, hmake⟩
  · rw [hsame]
    exact .still (hafter.trans hbefore.symm) hopen (hnext t)
  · obtain ⟨l, hl, htree⟩ := FileTree.makeDirectory_eq_ok hmake
    rw [htree] at hmake ⊢
    exact .directory hbefore hafter hopen hnext hq hl hmake

theorem step_of_done {result : Except SaveError Unit} (h : s.stage = .done result) (fault : Option OsError) :
    s.step fault t = (t, s) := by
  obtain ⟨c, p, stage⟩ := s
  cases h
  cases fault <;> rfl

theorem step_spec (h : s.Holds t) (hopen : ∀ result, s.stage ≠ .done result) (fault : Option OsError) :
    Step t s (s.step fault t) := by
  obtain ⟨c, p, stage⟩ := s
  cases stage with
  | directory m =>
    cases fault with
    | some e => exact .fail rfl
    | none =>
      have hwithin := (FileTree.Making.step_within (t := t) h).1
      have hmaking := @Step.making t ⟨c, p, .directory m⟩ m rfl h
      simp only [step]
      generalize m.step t = w at hwithin hmaking
      split
      · exact hmaking rfl nofun fun _ => trivial
      · exact hmaking rfl nofun fun _ => trivial
      · exact hmaking rfl nofun fun _ => hwithin
  | encode =>
    cases fault with
    | some e => exact .fail rfl
    | none =>
      simp only [step]
      split
      · exact .fail rfl
      · next document hdocument => exact .still rfl nofun hdocument
  | create document =>
    cases fault with
    | some e => exact .fail rfl
    | none =>
      simp only [step]
      split
      · exact .fail rfl
      · next l hstatus =>
        obtain ⟨hfresh, hname⟩ := freshName_spec ⟨c, p, .create document⟩ t l
        refine .create rfl h hfresh ?_
        rw [List.getLast?_concat]
        exact hname.symm
      · exact .fail rfl
  | fill document l =>
    cases fault with
    | some e => exact .drop rfl
    | none => exact .fill rfl h.1 h.2.1
  | sync l =>
    cases fault with
    | some e => exact .drop rfl
    | none => exact .still rfl nofun h
  | rename l =>
    cases fault with
    | some e => exact .drop rfl
    | none =>
      simp only [step]
      split
      · exact .drop rfl
      · next u hrename =>
        obtain ⟨hname, document, hdocument, hl⟩ := h
        obtain ⟨n, target, hget, htarget, rfl⟩ := FileTree.rename_eq_ok hrename
        rw [hl] at hget
        cases hget
        have hne : target ≠ l := by
          rintro rfl
          exact hname (FileTree.renameTarget_eq_ok htarget).2.1
        rw [if_neg hne]
        exact .rename rfl hdocument hname hl htarget
  | done result => exact absurd rfl (hopen result)

/-! ## Places -/

theorem Holds.temporary {l : Location} (h : s.Holds t) (hl : s.stage.temporary? = some l) :
    l.getLast? ≠ s.path.fileName? ∧ ∃ data, t.get? l = some (.file data) := by
  obtain ⟨c, p, stage⟩ := s
  cases stage with
  | directory | encode | create | done => cases hl
  | fill document l =>
    cases hl
    exact ⟨h.2.1, h.2.2⟩
  | sync l | rename l =>
    cases hl
    obtain ⟨hname, document, -, hget⟩ := h
    exact ⟨hname, _, hget⟩

theorem Step.holds {u : FileTree} {s' : Saving} (h : s.Holds t) (hstep : Step t s (u, s')) : s'.Holds u := by
  cases hstep with
  | still _ _ hholds => exact hholds
  | directory _ _ _ hholds => exact hholds _
  | create _ hdocument hl hname =>
    have hroot := FileTree.ne_root_of_get? hl nofun
    exact ⟨hdocument, hname, _, FileTree.get?_insert_self hroot _ _⟩
  | fill hstage hdocument hname =>
    obtain ⟨-, data, hl⟩ := h.temporary (by rw [hstage]; rfl)
    have hroot := FileTree.ne_root_of_get? hl nofun
    exact ⟨hname, _, hdocument, FileTree.get?_insert_self hroot _ _⟩
  | drop | rename => trivial

/-- What a step does at one place. -/
inductive Touch (t : FileTree) (s : Saving) (u : FileTree) (s' : Saving) (k : Location) : Prop
  | same (hget : u.get? k = t.get? k)
    (htemporary : s.stage.temporary? = some k ↔ s'.stage.temporary? = some k)
  | directory {q : Path} (hq : Above q s.path) (hl : t.get? k = none) (hget : u.get? k = some .directory)
    (hmake : t.makeDirectory q = .ok (t.insert k .directory))
  | temporary (hbefore : t.get? k = none ∨ s.stage.temporary? = some k)
    (hafter : s'.stage.temporary? = some k)
  | gone (hbefore : s.stage.temporary? = some k) (hget : u.get? k = none)
  | saved {document : Bytes} (hend : s'.stage = .done (.ok ()))
    (hdocument : s'.catalog.serialize? = some document) (hname : k.getLast? = s.path.fileName?)
    (hget : u.get? k = some (.file ⟨document.toArray⟩))

theorem Step.touch {u : FileTree} {s' : Saving} (h : s.Holds t) (hstep : Step t s (u, s')) (k : Location) :
    Touch t s u s' k := by
  cases hstep with
  | still htemporary => exact .same rfl (by rw [htemporary])
  | @directory stage q l hbefore hafter _ _ hq hl hmake =>
    have hroot := FileTree.ne_root_of_get? hl nofun
    by_cases hk : k = l
    · subst hk
      exact .directory hq hl (FileTree.get?_insert_self hroot _ _) hmake
    · exact .same (FileTree.get?_insert_of_ne hk _ _) (by rw [hbefore, hafter])
  | @create document l hstage _ hl _ =>
    have hroot := FileTree.ne_root_of_get? hl nofun
    by_cases hk : k = l
    · subst hk
      exact .temporary (.inl hl) rfl
    · refine .same (FileTree.get?_insert_of_ne hk _ _) ?_
      rw [hstage]
      exact iff_of_false nofun fun hl => hk (Option.some.inj hl).symm
  | @fill document l hstage =>
    have hbefore : s.stage.temporary? = some l := by rw [hstage]; rfl
    obtain ⟨-, data, hl⟩ := h.temporary hbefore
    have hroot := FileTree.ne_root_of_get? hl nofun
    by_cases hk : k = l
    · subst hk
      exact .temporary (.inr hbefore) rfl
    · exact .same (FileTree.get?_insert_of_ne hk _ _) (by rw [hbefore]; rfl)
  | @drop l _ hbefore =>
    obtain ⟨-, data, hl⟩ := h.temporary hbefore
    have hroot := FileTree.ne_root_of_get? hl nofun
    by_cases hk : k = l
    · subst hk
      exact .gone hbefore (FileTree.get?_erase_self hroot _)
    · refine .same (FileTree.get?_erase_of_ne hk _) ?_
      rw [hbefore]
      exact iff_of_false (fun hl => hk (Option.some.inj hl).symm) nofun
  | @rename document l target hstage hdocument _ hl htarget =>
    have hbefore : s.stage.temporary? = some l := by rw [hstage]; rfl
    have hroot := FileTree.ne_root_of_get? hl nofun
    obtain ⟨⟨n, hlocate, hdirectory⟩, hname, -⟩ := FileTree.renameTarget_eq_ok htarget
    have htop := FileTree.ne_root_of_get? (FileTree.get?_of_locate hlocate) hdirectory
    by_cases hk : k = target
    · subst hk
      exact .saved rfl hdocument hname (FileTree.get?_insert_self htop _ _)
    by_cases hkl : k = l
    · subst hkl
      exact .gone hbefore (by rw [FileTree.get?_insert_of_ne hk, FileTree.get?_erase_self hroot])
    · refine .same (by rw [FileTree.get?_insert_of_ne hk, FileTree.get?_erase_of_ne hkl]) ?_
      rw [hbefore]
      exact iff_of_false (fun hl => hkl (Option.some.inj hl).symm) nofun

/-! ## Steps that are left -/

/-- How many steps are left at most. -/
def stepsLeft (s : Saving) : Nat :=
  match s.stage with
  | .directory m => m.stepsLeft + 6
  | .encode => 5
  | .create _ => 4
  | .fill _ _ => 3
  | .sync _ => 2
  | .rename _ => 1
  | .done _ => 0

theorem stepsLeft_start (c : Catalog) (p : Path) : (start c p).stepsLeft ≤ stepBound p := by
  unfold start stepBound
  split
  · next b rest hparent =>
    have hshorter := length_parent? hparent
    simp only [stepsLeft, FileTree.Making.stepsLeft, List.length_nil] at hshorter ⊢
    omega
  · simp only [stepsLeft]
    omega

theorem stepsLeft_step (fault : Option OsError) (t : FileTree) (s : Saving) :
    (s.step fault t).2.stepsLeft ≤ s.stepsLeft - 1 := by
  obtain ⟨c, p, stage⟩ := s
  cases fault with
  | some e => cases stage <;> exact Nat.zero_le _
  | none =>
    cases stage with
    | directory m =>
      have hmaking := FileTree.Making.stepsLeft_step t m
      simp only [step]
      split
      · exact Nat.zero_le _
      · simp only [stepsLeft]
        omega
      · next w u m' hfailed hdown heq =>
        rw [heq] at hmaking
        have hless : m'.stepsLeft < m.stepsLeft := by
          rcases hmaking with h | h | ⟨e, h⟩
          · exact h
          · exact absurd h hdown
          · exact absurd h (hfailed e)
        simp only [stepsLeft]
        omega
    | encode => simp only [step]; split <;> simp [stepsLeft, finish]
    | create => simp only [step]; split <;> simp [stepsLeft, finish]
    | fill => simp [step, stepsLeft]
    | sync => simp [step, stepsLeft]
    | rename => simp only [step]; split <;> simp [stepsLeft, finish]
    | done => simp [step, stepsLeft]

end Saving

end FontCatalog.Catalog
