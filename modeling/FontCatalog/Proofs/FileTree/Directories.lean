import FontCatalog.Proofs.FileTree.Places
import Mathlib.Logic.Relation

/-! The directories that are made on the way to a file. Each path tried is one above it and shorter than the path
before, so there are no more steps to take than twice the bytes of the path. -/
namespace FontCatalog
set_option autoImplicit false

namespace Path

/-! ## Paths above a path -/

theorem trimTail_go_suffix (fuel : Nat) (bs : Bytes) : trimTail.go fuel bs <:+ bs := by
  induction fuel generalizing bs with
  | zero => exact List.suffix_rfl
  | succ fuel ih =>
    cases bs with
    | nil => exact List.suffix_rfl
    | cons b rest =>
      have hrest := (ih rest).trans (List.suffix_cons b rest)
      simp only [trimTail.go]
      repeat' split
      all_goals first | exact hrest | exact List.suffix_rfl

theorem trimTail_go_eq_nil {fuel : Nat} {bs : Bytes} (h : trimTail.go fuel bs = []) : bs = [] := by
  induction fuel generalizing bs with
  | zero => exact h
  | succ fuel ih =>
    cases bs with
    | nil => rfl
    | cons b rest =>
      simp only [trimTail.go] at h
      repeat' split at h
      all_goals first | cases h | cases ih h
      next hrest => exact absurd rfl hrest

/-- What is left ends in a slash only if it is the root. -/
theorem trimTail_go_slash {fuel : Nat} {bs rest : Bytes} (hfuel : bs.length ≤ fuel)
    (h : trimTail.go fuel bs = slash :: rest) : rest = [] := by
  induction fuel generalizing bs with
  | zero =>
    rw [List.length_eq_zero_iff.1 (Nat.le_zero.1 hfuel)] at h
    cases h
  | succ fuel ih =>
    cases bs with
    | nil => cases h
    | cons b tail =>
      have htail : tail.length ≤ fuel := Nat.le_of_succ_le_succ hfuel
      simp only [trimTail.go] at h
      split at h
      · split at h
        · next hempty =>
          injection h with _ h
          rw [← h, List.isEmpty_iff.1 hempty]
        · exact ih htail h
      · next hslash =>
        have hb : b ≠ slash := by simpa using hslash
        repeat' split at h
        all_goals first | exact ih htail h | exact absurd (List.cons.inj h).1 hb

theorem length_trimTail_le (bs : Bytes) : (trimTail bs).length ≤ bs.length := by
  have h := (trimTail_go_suffix bs.length bs.reverse).length_le
  simpa [trimTail] using h

theorem length_parent? {p q : Path} (h : p.parent? = some q) : q.bytes.length < p.bytes.length := by
  obtain ⟨bs⟩ := p
  unfold parent? at h
  split at h
  · cases h
  · cases h
  next c hroot hlast =>
  injection h with h
  subst h
  have hsuffix := trimTail_go_suffix bs.length bs.reverse
  refine Nat.lt_of_le_of_lt (length_trimTail_le _) ?_
  rw [trimTail, List.reverse_reverse, List.length_reverse]
  cases hshown : trimTail.go bs.length bs.reverse with
  | nil =>
    rw [List.reverse_eq_nil_iff.1 (trimTail_go_eq_nil hshown)] at hlast
    cases hlast
  | cons b shown =>
    rw [hshown] at hsuffix
    have hle := hsuffix.length_le
    rw [List.length_reverse] at hle
    by_cases hb : b = slash
    · subst hb
      have hempty := trimTail_go_slash (Nat.le_of_eq List.length_reverse) hshown
      subst hempty
      -- a slash alone is the root, which has no parent
      have hne : bs.length ≠ 1 := by
        intro hone
        have hbs := hsuffix.eq_of_length (by simp [hone])
        rw [← List.reverse_eq_iff, List.reverse_singleton] at hbs
        rw [← hbs] at hlast
        cases hlast
        exact hroot rfl
      rw [List.length_singleton] at hle
      rw [List.dropWhile_cons_of_neg (by simp), List.length_singleton]
      exact Nat.lt_of_le_of_ne hle hne.symm
    · rw [List.dropWhile_cons_of_pos (by simpa using hb)]
      exact Nat.lt_of_le_of_lt (List.dropWhile_suffix _).length_le hle

/-- Whether `p` goes through the directory `q`. -/
abbrev Above (q p : Path) : Prop := Relation.TransGen (fun a b => a.parent? = some b) p q

end Path

namespace FileTree.Making
open FontCatalog.Path

variable {t : FileTree} {m : Making} {p : Path}

/-! ## Steps -/

/-- All that one step can do. -/
inductive Step (t : FileTree) : Making → FileTree × Making → Prop
  | pass {u : FileTree} {m : Making} {q : Path} {waiting : List Path}
    (hm : m = .up q waiting ∨ m = .down (q :: waiting)) (hu : u = t ∨ t.makeDirectory q = .ok u) :
    Step t m (u, .down waiting)
  | climb {q parent : Path} {waiting : List Path} (h : q.parent? = some parent) :
    Step t (.up q waiting) (t, .up parent (q :: waiting))
  | stop : Step t (.down []) (t, .down [])
  | fail (m : Making) (e : OsError) : Step t m (t, .failed e)

theorem step_spec (t : FileTree) (m : Making) : Step t m (m.step t) := by
  cases m with
  | up q waiting =>
    rw [step]
    split
    · exact .pass (.inl rfl) (.inl rfl)
    split
    · next u hmake => exact .pass (.inl rfl) (.inr hmake)
    · split
      · exact .fail ..
      · next parent hparent => exact .climb hparent
    · split
      · exact .pass (.inl rfl) (.inl rfl)
      · exact .fail ..
  | down waiting =>
    cases waiting with
    | nil => exact .stop
    | cons q waiting =>
      rw [step]
      split
      · next u hmake => exact .pass (.inr rfl) (.inr hmake)
      · split
        · exact .pass (.inr rfl) (.inl rfl)
        · exact .fail ..
  | failed e => exact .fail ..

/-- Whether `p` goes through all directories that are still to be made. -/
def Within (p : Path) : Making → Prop
  | .up q waiting => Above q p ∧ ∀ r ∈ waiting, Above r p
  | .down waiting => ∀ r ∈ waiting, Above r p
  | .failed _ => True

theorem Within.of_pass {q : Path} {waiting : List Path} (h : m.Within p)
    (hm : m = .up q waiting ∨ m = .down (q :: waiting)) : Above q p ∧ ∀ r ∈ waiting, Above r p := by
  rcases hm with rfl | rfl
  · exact h
  · exact List.forall_mem_cons.1 h

/-- A step makes at most one directory, and only one that `p` goes through. -/
theorem step_within (h : m.Within p) :
    (m.step t).2.Within p ∧ ((m.step t).1 = t ∨ ∃ q, Above q p ∧ t.makeDirectory q = .ok (m.step t).1) := by
  have hstep := step_spec t m
  generalize m.step t = w at hstep ⊢
  cases hstep with
  | pass hm hu =>
    obtain ⟨hq, hwaiting⟩ := h.of_pass hm
    exact ⟨hwaiting, hu.imp_right fun hu => ⟨_, hq, hu⟩⟩
  | climb hparent =>
    obtain ⟨hq, hwaiting⟩ := h
    exact ⟨⟨hq.tail hparent, List.forall_mem_cons.2 ⟨hq, hwaiting⟩⟩, .inl rfl⟩
  | stop => exact ⟨h, .inl rfl⟩
  | fail => exact ⟨trivial, .inl rfl⟩

theorem stepsLeft_step (t : FileTree) (m : Making) :
    (m.step t).2.stepsLeft < m.stepsLeft ∨ (m.step t).2 = .down [] ∨ ∃ e, (m.step t).2 = .failed e := by
  have hstep := step_spec t m
  generalize m.step t = w at hstep ⊢
  cases hstep with
  | pass hm hu =>
    left
    rcases hm with rfl | rfl <;> simp only [stepsLeft, List.length_cons] <;> omega
  | climb hparent =>
    left
    have hshorter := length_parent? hparent
    simp only [stepsLeft, List.length_cons]
    omega
  | stop => exact .inr (.inl rfl)
  | fail m e => exact .inr (.inr ⟨e, rfl⟩)

/-! ## Files -/

section
variable {q : Path} {data : ByteArray}

/-- What is read stays the same while directories are made. -/
theorem read_step (h : t.read q = .ok data) (m : Making) : (m.step t).1.read q = .ok data := by
  have hstep := step_spec t m
  generalize m.step t = w at hstep ⊢
  cases hstep with
  | pass _ hu =>
    obtain rfl | hmake := hu
    · exact h
    · obtain ⟨l, hl, rfl⟩ := makeDirectory_eq_ok hmake
      exact read_insert hl .directory h
  | climb | stop | fail => exact h

theorem read_run (n : Nat) (h : t.read q = .ok data) (m : Making) : (m.run n t).1.read q = .ok data := by
  induction n generalizing t m with
  | zero => exact h
  | succ n ih => exact ih (read_step h m) _

end

end FileTree.Making

theorem FileTree.read_reach {t : FileTree} {q : Path} {data : ByteArray} (h : t.read q = .ok data) (p : Path) :
    (t.reach p).1.read q = .ok data := by
  have hrun := Making.read_run (Making.up p []).stepsLeft h (.up p [])
  unfold reach
  dsimp only
  split
  all_goals
    next heq =>
    rw [heq] at hrun
    exact hrun

end FontCatalog
