import FontCatalog.Proofs.Search.Claims
import Mathlib.Data.List.Nodup

/-! The files that a walk meets. A file that is looked for counts once, for the path under which it is met first:
it is handed out under that path if the path is text, and otherwise the path is reported. -/
namespace FontCatalog.Finder
set_option autoImplicit false
open FileTree

/-! ## Meetings -/

/-- The files under accepted paths, each time that a walk meets one. -/
def meetings (accepts : Path → Bool) (items : List WalkItem) : List (Path × FileKey) :=
  items.filterMap fun
    | .entry p isFile key => if isFile && accepts p then some (p, key) else none
    | .failure _ => none

/-- The missing roots and whatever else a walk could not look at. -/
def failures (items : List WalkItem) : List SearchError :=
  items.filterMap fun
    | .entry .. => none
    | .failure e => some e

/-- The meetings with files that have not been met before. -/
def firsts : List FileKey → List (Path × FileKey) → List (Path × FileKey)
  | _, [] => []
  | seen, m :: rest =>
    if seen.contains m.2 then firsts seen rest else m :: firsts (m.2 :: seen) rest

def isTextual (m : Path × FileKey) : Bool := m.1.text?.isSome

theorem mem_meetings {accepts : Path → Bool} {items : List WalkItem} {p : Path} {key : FileKey} :
    (p, key) ∈ meetings accepts items ↔ .entry p true key ∈ items ∧ accepts p = true := by
  unfold meetings
  rw [List.mem_filterMap]
  constructor
  · rintro ⟨item, hitem, hsome⟩
    cases item with
    | failure e => cases hsome
    | entry q isFile key' =>
      obtain ⟨hif, hpair⟩ := Option.ite_none_right_eq_some.1 hsome
      cases hpair
      obtain ⟨rfl, haccepts⟩ := Bool.and_eq_true_iff.1 hif
      exact ⟨hitem, haccepts⟩
  · rintro ⟨hitem, haccepts⟩
    refine ⟨_, hitem, ?_⟩
    simp [haccepts]

/-! ## First meetings -/

theorem firsts_sublist (seen : List FileKey) (ms : List (Path × FileKey)) : (firsts seen ms).Sublist ms := by
  induction ms generalizing seen with
  | nil => exact .slnil
  | cons m rest ih =>
    unfold firsts
    split
    · exact (ih seen).cons m
    · exact (ih _).cons_cons m

theorem mem_firsts_iff {seen : List FileKey} {ms : List (Path × FileKey)} {m : Path × FileKey} :
    m ∈ firsts seen ms ↔
      m.2 ∉ seen ∧ ∃ before after, ms = before ++ m :: after ∧ m.2 ∉ before.map Prod.snd := by
  induction ms generalizing seen with
  | nil => simp [firsts]
  | cons n rest ih =>
    unfold firsts
    split
    · next hseen =>
      rw [List.contains_iff_mem] at hseen
      rw [ih]
      refine and_congr_right fun hunseen => ⟨?_, ?_⟩
      · rintro ⟨before, after, rfl, hbefore⟩
        refine ⟨n :: before, after, rfl, ?_⟩
        rw [List.map_cons, List.mem_cons, not_or]
        exact ⟨fun heq => hunseen (heq ▸ hseen), hbefore⟩
      · rintro ⟨_ | ⟨first, before⟩, after, hsplit, hbefore⟩
        · cases hsplit
          exact absurd hseen hunseen
        · cases hsplit
          exact ⟨before, after, rfl, fun hmem => hbefore (List.mem_cons_of_mem _ hmem)⟩
    · next hunseen =>
      rw [List.contains_iff_mem] at hunseen
      rw [List.mem_cons, ih]
      constructor
      · rintro (rfl | ⟨hm, before, after, rfl, hbefore⟩)
        · exact ⟨hunseen, [], rest, rfl, List.not_mem_nil⟩
        · rw [List.mem_cons, not_or] at hm
          exact ⟨hm.2, n :: before, after, rfl, fun hmem => (List.mem_cons.1 hmem).elim hm.1 hbefore⟩
      · rintro ⟨hm, _ | ⟨first, before⟩, after, hsplit, hbefore⟩
        · cases hsplit
          exact .inl rfl
        · cases hsplit
          rw [List.map_cons, List.mem_cons, not_or] at hbefore
          exact .inr ⟨fun hmem => (List.mem_cons.1 hmem).elim hbefore.1 hm, before, after, rfl, hbefore.2⟩

/-- No file is met for the first time twice. -/
theorem firsts_nodup (seen : List FileKey) (ms : List (Path × FileKey)) :
    ((firsts seen ms).map Prod.snd).Nodup := by
  induction ms generalizing seen with
  | nil => exact List.nodup_nil
  | cons m rest ih =>
    unfold firsts
    split
    · exact ih seen
    · refine List.nodup_cons.2 ⟨fun hmem => ?_, ih _⟩
      obtain ⟨n, hn, hkey⟩ := List.mem_map.1 hmem
      apply (mem_firsts_iff.1 hn).1
      rw [hkey]
      exact List.mem_cons_self

/-! ## What a walk comes to -/

/-- The meetings that lead to a path being handed out. -/
def handable (accepts : Path → Bool) (seen : List FileKey) (items : List WalkItem) : List (Path × FileKey) :=
  (firsts seen (meetings accepts items)).filter isTextual

/-- The reports of paths that no catalog can hold. -/
def unstorable (accepts : Path → Bool) (seen : List FileKey) (items : List WalkItem) : List SearchError :=
  ((firsts seen (meetings accepts items)).filter (!isTextual ·)).map fun m => .notText m.1

section
variable (accepts : Path → Bool) (seen : List FileKey)

/-- What a walk passes over is no first meeting. -/
theorem firsts_meetings_entry (p : Path) (isFile : Bool) (key : FileKey) (rest : List WalkItem) :
    firsts seen (meetings accepts (.entry p isFile key :: rest)) =
      if !isFile || !accepts p || seen.contains key then firsts seen (meetings accepts rest)
      else (p, key) :: firsts (key :: seen) (meetings accepts rest) := by
  by_cases hlooked : (isFile && accepts p) = true
  · have hmeetings : meetings accepts (.entry p isFile key :: rest) = (p, key) :: meetings accepts rest :=
      List.filterMap_cons_some (if_pos hlooked)
    obtain ⟨rfl, haccepts⟩ := Bool.and_eq_true_iff.1 hlooked
    rw [hmeetings, firsts, haccepts]
    rfl
  · have hmeetings : meetings accepts (.entry p isFile key :: rest) = meetings accepts rest :=
      List.filterMap_cons_none (if_neg hlooked)
    have hskip : (!isFile || !accepts p || seen.contains key) = true := by
      rw [← Bool.not_and, Bool.eq_false_iff.2 hlooked]
      rfl
    rw [hmeetings, if_pos hskip]

/-- A walk hands out the paths of the files that are met first under text. -/
theorem leftOf_eq (items : List WalkItem) :
    leftOf accepts seen items = (handable accepts seen items).map Prod.fst := by
  induction items generalizing seen with
  | nil => rfl
  | cons item rest ih =>
    cases item with
    | failure e => exact ih seen
    | entry p isFile key =>
      rw [leftOf, handable, firsts_meetings_entry]
      split
      · exact ih seen
      · split <;> simp [*, isTextual, handable]

/-- A walk reports all its failures and the paths that no catalog can hold. -/
theorem errorsOf_perm (items : List WalkItem) :
    (errorsOf accepts seen items).Perm (failures items ++ unstorable accepts seen items) := by
  induction items generalizing seen with
  | nil => exact .refl _
  | cons item rest ih =>
    cases item with
    | failure e => exact (ih seen).cons e
    | entry p isFile key =>
      have hfailures : failures (.entry p isFile key :: rest) = failures rest := rfl
      rw [errorsOf, hfailures, unstorable, firsts_meetings_entry]
      split
      · exact ih seen
      · split
        · next htext =>
          rw [List.filter_cons_of_neg (by simp [isTextual, htext])]
          exact ih (key :: seen)
        · next htext =>
          rw [List.filter_cons_of_pos (by simp [isTextual, htext]), List.map_cons]
          exact ((ih (key :: seen)).cons (.notText p)).trans List.perm_middle.symm

end

end FontCatalog.Finder
