import FontCatalog.Proofs.Search.Claims

/-! Calls on a finder by any number of callers. A call has the finder to itself while it lasts, so the calls of
all callers come one after another, in whatever order; `claimed` and `total` may be looked at between any two of
them. Whoever makes the claims, the paths come in their order, and then nothing more comes. -/
namespace FontCatalog.Finder
set_option autoImplicit false

/-! ## Turns -/

inductive Call where
  /-- for the next path -/
  | claim
  /-- for the errors met so far -/
  | takeErrors
  deriving DecidableEq, Repr

/-- A call and who makes it. -/
structure Turn where
  caller : Nat
  call : Call
  deriving DecidableEq, Repr

inductive Reply where
  | next (p? : Option Path)
  | errors (es : List SearchError)

def reply (f : Finder) : Call → Reply × Finder
  | .claim => (.next f.claim.1, f.claim.2)
  | .takeErrors => (.errors f.takeErrors.1, f.takeErrors.2)

/-- What each turn is answered, with the caller. -/
def replies : Finder → List Turn → List (Nat × Reply)
  | _, [] => []
  | f, u :: turns => (u.caller, (f.reply u.call).1) :: replies (f.reply u.call).2 turns

def after (f : Finder) (turns : List Turn) : Finder := turns.foldl (fun f u => (f.reply u.call).2) f

/-- What the claims among the turns are answered, with the callers. -/
def answers (f : Finder) (turns : List Turn) : List (Nat × Option Path) :=
  (f.replies turns).filterMap fun
    | (c, .next p?) => some (c, p?)
    | (_, .errors _) => none

/-- The paths that the claims get, with the callers. -/
def handed (f : Finder) (turns : List Turn) : List (Nat × Path) :=
  (f.answers turns).filterMap fun a => a.2.map fun p => (a.1, p)

/-- The errors that the other calls get. -/
def taken (f : Finder) (turns : List Turn) : List SearchError :=
  (f.replies turns).flatMap fun
    | (_, .next _) => []
    | (_, .errors es) => es

/-- Some claim has been answered that there is nothing left. -/
def Refused (f : Finder) (turns : List Turn) : Prop := ∃ a ∈ f.answers turns, a.2 = none

section
variable (f : Finder) (c : Nat) (turns : List Turn)

theorem answers_claim : f.answers (⟨c, .claim⟩ :: turns) = (c, f.claim.1) :: f.claim.2.answers turns := rfl

theorem taken_claim : f.taken (⟨c, .claim⟩ :: turns) = f.claim.2.taken turns := rfl

theorem taken_takeErrors : f.taken (⟨c, .takeErrors⟩ :: turns) = f.errors ++ f.takeErrors.2.taken turns := rfl

theorem handed_claim_none (h : f.claim.1 = none) : f.handed (⟨c, .claim⟩ :: turns) = f.claim.2.handed turns := by
  rw [handed, answers_claim, h]
  rfl

theorem handed_claim_some {p : Path} (h : f.claim.1 = some p) :
    f.handed (⟨c, .claim⟩ :: turns) = (c, p) :: f.claim.2.handed turns := by
  rw [handed, answers_claim, h]
  rfl

end

/-- A fact about a finder after turns is proved turn by turn: a claim that gets nothing, one that gets a path, and
a call for the errors. -/
theorem turns_induction {motive : Finder → List Turn → Prop} (nil : ∀ f, motive f [])
    (refused : ∀ f c turns, f.claim.1 = none → motive f.claim.2 turns → motive f (⟨c, .claim⟩ :: turns))
    (given : ∀ f c p turns, f.claim.1 = some p → motive f.claim.2 turns → motive f (⟨c, .claim⟩ :: turns))
    (takes : ∀ f c turns, motive f.takeErrors.2 turns → motive f (⟨c, .takeErrors⟩ :: turns))
    (f : Finder) (turns : List Turn) : motive f turns := by
  induction turns generalizing f with
  | nil => exact nil f
  | cons u turns ih =>
    obtain ⟨c, call⟩ := u
    cases call with
    | takeErrors => exact takes f c turns (ih _)
    | claim =>
      cases hclaim : f.claim.1 with
      | none => exact refused f c turns hclaim (ih _)
      | some p => exact given f c p turns hclaim (ih _)

theorem replies_append (f : Finder) (turns later : List Turn) :
    f.replies (turns ++ later) = f.replies turns ++ (f.after turns).replies later := by
  induction turns generalizing f with
  | nil => rfl
  | cons u turns ih => exact congrArg (_ :: ·) (ih _)

theorem taken_append (f : Finder) (turns later : List Turn) :
    f.taken (turns ++ later) = f.taken turns ++ (f.after turns).taken later := by
  rw [taken, replies_append, List.flatMap_append]
  rfl

/-! ## Paths -/

/-- The paths handed out so far and those that are left. -/
theorem handed_left (f : Finder) (turns : List Turn) :
    (f.handed turns).map Prod.snd ++ (f.after turns).left = f.left := by
  induction f, turns using turns_induction with
  | nil f => rfl
  | refused f c turns hclaim ih =>
    obtain ⟨hleft, hafter⟩ := left_of_claim_none hclaim
    rw [handed_claim_none f c turns hclaim, hleft, ← hafter]
    exact ih
  | given f c p turns hclaim ih =>
    rw [handed_claim_some f c turns hclaim, left_of_claim_some hclaim, ← ih]
    rfl
  | takes f c turns ih => exact ih

/-- The claims get the paths that are left one after another, and nothing behind the last. -/
theorem answers_getElem? (f : Finder) (turns : List Turn) :
    ∀ (i : Nat) (a : Nat × Option Path), (f.answers turns)[i]? = some a → a.2 = f.left[i]? := by
  induction f, turns using turns_induction with
  | nil f =>
    intro i a h
    cases h
  | refused f c turns hclaim ih =>
    obtain ⟨hleft, hafter⟩ := left_of_claim_none hclaim
    intro i a h
    rw [answers_claim] at h
    cases i with
    | zero =>
      cases h
      rw [hclaim, hleft]
      rfl
    | succ i =>
      rw [ih i a h, hafter, hleft]
      rfl
  | given f c p turns hclaim ih =>
    intro i a h
    rw [answers_claim] at h
    rw [left_of_claim_some hclaim]
    cases i with
    | zero =>
      cases h
      exact hclaim
    | succ i => exact ih i a h
  | takes f c turns ih => exact ih

theorem after_claimed (f : Finder) (turns : List Turn) :
    (f.after turns).claimed = f.claimed + (f.handed turns).length := by
  induction f, turns using turns_induction with
  | nil f => rfl
  | refused f c turns hclaim ih =>
    have hclaimed : f.claim.2.claimed = f.claimed := by
      rw [claim_claimed, hclaim]
      rfl
    rw [handed_claim_none f c turns hclaim, ← hclaimed]
    exact ih
  | given f c p turns hclaim ih =>
    have hclaimed : f.claim.2.claimed = f.claimed + 1 := by
      rw [claim_claimed, hclaim]
      rfl
    rw [handed_claim_some f c turns hclaim, List.length_cons, Nat.add_comm _ 1, ← Nat.add_assoc, ← hclaimed]
    exact ih
  | takes f c turns ih => exact ih

/-! ## Errors -/

/-- The errors taken so far, with those that are held and those that are ahead. -/
theorem taken_faults (f : Finder) (turns : List Turn) : f.taken turns ++ (f.after turns).faults = f.faults := by
  induction f, turns using turns_induction with
  | nil f => rfl
  | refused f c turns hclaim ih =>
    rw [taken_claim, ← f.claim_faults]
    exact ih
  | given f c p turns hclaim ih =>
    rw [taken_claim, ← f.claim_faults]
    exact ih
  | takes f c turns ih =>
    have hfaults : f.faults = f.errors ++ f.takeErrors.2.faults := rfl
    rw [taken_takeErrors, hfaults, ← ih, List.append_assoc]
    rfl

/-! ## The end -/

theorem Exhausted.takeErrors {f : Finder} (h : f.Exhausted) : f.takeErrors.2.Exhausted := ⟨h.remaining, h.total⟩

theorem Exhausted.after {f : Finder} (h : f.Exhausted) (turns : List Turn) :
    (f.after turns).Exhausted ∧ ∀ a ∈ f.answers turns, a.2 = none := by
  induction f, turns using turns_induction with
  | nil f => exact ⟨h, List.forall_mem_nil _⟩
  | refused f c turns hclaim ih =>
    rw [answers_claim, List.forall_mem_cons]
    have hsame : f.claim.2 = f := congrArg Prod.snd h.claim
    rw [hsame] at ih
    obtain ⟨hafter, hanswers⟩ := ih h
    refine ⟨?_, hclaim, ?_⟩
    · show (f.claim.2.after turns).Exhausted
      rwa [hsame]
    · rwa [hsame]
  | given f c p turns hclaim ih =>
    rw [h.claim] at hclaim
    cases hclaim
  | takes f c turns ih => exact ih h.takeErrors

theorem Refused.exhausted {f : Finder} {turns : List Turn} (h : f.Refused turns) : (f.after turns).Exhausted := by
  induction f, turns using turns_induction with
  | nil f => simp [Refused, answers, replies] at h
  | refused f c turns hclaim ih => exact ((exhausted_of_claim_none hclaim).after turns).1
  | given f c p turns hclaim ih =>
    apply ih
    obtain ⟨a, ha, hnone⟩ := h
    rw [answers_claim] at ha
    rcases List.mem_cons.1 ha with rfl | ha
    · rw [hclaim] at hnone
      cases hnone
    · exact ⟨a, ha, hnone⟩
  | takes f c turns ih => exact ih h

theorem after_total {f : Finder} {turns : List Turn} (h : ¬ f.Refused turns) :
    (f.after turns).total = f.total := by
  induction f, turns using turns_induction with
  | nil f => rfl
  | refused f c turns hclaim ih => exact absurd ⟨_, List.mem_cons_self, hclaim⟩ h
  | given f c p turns hclaim ih =>
    have hgiven : f.claim.1 ≠ none := by
      rw [hclaim]
      exact Option.some_ne_none p
    rw [← claim_total hgiven]
    exact ih fun ⟨a, ha, hnone⟩ => h ⟨a, List.mem_cons_of_mem _ ha, hnone⟩
  | takes f c turns ih => exact ih h

/-! ## Totals -/

/-- A total that is known counts the paths handed out and those that are left. -/
def Counted (f : Finder) : Prop := ∀ n, f.total = some n → n = f.claimed + f.left.length

theorem Fresh.counted {f : Finder} (h : f.Fresh) : f.Counted := by
  intro n hn
  rw [h.claimed, Nat.zero_add]
  exact h.total_claimMany 0 hn

/-- A claim takes a path from those that are left to those handed out. -/
theorem claim_sum (f : Finder) : f.claim.2.claimed + f.claim.2.left.length = f.claimed + f.left.length := by
  rw [claim_claimed]
  cases hclaim : f.claim.1 with
  | none =>
    obtain ⟨hleft, hafter⟩ := left_of_claim_none hclaim
    rw [hleft, hafter]
    rfl
  | some p =>
    rw [left_of_claim_some hclaim, List.length_cons, Option.toList_some, List.length_singleton]
    omega

theorem Counted.claim {f : Finder} (h : f.Counted) : f.claim.2.Counted := by
  intro n hn
  by_cases hclaim : f.claim.1 = none
  · have hexhausted := exhausted_of_claim_none hclaim
    rw [hexhausted.total] at hn
    rw [hexhausted.left, ← Option.some.inj hn, List.length_nil, Nat.add_zero]
  · rw [claim_total hclaim] at hn
    rw [claim_sum]
    exact h n hn

theorem Counted.drain {f : Finder} (h : f.Counted) : f.drain.2.Counted := by
  have hmany (k : Nat) : (claimMany k f).2.Counted := by
    induction k with
    | zero => exact h
    | succ k ih =>
      rw [claimMany_succ]
      exact ih.claim
  exact hmany _

theorem Counted.after {f : Finder} (h : f.Counted) (turns : List Turn) : (f.after turns).Counted := by
  induction f, turns using turns_induction with
  | nil f => exact h
  | refused f c turns hclaim ih => exact ih h.claim
  | given f c p turns hclaim ih => exact ih h.claim
  | takes f c turns ih => exact ih h

end FontCatalog.Finder
