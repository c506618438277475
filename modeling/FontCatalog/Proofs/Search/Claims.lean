import FontCatalog.Proofs.Search.Finder

/-! What claims do to a finder. The paths handed out so far and those that are left are together the paths of
the finder, and the errors met so far and those that are still ahead are together its errors; when a claim finds
nothing, nothing is ahead and the total is the number of paths handed out. -/
namespace FontCatalog.Finder
set_option autoImplicit false

/-! ## Errors -/

/-- The errors that a walk meets from here on. -/
def errorsOf (accepts : Path → Bool) : List FileTree.FileKey → List FileTree.WalkItem → List SearchError
  | _, [] => []
  | seen, .failure e :: rest => e :: errorsOf accepts seen rest
  | seen, .entry p isFile key :: rest =>
    if !isFile || !accepts p || seen.contains key then errorsOf accepts seen rest
    else if p.text?.isSome then errorsOf accepts (key :: seen) rest
    else .notText p :: errorsOf accepts (key :: seen) rest

/-- The errors of a finder: those that it holds and those that it will meet. -/
def faults (f : Finder) : List SearchError :=
  f.errors ++ match f.source with
    | .listed _ => []
    | .walking accepts items => errorsOf accepts f.seen items

@[simp] theorem faults_ofAccepted (paths : List Path) (errors : List SearchError) :
    (ofAccepted paths errors).faults = errors := List.append_nil errors

@[simp] theorem faults_ofPaths (paths : List Path) : (ofPaths paths).faults = (storable paths).2 :=
  List.append_nil _

theorem errorsOf_advance (accepts : Path → Bool) (items : List FileTree.WalkItem) :
    ∀ (seen : List FileTree.FileKey) (errors : List SearchError),
      (advance accepts seen errors items).2.2.1 ++
          errorsOf accepts (advance accepts seen errors items).2.1 (advance accepts seen errors items).2.2.2 =
        errors ++ errorsOf accepts seen items := by
  induction items with
  | nil =>
    intro seen errors
    rfl
  | cons item rest ih =>
    intro seen errors
    cases item with
    | failure e => simp [advance, errorsOf, ih]
    | entry p isFile key =>
      by_cases hskip : (!isFile || !accepts p || seen.contains key) = true
      · rw [advance, if_pos hskip, ih, errorsOf, if_pos hskip]
      by_cases htext : p.text?.isSome = true
      · rw [advance, if_neg hskip, if_pos htext, errorsOf, if_neg hskip, if_pos htext]
      · rw [advance, if_neg hskip, if_neg htext, ih, errorsOf, if_neg hskip, if_neg htext, List.append_assoc]
        rfl

theorem claim_faults (f : Finder) : f.claim.2.faults = f.faults := by
  obtain ⟨source, seen, errors, claimed, total⟩ := f
  cases source with
  | listed paths => cases paths <;> rfl
  | walking accepts items =>
    have hadvance := errorsOf_advance accepts items seen errors
    rcases hnext : advance accepts seen errors items with ⟨_ | p, seen', errors', rest⟩ <;>
      rw [hnext] at hadvance <;>
      simpa only [claim, pull, faults, hnext] using hadvance

/-! ## Claims -/

/-- A finder that has found nothing for a claim. -/
structure Exhausted (f : Finder) : Prop where
  remaining : f.remaining = 0
  total : f.total = some f.claimed

theorem exhausted_of_claim_none {f : Finder} (h : f.claim.1 = none) : f.claim.2.Exhausted := by
  obtain ⟨source, seen, errors, claimed, total⟩ := f
  cases source with
  | listed paths =>
    cases paths with
    | nil => exact ⟨rfl, rfl⟩
    | cons p rest => cases h
  | walking accepts items =>
    have hadvance := leftOf_advance accepts items seen errors
    rcases hnext : advance accepts seen errors items with ⟨_ | p, seen', errors', rest⟩ <;>
      rw [hnext] at hadvance
    · obtain ⟨-, rfl⟩ := hadvance
      simp only [claim, pull, hnext]
      exact ⟨rfl, rfl⟩
    · simp [claim, pull, hnext] at h

section
variable {f : Finder} (h : f.Exhausted)
include h

theorem Exhausted.claim : f.claim = (none, f) := by
  obtain ⟨source, seen, errors, claimed, total⟩ := f
  obtain ⟨hremaining, htotal⟩ := h
  dsimp only at htotal
  subst htotal
  cases source with
  | listed paths =>
    obtain rfl : paths = [] := List.length_eq_zero_iff.1 hremaining
    rfl
  | walking accepts items =>
    obtain rfl : items = [] := List.length_eq_zero_iff.1 hremaining
    rfl

theorem Exhausted.left : f.left = [] := by
  have hclaim := (left_of_claim_none (f := f) (by rw [h.claim])).1
  exact hclaim

theorem Exhausted.faults : f.faults = f.errors := by
  obtain ⟨source, seen, errors, claimed, total⟩ := f
  obtain ⟨hremaining, -⟩ := h
  cases source with
  | listed paths => exact List.append_nil _
  | walking accepts items =>
    obtain rfl : items = [] := List.length_eq_zero_iff.1 hremaining
    exact List.append_nil _

end

/-- One claim more hands out one path more, unless nothing is left. -/
theorem claimMany_succ (k : Nat) (f : Finder) :
    claimMany (k + 1) f =
      ((claimMany k f).1 ++ (claimMany k f).2.claim.1.toList, (claimMany k f).2.claim.2) := by
  induction k generalizing f with
  | zero => rcases hclaim : f.claim with ⟨_ | p, g⟩ <;> simp [claimMany, hclaim]
  | succ k ih =>
    rcases hclaim : f.claim with ⟨_ | p, g⟩
    · have hexhausted : g.Exhausted := by
        have hnone := exhausted_of_claim_none (f := f) (by rw [hclaim])
        rwa [hclaim] at hnone
      simp [claimMany, hclaim, hexhausted.claim]
    · rw [claimMany, hclaim]
      dsimp only
      rw [ih, claimMany, hclaim]
      rfl

theorem claimMany_next {k : Nat} {f g : Finder} {paths : List Path} (h : claimMany k f = (paths, g)) :
    claimMany (k + 1) f = (paths ++ g.claim.1.toList, g.claim.2) := by
  rw [claimMany_succ, h]

theorem claimMany_left (k : Nat) (f : Finder) : f.left = (claimMany k f).1 ++ (claimMany k f).2.left := by
  induction k with
  | zero => rfl
  | succ k ih =>
    rw [claimMany_succ, ih, List.append_assoc]
    congr 1
    cases hclaim : (claimMany k f).2.claim.1 with
    | none =>
      obtain ⟨hleft, hafter⟩ := left_of_claim_none hclaim
      rw [hleft, hafter]
      rfl
    | some p => exact left_of_claim_some hclaim

theorem claimMany_faults (k : Nat) (f : Finder) : (claimMany k f).2.faults = f.faults := by
  induction k with
  | zero => rfl
  | succ k ih => rw [claimMany_succ, claim_faults, ih]

theorem drain_errors (f : Finder) : f.drain.2.errors = f.faults := by
  -- More claims than items remain come to one that finds nothing.
  have hend (fuel : Nat) : ∀ f : Finder, f.remaining < fuel → (claimMany fuel f).2.Exhausted := by
    induction fuel with
    | zero =>
      intro f h
      omega
    | succ fuel ih =>
      intro f h
      rcases hclaim : f.claim with ⟨_ | p, g⟩
      · have hnone := exhausted_of_claim_none (f := f) (by rw [hclaim])
        simpa only [claimMany, hclaim] using hnone
      · obtain ⟨-, hnone, -⟩ | ⟨q, -, -, hless⟩ := f.claim_eq
        · rw [hclaim] at hnone
          cases hnone
        · rw [hclaim] at hless
          dsimp only at hless
          simp only [claimMany, hclaim]
          exact ih g (by omega)
  have hdrained : f.drain.2.Exhausted := hend _ f (Nat.lt_succ_self _)
  rw [← hdrained.faults]
  exact claimMany_faults _ f

theorem precounted_eq (f : Finder) : f.precounted = ofAccepted f.left f.faults := by
  rw [← drain_eq_left, ← drain_errors]
  rfl

/-! ## Totals -/

/-- A finder that has handed out nothing; the total of a list is known. -/
structure Fresh (f : Finder) : Prop where
  claimed : f.claimed = 0
  total : f.total = match f.source with
    | .listed paths => some paths.length
    | .walking _ _ => none

theorem fresh_ofAccepted (paths : List Path) (errors : List SearchError) : (ofAccepted paths errors).Fresh :=
  ⟨rfl, rfl⟩

theorem fresh_ofPaths (paths : List Path) : (ofPaths paths).Fresh := ⟨rfl, rfl⟩

theorem claim_claimed (f : Finder) : f.claim.2.claimed = f.claimed + f.claim.1.toList.length := by
  obtain ⟨source, seen, errors, claimed, total⟩ := f
  cases source with
  | listed paths => cases paths <;> rfl
  | walking accepts items =>
    rcases hnext : advance accepts seen errors items with ⟨_ | p, seen', errors', rest⟩ <;>
      simp [claim, pull, hnext]

theorem claim_total {f : Finder} (h : f.claim.1 ≠ none) : f.claim.2.total = f.total := by
  obtain ⟨source, seen, errors, claimed, total⟩ := f
  cases source with
  | listed paths =>
    cases paths with
    | nil => exact absurd rfl h
    | cons p rest => rfl
  | walking accepts items =>
    rcases hnext : advance accepts seen errors items with ⟨_ | p, seen', errors', rest⟩
    · simp [claim, pull, hnext] at h
    · simp [claim, pull, hnext]

theorem claimMany_claimed (k : Nat) (f : Finder) :
    (claimMany k f).2.claimed = f.claimed + (claimMany k f).1.length := by
  induction k with
  | zero => rfl
  | succ k ih => rw [claimMany_succ, claim_claimed, ih, List.length_append, Nat.add_assoc]

/-- The total of a finder that was fresh, where it is known, is the number of its paths. -/
theorem Fresh.total_claimMany {f : Finder} (h : f.Fresh) (k : Nat) {n : Nat}
    (hn : (claimMany k f).2.total = some n) : n = f.left.length := by
  induction k with
  | zero =>
    obtain ⟨source, seen, errors, claimed, total⟩ := f
    obtain ⟨-, htotal⟩ := h
    dsimp only at htotal
    subst htotal
    cases source with
    | listed paths => exact (Option.some.inj hn).symm
    | walking accepts items => cases hn
  | succ k ih =>
    rw [claimMany_succ] at hn
    by_cases hclaim : (claimMany k f).2.claim.1 = none
    · have hleft := claimMany_left (k + 1) f
      have hclaimed := claimMany_claimed (k + 1) f
      have hexhausted := exhausted_of_claim_none hclaim
      rw [claimMany_succ] at hleft hclaimed
      rw [hexhausted.total] at hn
      rw [hexhausted.left, List.append_nil] at hleft
      rw [hleft, ← Option.some.inj hn, hclaimed, h.claimed, Nat.zero_add]
    · rw [claim_total hclaim] at hn
      exact ih hn

end FontCatalog.Finder
