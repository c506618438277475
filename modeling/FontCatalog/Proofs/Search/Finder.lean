import FontCatalog.Search.Finder
import Mathlib.Data.List.Basic

/-! What a finder hands out. The paths that are left in it are known from its source and the files that it
has met; a claim takes the first of them, draining takes them all, and going through the walk first does
not change them. -/
namespace FontCatalog.Finder
set_option autoImplicit false

/-! ## The paths that are left -/

/-- What a walk hands out from here on. -/
def leftOf (accepts : Path → Bool) : List FileTree.FileKey → List FileTree.WalkItem → List Path
  | _, [] => []
  | seen, .failure _ :: rest => leftOf accepts seen rest
  | seen, .entry p isFile key :: rest =>
    if !isFile || !accepts p || seen.contains key then leftOf accepts seen rest
    else if p.text?.isSome then p :: leftOf accepts (key :: seen) rest
    else leftOf accepts (key :: seen) rest

def left (f : Finder) : List Path :=
  match f.source with
  | .listed paths => paths
  | .walking accepts items => leftOf accepts f.seen items

@[simp] theorem left_ofAccepted (paths : List Path) (errors : List SearchError) :
    (ofAccepted paths errors).left = paths := rfl

@[simp] theorem left_ofPaths (paths : List Path) : (ofPaths paths).left = (storable paths).1 := rfl

/-! ## Claims -/

/-- Going on in a walk gives the first path that is left, or comes to the end of the walk. -/
theorem leftOf_advance (accepts : Path → Bool) (items : List FileTree.WalkItem) :
    ∀ (seen : List FileTree.FileKey) (errors : List SearchError),
      match advance accepts seen errors items with
      | (none, _, _, rest) => leftOf accepts seen items = [] ∧ rest = []
      | (some p, seen', _, rest) =>
        leftOf accepts seen items = p :: leftOf accepts seen' rest ∧ rest.length < items.length := by
  induction items with
  | nil =>
    intro seen errors
    exact ⟨rfl, rfl⟩
  | cons item rest ih =>
    -- Behind an item that is passed over, the rest of the walk decides.
    have hpassed {seen seen' : List FileTree.FileKey} {errors : List SearchError}
        (hadvance : ∃ errors', advance accepts seen errors (item :: rest) =
          advance accepts seen' errors' rest)
        (hleft : leftOf accepts seen (item :: rest) = leftOf accepts seen' rest) :
        match advance accepts seen errors (item :: rest) with
        | (none, _, _, rest') => leftOf accepts seen (item :: rest) = [] ∧ rest' = []
        | (some p, seen'', _, rest') =>
          leftOf accepts seen (item :: rest) = p :: leftOf accepts seen'' rest' ∧
            rest'.length < (item :: rest).length := by
      obtain ⟨errors', hadvance⟩ := hadvance
      rw [hadvance, hleft]
      have hrest := ih seen' errors'
      split
      · next h => rwa [h] at hrest
      · next h =>
        rw [h] at hrest
        exact ⟨hrest.1, Nat.lt_succ_of_lt hrest.2⟩
    intro seen errors
    cases item with
    | failure e => exact hpassed ⟨errors ++ [e], rfl⟩ rfl
    | entry p isFile key =>
      by_cases hskip : (!isFile || !accepts p || seen.contains key) = true
      · exact hpassed ⟨errors, by rw [advance, if_pos hskip]⟩ (by rw [leftOf, if_pos hskip])
      by_cases htext : p.text?.isSome = true
      · rw [advance, if_neg hskip, if_pos htext, leftOf, if_neg hskip, if_pos htext]
        exact ⟨rfl, Nat.lt_succ_self _⟩
      · exact hpassed ⟨errors ++ [.notText p], by rw [advance, if_neg hskip, if_neg htext]⟩
          (by rw [leftOf, if_neg hskip, if_neg htext])

/-- A claim takes the first path that is left. -/
theorem claim_eq (f : Finder) :
    (f.left = [] ∧ f.claim.1 = none ∧ f.claim.2.left = []) ∨
    ∃ p, f.claim.1 = some p ∧ f.left = p :: f.claim.2.left ∧ f.claim.2.remaining < f.remaining := by
  obtain ⟨source, seen, errors, claimed, total⟩ := f
  cases source with
  | listed paths =>
    cases paths with
    | nil => exact .inl ⟨rfl, rfl, rfl⟩
    | cons p rest => exact .inr ⟨p, rfl, rfl, Nat.lt_succ_self _⟩
  | walking accepts items =>
    have hadvance := leftOf_advance accepts items seen errors
    rcases hnext : advance accepts seen errors items with ⟨_ | p, seen', errors', rest⟩
    · rw [hnext] at hadvance
      obtain ⟨hleft, rfl⟩ := hadvance
      refine .inl ⟨hleft, ?_, ?_⟩ <;> simp [claim, pull, hnext, left, leftOf]
    · rw [hnext] at hadvance
      refine .inr ⟨p, ?_, ?_, ?_⟩
      · simp [claim, pull, hnext]
      · simpa [claim, pull, hnext, left] using hadvance.1
      · simpa [claim, pull, hnext, remaining] using hadvance.2

theorem left_of_claim_none {f : Finder} (h : f.claim.1 = none) : f.left = [] ∧ f.claim.2.left = [] := by
  obtain ⟨hleft, -, hafter⟩ | ⟨p, hsome, -⟩ := f.claim_eq
  · exact ⟨hleft, hafter⟩
  · rw [h] at hsome
    cases hsome

theorem left_of_claim_some {f : Finder} {p : Path} (h : f.claim.1 = some p) :
    f.left = p :: f.claim.2.left := by
  obtain ⟨-, hnone, -⟩ | ⟨q, hsome, hleft, -⟩ := f.claim_eq
  · rw [h] at hnone
    cases hnone
  · rw [h] at hsome
    cases hsome
    exact hleft

/-! ## Draining -/

theorem claimMany_eq (fuel : Nat) (f : Finder) (h : f.remaining < fuel) :
    (claimMany fuel f).1 = f.left ∧ (claimMany fuel f).2.left = [] := by
  induction fuel generalizing f with
  | zero => omega
  | succ fuel ih =>
    rcases hclaim : f.claim with ⟨_ | p, g⟩
    · obtain ⟨hleft, hafter⟩ := left_of_claim_none (f := f) (by rw [hclaim])
      rw [hclaim] at hafter
      simp only [claimMany, hclaim]
      exact ⟨hleft.symm, hafter⟩
    · obtain ⟨-, hnone, -⟩ | ⟨q, hsome, hleft, hless⟩ := f.claim_eq
      · rw [hclaim] at hnone
        cases hnone
      · rw [hclaim] at hsome hleft hless
        cases hsome
        dsimp only at hleft hless
        obtain ⟨hpaths, hafter⟩ := ih g (by omega)
        simp only [claimMany, hclaim]
        exact ⟨by rw [hleft, hpaths], hafter⟩

@[simp] theorem drain_eq_left (f : Finder) : f.drain.1 = f.left :=
  (claimMany_eq _ f (Nat.lt_succ_self _)).1

end FontCatalog.Finder
