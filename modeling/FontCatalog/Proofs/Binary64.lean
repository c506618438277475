import FontCatalog.Binary64
import Mathlib.Data.Nat.Log
import Mathlib.Tactic.Ring

/-! Rounding keeps the order of what it rounds. So the doubles next to natural numbers come in the order of these,
and the quotient of a double by one that is no less is at most one. -/
namespace FontCatalog.Binary64
set_option autoImplicit false

/-! ## Integers -/

section
variable {x x' y k : Nat}

theorem div_le_roundEven (x y : Nat) : x / y ≤ roundEven x y := by
  rw [roundEven]
  split
  · exact Nat.le_succ _
  · exact Nat.le_refl _

theorem roundEven_le_succ (x y : Nat) : roundEven x y ≤ x / y + 1 := by
  rw [roundEven]
  split
  · exact Nat.le_refl _
  · exact Nat.le_succ _

theorem le_roundEven (hy : 0 < y) (h : k * y ≤ x) : k ≤ roundEven x y :=
  Nat.le_trans ((Nat.le_div_iff_mul_le hy).2 h) (div_le_roundEven x y)

theorem roundEven_mul (hy : 0 < y) (k : Nat) : roundEven (k * y) y = k := by
  rw [roundEven, Nat.mul_div_cancel _ hy, Nat.mul_mod_left]
  simp [hy.ne]

theorem roundEven_mono (h : x ≤ x') : roundEven x y ≤ roundEven x' y := by
  rcases (Nat.div_le_div_right h : x / y ≤ x' / y).lt_or_eq with hlt | hsame
  · exact (roundEven_le_succ x y).trans (Nat.le_trans (Nat.succ_le_of_lt hlt) (div_le_roundEven x' y))
  · -- of two numbers with one quotient the greater has the greater remainder
    have hx := Nat.div_add_mod x y
    have hx' := Nat.div_add_mod x' y
    rw [roundEven, roundEven, hsame]
    rw [hsame] at hx
    simp only [gt_iff_lt, Bool.or_eq_true, decide_eq_true_eq, Bool.and_eq_true, beq_iff_eq]
    split <;> split <;> omega

theorem roundEven_le (hy : 0 < y) (h : x ≤ k * y) : roundEven x y ≤ k :=
  (roundEven_mono h).trans_eq (roundEven_mul hy k)

end

/-! ## Quotients -/

/-- The power of the double next to `x / y`, over 2^1074, before its significand is rounded. -/
def powerOf (x y : Nat) : Nat := Nat.log2 (x / y) + 1 - 53

/-- `x / y` with as many digits as a double has. -/
def rounded (x y : Nat) : Nat := roundEven x (y * 2 ^ powerOf x y) * 2 ^ powerOf x y

section
variable {x x' y : Nat}

theorem powerOf_mono (h : x ≤ x') : powerOf x y ≤ powerOf x' y := by
  have hlog : Nat.log2 (x / y) ≤ Nat.log2 (x' / y) := by
    rw [Nat.log2_eq_log_two, Nat.log2_eq_log_two]
    exact Nat.log_mono_right (Nat.div_le_div_right h)
  exact Nat.sub_le_sub_right (Nat.succ_le_succ hlog) 53

variable (hy : 0 < y)
include hy

/-- The significand has fifty-three digits at most, -/
theorem lt_powerOf (x : Nat) : x < 2 ^ 53 * (y * 2 ^ powerOf x y) := by
  have hlog : x / y < 2 ^ (53 + powerOf x y) :=
    Nat.lt_log2_self.trans_le (Nat.pow_le_pow_right Nat.two_pos (by unfold powerOf; omega))
  have hx : x < y * 2 ^ (53 + powerOf x y) := by rwa [Nat.mul_comm, ← Nat.div_lt_iff_lt_mul hy]
  rwa [Nat.mul_left_comm, ← Nat.pow_add]

/-- and so many where the power is not the least. -/
theorem powerOf_le (h : 0 < powerOf x y) : 2 ^ 52 * (y * 2 ^ powerOf x y) ≤ x := by
  have hlog : Nat.log2 (x / y) = 52 + powerOf x y := by
    unfold powerOf at h ⊢
    omega
  have hne : x / y ≠ 0 := by
    intro hzero
    rw [hzero, Nat.log2_zero] at hlog
    omega
  have hx := (Nat.le_div_iff_mul_le hy).1 (hlog ▸ Nat.log2_self_le hne)
  rwa [Nat.mul_left_comm, ← Nat.pow_add, Nat.mul_comm]

theorem rounded_mono (h : x ≤ x') : rounded x y ≤ rounded x' y := by
  have hunit (p : Nat) : 0 < y * 2 ^ p := Nat.mul_pos hy (Nat.two_pow_pos p)
  rcases (powerOf_mono (y := y) h).lt_or_eq with hlt | hsame
  · have hx : roundEven x (y * 2 ^ powerOf x y) ≤ 2 ^ 53 := roundEven_le (hunit _) (lt_powerOf hy x).le
    have hx' : 2 ^ 52 ≤ roundEven x' (y * 2 ^ powerOf x' y) :=
      le_roundEven (hunit _) (powerOf_le hy (Nat.zero_lt_of_lt hlt))
    calc rounded x y
        ≤ 2 ^ 53 * 2 ^ powerOf x y := Nat.mul_le_mul_right _ hx
      _ = 2 ^ 52 * 2 ^ (powerOf x y + 1) := by rw [← Nat.pow_add, ← Nat.pow_add]; congr 1; omega
      _ ≤ 2 ^ 52 * 2 ^ powerOf x' y := Nat.mul_le_mul_left _ (Nat.pow_le_pow_right Nat.two_pos hlt)
      _ ≤ rounded x' y := Nat.mul_le_mul_right _ hx'
  · rw [rounded, rounded, hsame]
    exact Nat.mul_le_mul_right _ (roundEven_mono h)

theorem rounded_pos (h : y ≤ x) : 0 < rounded x y := by
  refine Nat.mul_pos ?_ (Nat.two_pow_pos _)
  rcases Nat.eq_zero_or_pos (powerOf x y) with hzero | hpos
  · rw [hzero, Nat.pow_zero, Nat.mul_one]
    exact le_roundEven hy (by rwa [Nat.one_mul])
  · exact Nat.lt_of_lt_of_le (Nat.two_pow_pos 52)
      (le_roundEven (Nat.mul_pos hy (Nat.two_pow_pos _)) (powerOf_le hy hpos))

end

/-! ## Doubles -/

theorem unitScale_pos : 0 < unitScale := by decide +kernel

theorem log2_unitScale : Nat.log2 unitScale = 1074 := by decide +kernel

theorem unitScale_eq : unitScale = 2 ^ 52 * 2 ^ 1022 := by decide +kernel

theorem powerOf_unit {y : Nat} (hy : 0 < y) : powerOf (y * unitScale) y = 1022 := by
  rw [powerOf, Nat.mul_div_cancel_left _ hy, log2_unitScale]

theorem rounded_unit {y : Nat} (hy : 0 < y) : rounded (y * unitScale) y = unitScale := by
  have hexact : y * unitScale = 2 ^ 52 * (y * 2 ^ 1022) := by rw [unitScale_eq, Nat.mul_left_comm]
  rw [rounded, powerOf_unit hy, hexact, roundEven_mul (Nat.mul_pos hy (Nat.two_pow_pos _)), ← unitScale_eq]

theorem ofRatio_eq {num den : Nat} (h : powerOf (num * unitScale) den < 2045) :
    ∃ d, ofRatio num den = some d ∧ d.scaled = rounded (num * unitScale) den := by
  have hpower : Nat.log2 (num * unitScale / den) + 1 - 53 = powerOf (num * unitScale) den := rfl
  simp only [ofRatio, rounded, hpower]
  generalize num * unitScale = x at h
  generalize powerOf x den = p at h
  by_cases hcarry : (roundEven x (den * Nat.pow 2 p) == 2 * leadingBit) = true
  · have hsignificand : roundEven x (den * 2 ^ p) = 2 * leadingBit := beq_iff_eq.1 hcarry
    rw [if_pos hcarry, if_neg (Nat.not_lt.2 h)]
    refine ⟨_, rfl, ?_⟩
    rw [hsignificand, scaled, Nat.mul_comm 2, Nat.mul_assoc]
    exact congrArg (leadingBit * ·) Nat.pow_succ'
  · rw [if_neg hcarry, if_neg (Nat.not_lt.2 (Nat.le_of_lt h))]
    exact ⟨_, rfl, rfl⟩

theorem ofNat_scaled {n : Nat} (h : n < 2 ^ 64) : (ofNat n).scaled = rounded (n * unitScale) 1 := by
  have hpower : powerOf (n * unitScale) 1 < 2045 := by
    have hle : powerOf (n * unitScale) 1 ≤ powerOf (2 ^ 64 * unitScale) 1 :=
      powerOf_mono (Nat.mul_le_mul_right _ h.le)
    exact hle.trans_lt (by decide +kernel)
  obtain ⟨d, hd, hscaled⟩ := ofRatio_eq hpower
  rw [ofNat, hd, Option.getD_some, hscaled]

theorem ofNat_mono {m n : Nat} (h : m ≤ n) (hn : n < 2 ^ 64) : (ofNat m).scaled ≤ (ofNat n).scaled := by
  rw [ofNat_scaled (h.trans_lt hn), ofNat_scaled hn]
  exact rounded_mono Nat.one_pos (Nat.mul_le_mul_right _ h)

theorem ofNat_pos {n : Nat} (h : 0 < n) (hn : n < 2 ^ 64) : 0 < (ofNat n).scaled := by
  rw [ofNat_scaled hn]
  exact rounded_pos Nat.one_pos (Nat.mul_pos h unitScale_pos)

theorem one_scaled : (ofNat 1).scaled = unitScale := by
  rw [ofNat_scaled (by decide), rounded_unit Nat.one_pos]

/-- A quotient of doubles is at most one if the quotient of their numerators is. -/
theorem div_le_one {a b : Binary64} (h : a.scaled ≤ b.scaled) (hb : 0 < b.scaled) :
    ∃ r, div a b = some r ∧ r.le (ofNat 1) = true := by
  have hle : a.scaled * unitScale ≤ b.scaled * unitScale := Nat.mul_le_mul_right _ h
  have hpower : powerOf (a.scaled * unitScale) b.scaled ≤ 1022 := (powerOf_mono hle).trans_eq (powerOf_unit hb)
  obtain ⟨r, hr, hscaled⟩ := ofRatio_eq (hpower.trans_lt (by decide))
  refine ⟨r, hr, decide_eq_true ?_⟩
  rw [hscaled, one_scaled]
  exact (rounded_mono hb hle).trans_eq (rounded_unit hb)

end FontCatalog.Binary64
