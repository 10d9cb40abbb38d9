import Mathlib.Data.Int.Log
import Mathlib.Data.Rat.Floor
import Mathlib.Data.Sign.Defs
import Mathlib.Tactic.Linarith
import Mathlib.Tactic.NormNum
import Mathlib.Tactic.Positivity
import Mathlib.Tactic.FieldSimp
import Mathlib.Tactic.GCongr

/-!
Round-to-nearest-even to `p` binary digits, on rationals. Exponents are
unbounded: quotients of 64-bit integers stay far from the subnormal and the
overflow range of either IEEE width, so only the precision matters.
-/

namespace Orchestrator.BinaryRounding

/-- Nearest integer, ties to the even one. -/
def roundEven (x : ℚ) : ℤ :=
  if x - ⌊x⌋ < 1 / 2 then ⌊x⌋
  else if 1 / 2 < x - ⌊x⌋ then ⌊x⌋ + 1
  else if ⌊x⌋ % 2 = 0 then ⌊x⌋
  else ⌊x⌋ + 1

/-- Weight of the last of `p` binary digits of `q`. -/
def ulp (p : ℕ) (q : ℚ) : ℚ := (2 : ℚ) ^ (Int.log 2 q - (p : ℤ) + 1)

def roundPos (p : ℕ) (q : ℚ) : ℚ := roundEven (q / ulp p q) * ulp p q

def roundTo (p : ℕ) (q : ℚ) : ℚ :=
  if q = 0 then 0 else if 0 < q then roundPos p q else -roundPos p (-q)

theorem floor_le_round_even (x : ℚ) : ⌊x⌋ ≤ roundEven x := by
  unfold roundEven
  split_ifs <;> omega

theorem round_even_le_floor_succ (x : ℚ) : roundEven x ≤ ⌊x⌋ + 1 := by
  unfold roundEven
  split_ifs <;> omega

theorem round_even_int (n : ℤ) : roundEven n = n := by
  simp [roundEven]

theorem round_even_mono {x y : ℚ} (le : x ≤ y) : roundEven x ≤ roundEven y := by
  rcases (Int.floor_mono le).lt_or_eq with below | same
  · calc roundEven x ≤ ⌊x⌋ + 1 := round_even_le_floor_succ x
      _ ≤ ⌊y⌋ := below
      _ ≤ roundEven y := floor_le_round_even y
  · have fraction : x - (⌊y⌋ : ℚ) ≤ y - ⌊y⌋ := by linarith
    unfold roundEven
    rw [same]
    split_ifs <;> first | omega | (exfalso; linarith)

theorem ulp_pos (p : ℕ) (q : ℚ) : 0 < ulp p q := by
  unfold ulp
  exact zpow_pos (by norm_num) _

/-- `q` spans `p` digits: its quotient by the last digit's weight lies between
two consecutive powers of two. -/
theorem significand_bounds (p : ℕ) (positive : 0 < p) (q : ℚ) (hq : 0 < q) :
    (2 : ℚ) ^ (p - 1) ≤ q / ulp p q ∧ q / ulp p q < 2 ^ p := by
  have lower := Int.zpow_log_le_self (b := 2) (by decide) hq
  have upper := Int.lt_zpow_succ_log_self (b := 2) (by decide) q
  have weight : (2 : ℚ) ^ (p - 1) * ulp p q = 2 ^ Int.log 2 q := by
    rw [ulp, ← zpow_natCast, ← zpow_add₀ (by norm_num : (2 : ℚ) ≠ 0)]
    congr 1
    omega
  have double : (2 : ℚ) ^ p * ulp p q = 2 ^ (Int.log 2 q + 1) := by
    rw [ulp, ← zpow_natCast, ← zpow_add₀ (by norm_num : (2 : ℚ) ≠ 0)]
    congr 1
    omega
  constructor
  · rw [le_div_iff₀ (ulp_pos p q), weight]
    exact_mod_cast lower
  · rw [div_lt_iff₀ (ulp_pos p q), double]
    exact_mod_cast upper

theorem round_pos_lower (p : ℕ) (positive : 0 < p) (q : ℚ) (hq : 0 < q) :
    (2 : ℚ) ^ Int.log 2 q ≤ roundPos p q := by
  have digits : ((2 ^ (p - 1) : ℤ) : ℚ) ≤ q / ulp p q := by
    simpa using (significand_bounds p positive q hq).1
  have rounded : (2 ^ (p - 1) : ℤ) ≤ roundEven (q / ulp p q) := by
    have h := round_even_mono digits
    rwa [round_even_int] at h
  calc (2 : ℚ) ^ Int.log 2 q = 2 ^ (p - 1) * ulp p q := by
        rw [ulp, ← zpow_natCast, ← zpow_add₀ (by norm_num : (2 : ℚ) ≠ 0)]
        congr 1
        omega
    _ ≤ roundEven (q / ulp p q) * ulp p q := by
        have cast : (2 : ℚ) ^ (p - 1) ≤ (roundEven (q / ulp p q) : ℚ) := by exact_mod_cast rounded
        exact mul_le_mul_of_nonneg_right cast (ulp_pos p q).le

theorem round_pos_upper (p : ℕ) (positive : 0 < p) (q : ℚ) (hq : 0 < q) :
    roundPos p q ≤ (2 : ℚ) ^ (Int.log 2 q + 1) := by
  have digits : q / ulp p q ≤ ((2 ^ p : ℤ) : ℚ) := by
    simpa using (significand_bounds p positive q hq).2.le
  have rounded : roundEven (q / ulp p q) ≤ (2 ^ p : ℤ) := by
    have h := round_even_mono digits
    rwa [round_even_int] at h
  calc (roundEven (q / ulp p q) : ℚ) * ulp p q ≤ 2 ^ p * ulp p q := by
        have cast : (roundEven (q / ulp p q) : ℚ) ≤ 2 ^ p := by exact_mod_cast rounded
        exact mul_le_mul_of_nonneg_right cast (ulp_pos p q).le
    _ = (2 : ℚ) ^ (Int.log 2 q + 1) := by
        rw [ulp, ← zpow_natCast, ← zpow_add₀ (by norm_num : (2 : ℚ) ≠ 0)]
        congr 1
        omega

-- Within one binade both operands share the last digit's weight; across
-- binades the power of two between them separates the two results.
theorem round_pos_mono (p : ℕ) (positive : 0 < p) {a b : ℚ} (ha : 0 < a) (le : a ≤ b) :
    roundPos p a ≤ roundPos p b := by
  have hb : 0 < b := ha.trans_le le
  rcases (Int.log_mono_right (b := 2) ha le).lt_or_eq with below | same
  · calc roundPos p a ≤ (2 : ℚ) ^ (Int.log 2 a + 1) := round_pos_upper p positive a ha
      _ ≤ (2 : ℚ) ^ Int.log 2 b := zpow_le_zpow_right₀ (by norm_num) below
      _ ≤ roundPos p b := round_pos_lower p positive b hb
  · have weight : ulp p a = ulp p b := by rw [ulp, ulp, same]
    have digits : a / ulp p b ≤ b / ulp p b := div_le_div_of_nonneg_right le (ulp_pos p b).le
    have rounded : (roundEven (a / ulp p b) : ℚ) ≤ roundEven (b / ulp p b) := by
      exact_mod_cast round_even_mono digits
    rw [roundPos, roundPos, weight]
    exact mul_le_mul_of_nonneg_right rounded (ulp_pos p b).le

theorem round_to_mono (p : ℕ) (positive : 0 < p) {a b : ℚ} (ha : 0 ≤ a) (le : a ≤ b) :
    roundTo p a ≤ roundTo p b := by
  rcases ha.eq_or_lt with zero | hpos
  · subst zero
    rcases le.eq_or_lt with same | hb
    · rw [← same]
    · have bound := round_pos_lower p positive b hb
      have power : (0 : ℚ) < 2 ^ Int.log 2 b := zpow_pos (by norm_num) _
      simp only [roundTo, ↓reduceIte, hb.ne', hb]
      linarith
  · have hb : 0 < b := hpos.trans_le le
    simp only [roundTo, hpos.ne', hb.ne', hpos, hb, ↓reduceIte]
    exact round_pos_mono p positive hpos le

theorem round_to_zero (p : ℕ) : roundTo p 0 = 0 := by
  simp [roundTo]

theorem round_to_one (p : ℕ) (positive : 0 < p) : roundTo p 1 = 1 := by
  have weight : ulp p 1 = ((2 : ℚ) ^ (p - 1))⁻¹ := by
    rw [ulp, Int.log_one_right, ← zpow_natCast, ← zpow_neg]
    congr 1
    omega
  have digits : (1 : ℚ) / ulp p 1 = ((2 ^ (p - 1) : ℤ) : ℚ) := by
    rw [weight]
    simp
  rw [roundTo, if_neg one_ne_zero, if_pos one_pos, roundPos, digits, round_even_int, weight]
  push_cast
  exact mul_inv_cancel₀ (by positivity)

theorem round_to_neg (p : ℕ) (q : ℚ) : roundTo p (-q) = -roundTo p q := by
  rcases lt_trichotomy q 0 with below | rfl | above
  · simp [roundTo, below, below.ne, below.not_gt]
  · simp [roundTo]
  · simp [roundTo, above, above.ne', above.not_gt]

/-- Rounding adds at most one unit in the last of `p` digits. -/
theorem round_to_le (p : ℕ) (positive : 0 < p) {q : ℚ} (hq : 0 ≤ q) :
    roundTo p q ≤ q * (1 + 1 / 2 ^ (p - 1)) := by
  rcases hq.eq_or_lt with zero | above
  · rw [← zero, round_to_zero, zero_mul]
  · have weight := ulp_pos p q
    have digits : (roundEven (q / ulp p q) : ℚ) ≤ q / ulp p q + 1 := by
      have next : (roundEven (q / ulp p q) : ℚ) ≤ ⌊q / ulp p q⌋ + 1 := by
        exact_mod_cast round_even_le_floor_succ (q / ulp p q)
      linarith [Int.floor_le (q / ulp p q)]
    have last : ulp p q ≤ q * (1 / 2 ^ (p - 1)) := by
      have span := (significand_bounds p positive q above).1
      rw [le_div_iff₀ weight] at span
      rw [mul_one_div, le_div_iff₀ (by positivity)]
      linarith
    rw [roundTo, if_neg above.ne', if_pos above, roundPos]
    calc (roundEven (q / ulp p q) : ℚ) * ulp p q ≤ (q / ulp p q + 1) * ulp p q :=
          mul_le_mul_of_nonneg_right digits weight.le
      _ = q + ulp p q := by rw [add_mul, div_mul_cancel₀ q weight.ne', one_mul]
      _ ≤ q * (1 + 1 / 2 ^ (p - 1)) := by linarith

/-- Values of at most `p` binary digits. -/
def Representable (p : ℕ) (x : ℚ) : Prop := ∃ n e : ℤ, |n| ≤ 2 ^ p ∧ x = n * 2 ^ e

theorem representable_mono {p q : ℕ} (le : p ≤ q) {x : ℚ} (value : Representable p x) :
    Representable q x := by
  obtain ⟨n, e, digits, same⟩ := value
  exact ⟨n, e, digits.trans (pow_le_pow_right₀ (by norm_num) le), same⟩

theorem representable_neg {p : ℕ} {x : ℚ} (value : Representable p x) : Representable p (-x) := by
  obtain ⟨n, e, digits, same⟩ := value
  exact ⟨-n, e, by rwa [abs_neg], by rw [same]; push_cast; ring⟩

theorem round_pos_representable (p : ℕ) (positive : 0 < p) (q : ℚ) (hq : 0 < q) :
    Representable p (roundPos p q) := by
  obtain ⟨low, high⟩ := significand_bounds p positive q hq
  have above : (0 : ℤ) ≤ roundEven (q / ulp p q) := by
    have h := round_even_mono (show ((0 : ℤ) : ℚ) ≤ q / ulp p q by
      push_cast
      exact (by positivity : (0 : ℚ) ≤ 2 ^ (p - 1)).trans low)
    rwa [round_even_int] at h
  have below : roundEven (q / ulp p q) ≤ (2 ^ p : ℤ) := by
    have h := round_even_mono (show q / ulp p q ≤ ((2 ^ p : ℤ) : ℚ) by
      push_cast
      exact high.le)
    rwa [round_even_int] at h
  exact ⟨roundEven (q / ulp p q), _, by rwa [abs_of_nonneg above], rfl⟩

theorem round_to_representable (p : ℕ) (positive : 0 < p) (q : ℚ) : Representable p (roundTo p q) := by
  unfold roundTo
  split_ifs with zero above
  · exact ⟨0, 0, by simp, by simp⟩
  · exact round_pos_representable p positive q above
  · have below : 0 < -q := neg_pos.mpr (lt_of_le_of_ne (not_lt.mp above) zero)
    exact representable_neg (round_pos_representable p positive (-q) below)

/-- A value of `p` digits is a whole number of its last digit's weight. -/
theorem representable_digits {p : ℕ} (positive : 0 < p) {x : ℚ} (hx : 0 < x)
    (value : Representable p x) : ∃ m : ℤ, x / ulp p x = m := by
  obtain ⟨n, e, digits, same⟩ := value
  have power : (0 : ℚ) < 2 ^ e := zpow_pos (by norm_num) _
  have top : x ≤ 2 ^ ((p : ℤ) + e) := by
    have bounded : (n : ℚ) ≤ 2 ^ p := by exact_mod_cast (le_abs_self n).trans digits
    rw [same, zpow_add₀ (by norm_num), zpow_natCast]
    exact mul_le_mul_of_nonneg_right bounded power.le
  have lower := Int.zpow_log_le_self (b := 2) (by decide) hx
  push_cast at lower
  have binade : Int.log 2 x ≤ p + e := by
    have h := lower.trans top
    rwa [zpow_le_zpow_iff_right₀ (by norm_num)] at h
  rcases binade.lt_or_eq with inside | edge
  · refine ⟨n * 2 ^ (e - (Int.log 2 x - p + 1)).toNat, ?_⟩
    have exponent : ((e - (Int.log 2 x - p + 1)).toNat : ℤ) = e - (Int.log 2 x - p + 1) := by omega
    have scale : (2 : ℚ) ^ e / ulp p x = 2 ^ (e - (Int.log 2 x - p + 1)).toNat := by
      rw [ulp, ← zpow_sub₀ (by norm_num), ← zpow_natCast, exponent]
    calc x / ulp p x = n * (2 ^ e / ulp p x) := by rw [mul_div_assoc', ← same]
      _ = ((n * 2 ^ (e - (Int.log 2 x - p + 1)).toNat : ℤ) : ℚ) := by
          rw [scale]
          push_cast
          rfl
  · -- the power of two above the binade of `p` digits
    have whole : x = 2 ^ ((p : ℤ) + e) := le_antisymm top (edge ▸ lower)
    refine ⟨2 ^ (p - 1), ?_⟩
    rw [ulp, edge]
    nth_rewrite 1 [whole]
    rw [← zpow_sub₀ (by norm_num)]
    push_cast
    rw [← zpow_natCast]
    congr 1
    omega

theorem representable_nat {p n : ℕ} (digits : n ≤ 2 ^ p) : Representable p n :=
  ⟨n, 0, by simpa using (by exact_mod_cast digits : (n : ℤ) ≤ 2 ^ p), by simp⟩

/-- Rounding leaves a value that fits unchanged. -/
theorem round_to_of_representable {p : ℕ} (positive : 0 < p) {x : ℚ}
    (value : Representable p x) : roundTo p x = x := by
  have fits : ∀ y : ℚ, 0 < y → Representable p y → roundPos p y = y := by
    intro y hy rep
    obtain ⟨m, digits⟩ := representable_digits positive hy rep
    rw [roundPos, digits, round_even_int, ← digits]
    exact div_mul_cancel₀ y (ulp_pos p y).ne'
  unfold roundTo
  split_ifs with zero above
  · exact zero.symm
  · exact fits x above value
  · have below : 0 < -x := neg_pos.mpr (lt_of_le_of_ne (not_lt.mp above) zero)
    rw [fits (-x) below (representable_neg value), neg_neg]

end Orchestrator.BinaryRounding
