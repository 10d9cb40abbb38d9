import Mathlib.Algebra.GCDMonoid.Nat
import Mathlib.Data.Nat.Factorization.Basic
import Orchestrator.Orchdata

/-!
The integer helpers of `cmnutil.h` on 64-bit words, and when they compute what
their names say.
-/

namespace Orchestrator.Cmnutil
open Orchdata

/-- The loop of `gcd`; every pass shrinks `b`. -/
def gcdLoop : Nat → UInt64 → UInt64 → UInt64
  | 0, a, _ => a
  | fuel + 1, a, b => if b = 0 then a else gcdLoop fuel b (a % b)

def gcd (a b : UInt64) : UInt64 := gcdLoop (b.toNat + 1) a b

def lcm (a b : UInt64) : UInt64 := if a = 0 ∨ b = 0 then 0 else a / gcd a b * b

/-- One more than the greatest `uint64_t`. -/
def word : Nat := 2 ^ 64

theorem to_nat_pos {a : UInt64} (nonzero : a ≠ 0) : 0 < a.toNat := by
  rcases Nat.eq_zero_or_pos a.toNat with zero | positive
  · exact absurd (UInt64.toNat_inj.mp (by simpa using zero)) nonzero
  · exact positive

theorem mul_exact (a b : UInt64) (fits : a.toNat * b.toNat < word) :
    (a * b).toNat = a.toNat * b.toNat := by
  rw [UInt64.toNat_mul]
  exact Nat.mod_eq_of_lt fits

theorem add_exact (a b : UInt64) (fits : a.toNat + b.toNat < word) :
    (a + b).toNat = a.toNat + b.toNat := by
  rw [UInt64.toNat_add]
  exact Nat.mod_eq_of_lt fits

theorem gcd_loop_exact (fuel : Nat) (a b : UInt64) (enough : b.toNat < fuel) :
    (gcdLoop fuel a b).toNat = Nat.gcd a.toNat b.toNat := by
  induction fuel generalizing a b with
  | zero => omega
  | succ fuel ih =>
      by_cases zero : b = 0
      · subst zero
        simp [gcdLoop]
      · have shrinks : (a % b).toNat < fuel := by
          rw [UInt64.toNat_mod]
          have := Nat.mod_lt a.toNat (to_nat_pos zero)
          omega
        rw [gcdLoop, if_neg zero, ih b (a % b) shrinks, UInt64.toNat_mod, Nat.gcd_comm,
          ← Nat.gcd_rec, Nat.gcd_comm]

theorem gcd_exact (a b : UInt64) : (gcd a b).toNat = Nat.gcd a.toNat b.toNat :=
  gcd_loop_exact _ a b (Nat.lt_succ_self _)

/-- With wrap-around `lcm` is still the least common multiple, modulo the word. -/
theorem lcm_mod {a b : UInt64} (first : a ≠ 0) (second : b ≠ 0) :
    (lcm a b).toNat = Nat.lcm a.toNat b.toNat % word := by
  have reduced : a.toNat / Nat.gcd a.toNat b.toNat * b.toNat = Nat.lcm a.toNat b.toNat :=
    Nat.div_mul_right_comm (Nat.gcd_dvd_left _ _) _
  rw [lcm, if_neg (by simp [first, second]), UInt64.toNat_mul, UInt64.toNat_div, gcd_exact, reduced]
  rfl

theorem lcm_exact (a b : UInt64) (fits : Nat.lcm a.toNat b.toNat < word) :
    (lcm a b).toNat = Nat.lcm a.toNat b.toNat := by
  by_cases zero : a = 0 ∨ b = 0
  · rw [lcm, if_pos zero]
    rcases zero with h | h <;> simp [h]
  · rw [lcm_mod (fun h => zero (Or.inl h)) (fun h => zero (Or.inr h)), Nat.mod_eq_of_lt fits]

theorem lcm_of_dvd {a b : UInt64} (divides : a.toNat ∣ b.toNat) : lcm a b = b := by
  have same : Nat.lcm a.toNat b.toNat = b.toNat := Nat.lcm_eq_right divides
  apply UInt64.toNat_inj.mp
  rw [lcm_exact a b (by rw [same]; exact b.toNat_lt), same]

theorem lcm_of_dvd_by {a b : UInt64} (divides : b.toNat ∣ a.toNat) : lcm a b = a := by
  have same : Nat.lcm a.toNat b.toNat = a.toNat := Nat.lcm_eq_left divides
  apply UInt64.toNat_inj.mp
  rw [lcm_exact a b (by rw [same]; exact a.toNat_lt), same]

theorem gcd_ne_zero {a : UInt64} (b : UInt64) (nonzero : a ≠ 0) : gcd a b ≠ 0 := by
  intro zero
  have h := gcd_exact a b
  rw [zero] at h
  have positive := Nat.gcd_pos_of_pos_left b.toNat (to_nat_pos nonzero)
  have none : (0 : UInt64).toNat = 0 := rfl
  omega

/-- A power of a prime in a least common multiple is in one of the two. -/
theorem prime_pow_dvd_lcm {p k a b : Nat} (prime : p.Prime) (first : a ≠ 0) (second : b ≠ 0)
    (divides : p ^ k ∣ Nat.lcm a b) : p ^ k ∣ a ∨ p ^ k ∣ b := by
  rw [prime.pow_dvd_iff_le_factorization (Nat.lcm_ne_zero first second),
    Nat.factorization_lcm first second, Finsupp.sup_apply, le_sup_iff] at divides
  rwa [prime.pow_dvd_iff_le_factorization first, prime.pow_dvd_iff_le_factorization second]

/-- The least common multiple of two words never wraps to zero: 2^64 would divide
one of them. -/
theorem lcm_ne_zero {a b : UInt64} (first : a ≠ 0) (second : b ≠ 0) : lcm a b ≠ 0 := by
  intro zero
  have wrapped := lcm_mod first second
  rw [zero] at wrapped
  have divides : word ∣ Nat.lcm a.toNat b.toNat := Nat.dvd_of_mod_eq_zero wrapped.symm
  have below : ∀ c : UInt64, c ≠ 0 → ¬ word ∣ c.toNat := fun c nonzero whole =>
    absurd (Nat.le_of_dvd (to_nat_pos nonzero) whole) (not_le.mpr c.toNat_lt)
  rcases prime_pow_dvd_lcm Nat.prime_two (to_nat_pos first).ne' (to_nat_pos second).ne' divides
    with inFirst | inSecond
  · exact below a first inFirst
  · exact below b second inSecond

theorem bmod_word {value : Int} (low : -2 ^ 63 ≤ value) (high : value < 2 ^ 63) :
    Int.bmod value 18446744073709551616 = value := by
  apply Int.bmod_eq_of_le_mul_two
  · push_cast
    omega
  · push_cast
    omega

theorem to_int64_small {value : UInt64} (small : value.toNat < 2 ^ 63) :
    toInt64 value = value.toNat := by
  unfold toInt64
  exact bmod_word (by omega) (by omega)

theorem to_uint64_mod (value : Int) :
    ((toUInt64 value).toNat : Int) = value % 18446744073709551616 := by
  unfold toUInt64
  rw [UInt64.toNat_ofNat']
  omega

/-- A signed value that fits comes back unchanged. -/
theorem to_int64_exact {value : Int} (low : -2 ^ 63 ≤ value) (high : value < 2 ^ 63) :
    toInt64 (toUInt64 value) = value := by
  have back := Int.emod_bmod value 18446744073709551616
  push_cast at back
  unfold toInt64
  rw [to_uint64_mod, back]
  exact bmod_word low high

end Orchestrator.Cmnutil
