import Mathlib.Algebra.Order.Ring.Nat
import DensityClustering.Decimal.Shortest

/-!
The fewest digits that tell a double other than zero apart are never zero.
-/

namespace DensityClustering.Decimal

theorem digitCount_pos (n : Nat) : 0 < digitCount n := by
  rw [digitCount, Nat.toDigits_eq_if (by decide)]
  split <;> simp

theorem digitCount_of_ten_le {n : Nat} (h : 10 ≤ n) : digitCount n = digitCount (n / 10) + 1 := by
  rw [digitCount, Nat.toDigits_of_base_le (by decide) h, List.length_append]
  rfl

theorem digitCount_of_lt_ten {n : Nat} (h : n < 10) : digitCount n = 1 := by
  rw [digitCount, Nat.toDigits_of_lt_base h]
  rfl

theorem lt_pow_digitCount (n : Nat) : n < 10 ^ digitCount n := by
  induction n using Nat.strongRecOn with
  | _ n ih =>
    by_cases h : n < 10
    · rw [digitCount_of_lt_ten h]
      omega
    · have hdiv := ih (n / 10) (by omega)
      rw [digitCount_of_ten_le (by omega), Nat.pow_succ]
      omega

theorem pow_digitCount_le {n : Nat} (hn : n ≠ 0) : 10 ^ (digitCount n - 1) ≤ n := by
  induction n using Nat.strongRecOn with
  | _ n ih =>
    by_cases h : n < 10
    · rw [digitCount_of_lt_ten h]
      omega
    · have hdiv := ih (n / 10) (by omega) (by omega)
      obtain ⟨k, hk⟩ : ∃ k, digitCount (n / 10) = k + 1 :=
        ⟨_, (Nat.succ_pred (Nat.ne_of_gt (digitCount_pos _))).symm⟩
      rw [hk, Nat.add_sub_cancel] at hdiv
      rw [digitCount_of_ten_le (by omega), hk, Nat.add_sub_cancel, Nat.pow_succ]
      omega

theorem roundHalfEven_pos {num den : Nat} (hden : 0 < den) (h : den ≤ num) :
    0 < Binary64.roundHalfEven num den := by
  have hq : 0 < num / den := Nat.div_pos h hden
  unfold Binary64.roundHalfEven
  simp only
  split
  · exact hq
  · split <;> omega

theorem shift_of_nonneg (num den : Nat) {e : Int} (h : 0 ≤ e) :
    shift num den e = (num * 10 ^ e.toNat, den) := by
  rw [shift, if_pos h]
  rfl

theorem shift_of_neg (num den : Nat) {e : Int} (h : e < 0) :
    shift num den e = (num, den * 10 ^ (-e).toNat) := by
  rw [shift, if_neg (by omega)]
  rfl

/-- A rational that is no less than a power of ten is at least one after a shift by it. -/
theorem le_shift {num den k : Nat} (h : den * 10 ^ k ≤ num) {e : Int} (he : -(k : Int) ≤ e) :
    (shift num den e).2 ≤ (shift num den e).1 := by
  have hpow : 0 < 10 ^ k := Nat.pow_pos (by decide)
  by_cases hneg : e < 0
  · rw [shift_of_neg num den hneg]
    have hexp : (-e).toNat ≤ k := by omega
    exact Nat.le_trans (Nat.mul_le_mul_left den (Nat.pow_le_pow_right (by decide) hexp)) h
  · rw [shift_of_nonneg num den (by omega)]
    have hscale : 0 < 10 ^ e.toNat := Nat.pow_pos (by decide)
    calc den ≤ den * 10 ^ k := Nat.le_mul_of_pos_right den hpow
      _ ≤ num := h
      _ ≤ num * 10 ^ e.toNat := Nat.le_mul_of_pos_right num hscale

/-- Shifted to its first digit and beyond, a positive rational is at least one. -/
theorem le_shift_magnitude {num den : Nat} (hnum : num ≠ 0) (hden : den ≠ 0) {e : Int}
    (he : 1 - magnitude num den ≤ e) : (shift num den e).2 ≤ (shift num den e).1 := by
  unfold magnitude at he
  split at he
  · next hle =>
    have hq : num / den ≠ 0 := Nat.ne_of_gt (Nat.div_pos hle (Nat.pos_of_ne_zero hden))
    have hpow := pow_digitCount_le hq
    have hpos := digitCount_pos (num / den)
    apply le_shift (k := digitCount (num / den) - 1) _ (by omega)
    calc den * 10 ^ (digitCount (num / den) - 1) ≤ den * (num / den) :=
          Nat.mul_le_mul_left den hpow
      _ ≤ num := Nat.mul_div_le num den
  · next hlt =>
    have hpos := digitCount_pos (den / num)
    -- one digit more or less, as the leading digits decide
    have hlow : (digitCount (den / num) : Int) ≤ e := by
      dsimp only at he
      split at he <;> omega
    have hdiv : den < 10 ^ digitCount (den / num) * num :=
      (Nat.div_lt_iff_lt_mul (Nat.pos_of_ne_zero hnum)).mp (lt_pow_digitCount (den / num))
    rw [shift_of_nonneg num den (by omega)]
    calc den ≤ num * 10 ^ digitCount (den / num) := by rw [Nat.mul_comm]; exact Nat.le_of_lt hdiv
      _ ≤ num * 10 ^ e.toNat :=
          Nat.mul_le_mul_left num (Nat.pow_le_pow_right (by decide) (by omega))

theorem shift_den_pos {num den : Nat} (hden : den ≠ 0) (e : Int) : 0 < (shift num den e).2 := by
  unfold shift
  split
  · exact Nat.pos_of_ne_zero hden
  · exact Nat.mul_pos (Nat.pos_of_ne_zero hden) (Nat.pow_pos (by decide))

theorem round_digits_ne_zero {num den places : Nat} (hnum : num ≠ 0) (hden : den ≠ 0)
    (hplaces : 0 < places) : (round num den places).digits ≠ 0 := by
  have hpos := roundHalfEven_pos (shift_den_pos hden (-(magnitude num den - places)))
    (le_shift_magnitude hnum hden (e := -(magnitude num den - places)) (by omega))
  unfold round
  dsimp only
  split
  · next heq =>
    have : 10 ≤ Nat.pow 10 places := Nat.le_self_pow (Nat.ne_of_gt hplaces) 10
    rw [heq]
    exact Nat.ne_of_gt (Nat.div_pos this (by decide))
  · exact Nat.ne_of_gt hpos

theorem trim_digits_ne_zero (n : Number) (h : n.digits ≠ 0) : n.trim.digits ≠ 0 := by
  fun_induction Number.trim n with
  | case1 n hn ih => exact ih (by simp only; omega)
  | case2 n hn => exact h

theorem digits_ne_zero_of_mem_neighbours {i : Interval} {exponent : Int} {num den places : Nat}
    {c : Number} (h : c ∈ neighbours i exponent num den places) : c.digits ≠ 0 := by
  have hkept := (List.mem_filter.mp h).2
  rw [Bool.and_eq_true, decide_eq_true_iff] at hkept
  exact hkept.1

/-- A double other than zero is not written as zero. -/
theorem shortest_digits_ne_zero {p : Binary64.Parts} (h : p.significand ≠ 0) :
    (shortest p).digits ≠ 0 := by
  have hparts : (Binary64.unscale p.significand 1 (-p.exponent)).1 ≠ 0 ∧
      (Binary64.unscale p.significand 1 (-p.exponent)).2 ≠ 0 := by
    unfold Binary64.unscale
    split
    · exact ⟨h, by simp [Nat.shiftLeft_eq]⟩
    · refine ⟨?_, Nat.one_ne_zero⟩
      rw [Nat.shiftLeft_eq]
      exact Nat.mul_ne_zero h (Nat.ne_of_gt (Nat.pow_pos (by decide)))
  unfold shortest
  dsimp only
  split
  · next best rest heq =>
    apply trim_digits_ne_zero
    have hmem : best ∈ best :: rest := List.mem_cons_self
    rw [← heq] at hmem
    obtain ⟨k, -, hk⟩ := List.mem_flatMap.mp hmem
    exact digits_ne_zero_of_mem_neighbours hk
  · exact round_digits_ne_zero hparts.1 hparts.2 (by decide)

end DensityClustering.Decimal
