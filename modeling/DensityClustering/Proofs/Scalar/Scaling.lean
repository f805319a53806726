import DensityClustering.Proofs.Scalar.Comparison
import DensityClustering.Proofs.Scalar.Packing
import DensityClustering.Scalar.Instances

/-!
Shares of whole numbers. A fraction between zero and one of a whole number, cut down to a whole number
again, does not pass it, and all of a number is that number. Rationals do so by themselves; doubles do
as long as the number has at most 53 binary digits, since rounding then never passes it.
-/

namespace DensityClustering

namespace Scaling

open Binary64 (Parts truncate signBit)
open Packing
open Float.Model (UnpackedFloat Format totalExponent)
open Float.Model.UnpackedFloat

section Rounding

variable {M k n a : ℕ}

/-- An exact mantissa without its last `k` digits. -/
def shifted (M k : ℕ) : ExtendedMantissa := (⟨M, false, false⟩ : ExtendedMantissa) >>> k

theorem mantissa_shifted (M k : ℕ) : (shifted M k).mantissa = M / 2 ^ k := by
  induction k with
  | zero => exact (Nat.div_one _).symm
  | succ k ih =>
    show (shifted M k).mantissa / 2 = _
    rw [ih, Nat.div_div_eq_div_mul, Nat.pow_succ]

/-- Some bit is set behind the mantissa exactly if digits were lost. -/
theorem residue_shifted (M k : ℕ) :
    ((shifted M k).roundBit || (shifted M k).stickyBit) = decide (M % 2 ^ k ≠ 0) := by
  induction k with
  | zero => simp [shifted, HShiftRight.hShiftRight, Nat.repeat, Nat.mod_one]
  | succ k ih =>
    show (((shifted M k).mantissa % 2 != 0) ||
      ((shifted M k).roundBit || (shifted M k).stickyBit)) = _
    have hzero : 2 ^ k * (M / 2 ^ k % 2) = 0 ↔ M / 2 ^ k % 2 = 0 := by simp
    rw [ih, mantissa_shifted, Bool.eq_iff_iff]
    simp only [Nat.mod_pow_succ, Bool.or_eq_true, bne_iff_ne, decide_eq_true_iff]
    omega

theorem roundedMantissa_bounds (em : ExtendedMantissa) :
    em.mantissa ≤ em.roundedMantissa ∧ em.roundedMantissa ≤ em.mantissa + 1 ∧
      ((em.roundBit || em.stickyBit) = false → em.roundedMantissa = em.mantissa) := by
  obtain ⟨m, r, s⟩ := em
  have hodd : m % 2 < 2 := Nat.mod_lt _ (by decide)
  cases r <;> cases s <;>
    simp [ExtendedMantissa.roundedMantissa, ExtendedMantissa.accuracy,
      Accuracy.roundToNearestEven]
  -- A tie: the mantissa grows by its last digit.
  omega

/-- Rounding does not pass a number that needs no rounding. -/
theorem roundedMantissa_le (h : M ≤ n * 2 ^ a) : (shifted M a).roundedMantissa ≤ n := by
  obtain ⟨-, hup, hexact⟩ := roundedMantissa_bounds (shifted M a)
  rw [residue_shifted, mantissa_shifted] at hexact
  rw [mantissa_shifted] at hup
  have hpos : 0 < 2 ^ a := Nat.two_pow_pos a
  by_cases hrest : M % 2 ^ a = 0
  · rw [hexact (by simpa using hrest)]
    exact Nat.div_le_of_le_mul (Nat.mul_comm n _ ▸ h)
  · have hne : M ≠ n * 2 ^ a := by
      rintro rfl
      exact hrest (Nat.mul_mod_left _ _)
    have hlt : M / 2 ^ a < n := (Nat.div_lt_iff_lt_mul hpos).mpr (lt_of_le_of_ne h hne)
    omega

theorem roundedMantissa_mul (m a : ℕ) : (shifted (m * 2 ^ a) a).roundedMantissa = m := by
  obtain ⟨-, -, hexact⟩ := roundedMantissa_bounds (shifted (m * 2 ^ a) a)
  rw [residue_shifted, mantissa_shifted] at hexact
  rw [hexact (by simp), Nat.mul_div_cancel _ (Nat.two_pow_pos a)]

/-- How many digits after the point are kept of a mantissa that has `k`. -/
def keptDigits (M k : ℕ) : ℕ := min k (min 1074 (k + 52 - M.log2))

theorem shiftToTargetExponent_eq (h : M.log2 ≤ k + 52) :
    shiftToTargetExponent Format.binary64 M (-(k : ℤ)) .exact =
      (shifted M (k - keptDigits M k), -(keptDigits M k : ℤ)) := by
  have htarget : Format.binary64.targetExponent (totalExponent M (-(k : ℤ))) =
      max ((M.log2 : ℤ) - 52 - k) (-1074) := by
    show max (((M.log2 : ℤ) + 1 + -(k : ℤ)) - ((53 : ℕ) : ℤ)) (-1074) = _
    congr 1
    omega
  have hamount : (max ((M.log2 : ℤ) - 52 - k) (-1074) - -(k : ℤ)).toNat = k - keptDigits M k := by
    unfold keptDigits
    omega
  have hend : -(k : ℤ) + (k - keptDigits M k : ℕ) = -(keptDigits M k : ℤ) := by
    unfold keptDigits
    omega
  unfold shiftToTargetExponent shiftToExponent
  rw [htarget]
  dsimp only
  rw [hamount, hend]
  rfl

/-- A number of 53 digits is rounded to itself, whatever zeros follow it. -/
theorem roundWithAccuracy_mul (s : Sign) {m : ℕ} (hshort : m < 2 ^ 53) (hfull : 2 ^ 52 ≤ m)
    (hpos : 0 < m) (hk : k ≤ 1074) (a : ℕ) :
    roundWithAccuracy Format.binary64 s (m * 2 ^ a) (-((k + a : ℕ) : ℤ)) .exact =
      .finite s m (-(k : ℤ)) hpos := by
  have hlog : m.log2 = 52 := log2_of_full hshort hfull
  have hlogs : (m * 2 ^ a).log2 = 52 + a := by
    rw [Nat.log2_eq_iff (by positivity), Nat.pow_add, Nat.add_right_comm, Nat.pow_add]
    exact ⟨Nat.mul_le_mul_right _ hfull, Nat.mul_lt_mul_of_pos_right hshort (Nat.two_pow_pos a)⟩
  have hfirst : keptDigits (m * 2 ^ a) (k + a) = k := by
    unfold keptDigits
    omega
  have hsecond : keptDigits m k = k := by
    unfold keptDigits
    omega
  unfold roundWithAccuracy
  rw [shiftToTargetExponent_eq (by omega), hfirst, Nat.add_sub_cancel_left]
  dsimp only
  rw [roundedMantissa_mul, shiftToTargetExponent_eq (by omega), hsecond, Nat.sub_self]
  exact dif_neg hpos.ne'

theorem log2_le (hle : M ≤ n * 2 ^ k) (hn : n < 2 ^ 53) : M.log2 ≤ k + 52 := by
  by_cases hM : M = 0
  · simp [hM]
  · have hlt : M < 2 ^ (k + 53) := by
      calc M ≤ n * 2 ^ k := hle
        _ < 2 ^ 53 * 2 ^ k := Nat.mul_lt_mul_of_pos_right hn (Nat.two_pow_pos k)
        _ = 2 ^ (k + 53) := by rw [Nat.add_comm, Nat.pow_add]
    have hlog := (Nat.log2_lt hM).mpr hlt
    omega

/-- What is kept of a mantissa fits, and fills 53 digits unless the exponent is the least one. -/
theorem keptDigits_spec (h : M.log2 ≤ k + 52) (hstart : k = 1074 ∨ 2 ^ 52 ≤ M) :
    keptDigits M k ≤ k ∧ keptDigits M k ≤ 1074 ∧ M / 2 ^ (k - keptDigits M k) < 2 ^ 53 ∧
      (keptDigits M k = 1074 ∨ 2 ^ 52 ≤ M / 2 ^ (k - keptDigits M k)) := by
  refine ⟨?_, ?_, ?_, ?_⟩
  · exact min_le_left _ _
  · exact (min_le_right _ _).trans (min_le_left _ _)
  · rw [Nat.div_lt_iff_lt_mul (Nat.two_pow_pos _), ← Nat.pow_add]
    refine lt_of_lt_of_le Nat.lt_log2_self (Nat.pow_le_pow_right (by decide) ?_)
    unfold keptDigits
    omega
  -- A short mantissa is kept as it is, and so starts at the least exponent. A long one is cut to 53
  -- digits unless the least exponent cuts it further.
  · by_cases hlog : M.log2 < 52
    · have hsmall : M < 2 ^ 52 := Nat.lt_log2_self.trans_le (Nat.pow_le_pow_right (by decide) hlog)
      unfold keptDigits
      omega
    · refine or_iff_not_imp_left.mpr fun hkept => ?_
      have hM : M ≠ 0 := by
        rintro rfl
        exact hlog (by decide)
      rw [Nat.le_div_iff_mul_le (Nat.two_pow_pos _), ← Nat.pow_add]
      refine le_trans (Nat.pow_le_pow_right (by decide) ?_) (Nat.log2_self_le hM)
      unfold keptDigits at hkept ⊢
      omega

/-- The rounded number does not pass `n` either, and is one that a double can hold. -/
theorem roundWithAccuracy_le (s : Sign) (hM : 2 ^ 52 ≤ M) (hle : M ≤ n * 2 ^ k)
    (hn : n < 2 ^ 53) :
    roundWithAccuracy Format.binary64 s M (-(k : ℤ)) .exact = .zero s ∨
    ∃ m j : ℕ, ∃ h : Canonical m (-(j : ℤ)), m ≤ n * 2 ^ j ∧
      roundWithAccuracy Format.binary64 s M (-(k : ℤ)) .exact = .finite s m (-(j : ℤ)) h.pos := by
  have hlog : M.log2 ≤ k + 52 := log2_le hle hn
  obtain ⟨hj, hlow, -, hfull⟩ := keptDigits_spec hlog (Or.inr hM)
  generalize hjdef : keptDigits M k = j at hj hlow hfull
  have hR : (shifted M (k - j)).roundedMantissa ≤ n * 2 ^ j := by
    apply roundedMantissa_le
    rwa [Nat.mul_assoc, ← Nat.pow_add, Nat.add_sub_cancel' hj]
  have hstart : j = 1074 ∨ 2 ^ 52 ≤ (shifted M (k - j)).roundedMantissa := by
    have hdown := (roundedMantissa_bounds (shifted M (k - j))).1
    rw [mantissa_shifted] at hdown
    exact hfull.imp_right hdown.trans'
  -- The second shift takes in what the first one rounded up.
  unfold roundWithAccuracy
  rw [shiftToTargetExponent_eq hlog, hjdef]
  dsimp only
  generalize (shifted M (k - j)).roundedMantissa = R at hR hstart
  have hlogR : R.log2 ≤ j + 52 := log2_le hR hn
  obtain ⟨hi, hlow', hshort, hfull'⟩ := keptDigits_spec hlogR hstart
  rw [shiftToTargetExponent_eq hlogR]
  generalize keptDigits R j = i at hi hlow' hshort hfull'
  dsimp only
  rw [mantissa_shifted]
  have hend : R / 2 ^ (j - i) ≤ n * 2 ^ i := by
    apply Nat.div_le_of_le_mul
    rwa [Nat.mul_comm, Nat.mul_assoc, ← Nat.pow_add, Nat.add_sub_cancel' hi]
  split
  · exact Or.inl rfl
  · next hne =>
    refine Or.inr ⟨_, i, ⟨Nat.pos_of_ne_zero hne, hshort, by omega, by omega, ?_⟩, hend, rfl⟩
    exact hfull'.imp_left (by omega)

end Rounding

section Truncation

variable {x : Float} {s : Sign} {m j n : ℕ} {hm : 0 < m}

theorem toModel_mul (x y : Float) : (x * y).toModel =
    .pack (UnpackedFloat.mul Format.binary64 x.toModel.unpack y.toModel.unpack) := rfl

/-- The product with a positive number is the rounded product of the mantissas. -/
theorem toModel_mul_of_finite {y : Float} {m' k k' : ℕ} {hm' : 0 < m'}
    (hx : x.toModel.unpack = .finite .positive m (-(k : ℤ)) hm)
    (hy : y.toModel.unpack = .finite s m' (-(k' : ℤ)) hm') :
    (x * y).toModel = .pack
      (roundWithAccuracy Format.binary64 s (m * m') (-((k + k' : ℕ) : ℤ)) .exact) := by
  have hsign : Sign.positive * s = s := by cases s <;> rfl
  have hexponent : -((k + k' : ℕ) : ℤ) = -(k : ℤ) + -(k' : ℤ) := by
    push_cast
    ring
  rw [toModel_mul, hx, hy, hexponent]
  show Float.Model.pack (roundWithAccuracy Format.binary64 (Sign.positive * s) _ _ _) = _
  rw [hsign]

theorem truncate_of_zero (hx : x.toModel = .pack (.zero s)) : truncate x = 0 := by
  obtain ⟨x⟩ := x
  cases hx
  cases s <;> decide +kernel

theorem truncate_of_finite (hx : x.toModel.unpack = .finite s m (-(j : ℤ)) hm)
    (hsmall : m / 2 ^ j < 2 ^ 53) :
    truncate x = if s == .negative then -((m / 2 ^ j : ℕ) : ℤ) else (m / 2 ^ j : ℕ) := by
  have hnan : x.isNaN = false := by
    show x.toModel.unpack.isNaN = false
    rw [hx]
    rfl
  have hinf : x.isInf = false := by
    show x.toModel.unpack.isInf = false
    rw [hx]
    rfl
  have hbit : (signBit : ℤ) = 2 ^ 63 := rfl
  have hinteger : (if 0 ≤ -(j : ℤ) then m <<< (-(j : ℤ)).toNat else m >>> (- -(j : ℤ)).toNat) =
      m / 2 ^ j := by
    rw [neg_neg, Int.toNat_natCast, Nat.shiftRight_eq_div_pow]
    split
    -- An exponent of zero shifts nothing either way.
    · next h =>
      have hj : j = 0 := by omega
      simp [hj]
    · rfl
  unfold truncate Parts.truncate Parts.signed
  rw [hnan, hinf, (parts_of_unpack hx).1]
  dsimp only
  rw [hinteger, hbit]
  generalize m / 2 ^ j = q at hsmall
  cases s <;> simp <;> omega

/-- The number of binary places that a double of `n` has room for. -/
def places (n : ℕ) : ℕ := 52 - n.log2

theorem canonical_places (hpos : 0 < n) (hn : n < 2 ^ 53) :
    2 ^ 52 ≤ n * 2 ^ places n ∧ Canonical (n * 2 ^ places n) (-(places n : ℤ)) := by
  have hlog : n.log2 < 53 := (Nat.log2_lt hpos.ne').mpr hn
  have hdown : 2 ^ n.log2 ≤ n := Nat.log2_self_le hpos.ne'
  have hup : n < 2 ^ (n.log2 + 1) := Nat.lt_log2_self
  have hfull : 2 ^ 52 ≤ n * 2 ^ places n := by
    calc 2 ^ 52 = 2 ^ (n.log2 + places n) := congrArg _ (by unfold places; omega)
      _ = 2 ^ n.log2 * 2 ^ places n := Nat.pow_add ..
      _ ≤ n * 2 ^ places n := Nat.mul_le_mul_right _ hdown
  have hshort : n * 2 ^ places n < 2 ^ 53 := by
    calc n * 2 ^ places n < 2 ^ (n.log2 + 1) * 2 ^ places n :=
          Nat.mul_lt_mul_of_pos_right hup (Nat.two_pow_pos _)
      _ = 2 ^ (n.log2 + 1 + places n) := (Nat.pow_add ..).symm
      _ = 2 ^ 53 := congrArg _ (by unfold places; omega)
  have hplaces : places n ≤ 52 := Nat.sub_le ..
  exact ⟨hfull, by omega, hshort, by omega, by omega, Or.inr hfull⟩

theorem unpack_one : (Float.ofBits 0x3FF0000000000000).toModel.unpack =
    .finite .positive (2 ^ 52) (-(52 : ℕ)) (by decide) := rfl

theorem unpack_toFloat (hpos : 0 < n) (hn : n < 2 ^ 53) :
    n.toUInt64.toFloat.toModel.unpack = .finite .positive (n * 2 ^ places n) (-(places n : ℤ))
      (canonical_places hpos hn).2.pos := by
  obtain ⟨hfull, hcanonical⟩ := canonical_places hpos hn
  have hfew : places n ≤ 1074 := (Nat.sub_le ..).trans (by decide)
  have hlog : n.log2 < 53 := (Nat.log2_lt hpos.ne').mpr hn
  have hnat : (n.toUInt64.toNat : ℤ) = n := by
    rw [Nat.toUInt64_eq, UInt64.toNat_ofNat']
    omega
  have htarget : Format.binary64.targetExponent (totalExponent n 0) = -(places n : ℤ) := by
    show max (((n.log2 : ℤ) + 1 + 0) - ((53 : ℕ) : ℤ)) (-1074) = _
    unfold places
    omega
  have hround : UnpackedFloat.ofUInt64 Format.binary64 n.toUInt64 =
      .finite .positive (n * 2 ^ places n) (-(places n : ℤ)) hcanonical.pos := by
    show UnpackedFloat.normalize Format.binary64 (n.toUInt64.toNat : ℤ) 0 .positive = _
    unfold UnpackedFloat.normalize
    rw [hnat, Int.compare_eq_gt.mpr (by omega)]
    dsimp only
    unfold UnpackedFloat.round decreaseExponent
    rw [Int.toNat_natCast, htarget]
    dsimp only
    rw [zero_sub, neg_neg, zero_sub, Int.toNat_natCast, Nat.shiftLeft_eq]
    have hsame := roundWithAccuracy_mul .positive hcanonical.short hfull hcanonical.pos hfew 0
    rwa [Nat.add_zero, Nat.pow_zero, Nat.mul_one] at hsame
  show (Float.Model.pack (UnpackedFloat.ofUInt64 Format.binary64 n.toUInt64)).unpack = _
  rw [hround]
  exact unpack_pack _ hcanonical

theorem unpack_ofNat (hpos : 0 < n) (hn : n < 2 ^ 53) :
    (Float.ofNat n).toModel.unpack = .finite .positive (n * 2 ^ places n) (-(places n : ℤ))
      (canonical_places hpos hn).2.pos := by
  obtain ⟨hfull, hcanonical⟩ := canonical_places hpos hn
  have hfew : places n ≤ 1074 := (Nat.sub_le ..).trans (by decide)
  -- A literal is the number times a power of ten, which is one here.
  have h : Float.ofNat n = n.toUInt64.toFloat * Float.ofBits 0x3FF0000000000000 := by
    show Float.ofScientific n false 0 = _
    unfold Float.ofScientific
    rw [dif_pos ⟨hn, by decide⟩]
    rfl
  rw [h, toModel_mul_of_finite (unpack_toFloat hpos hn) unpack_one,
    roundWithAccuracy_mul .positive hcanonical.short hfull hcanonical.pos hfew 52]
  exact unpack_pack _ hcanonical

theorem unpack_ofInt_zero : (Float.ofInt 0).toModel.unpack = .zero .positive := rfl

theorem unpack_ofInt {n : ℤ} (hne : 0 < n.natAbs) (hn : n.natAbs < 2 ^ 53) :
    ∃ s, (s == .negative) = decide (n < 0) ∧ (Float.ofInt n).toModel.unpack =
      .finite s (n.natAbs * 2 ^ places n.natAbs) (-(places n.natAbs : ℤ))
        (canonical_places hne hn).2.pos := by
  cases n with
  | ofNat k =>
    have hsign : ¬Int.ofNat k < 0 := not_lt.mpr (Int.natCast_nonneg k)
    exact ⟨.positive, (decide_eq_false hsign).symm, unpack_ofNat hne hn⟩
  | negSucc k =>
    refine ⟨.negative, (decide_eq_true (Int.negSucc_lt_zero k)).symm, ?_⟩
    have hnat : (Float.ofNat (k + 1)).toModel.unpack = _ := unpack_ofNat hne hn
    show (Float.Model.pack (Float.ofNat (k + 1)).toModel.unpack.neg).unpack = _
    rw [hnat]
    exact unpack_pack .negative (canonical_places hne hn).2

/-- A share is zero, or a fraction `m / 2 ^ k` of at most one. -/
theorem unpack_of_share {f : Float} (hzero : 0 ≤ f) (hone : f ≤ 1) :
    (∃ s, f.toModel.unpack = .zero s) ∨
    ∃ m k : ℕ, ∃ hm : 0 < m,
      f.toModel.unpack = .finite .positive m (-(k : ℤ)) hm ∧ m ≤ 2 ^ k := by
  obtain ⟨-, hnumber, hlow⟩ := Comparison.le_iff.mp hzero
  obtain ⟨-, -, hhigh⟩ := Comparison.le_iff.mp hone
  -- The order of doubles is that of their ranks, so that every other kind of double is out of range.
  have hrank0 : Comparison.rank 0 = toLex (0, toLex (0, 0)) := rfl
  have hrank1 : Comparison.rank 1 = toLex (1, toLex (-52, 2 ^ 52)) := rfl
  rw [hrank0] at hlow
  rw [hrank1] at hhigh
  unfold Comparison.rank at hlow hhigh
  cases hu : f.toModel.unpack with
  | notANumber =>
    have hnan : f.toModel.unpack.isNaN = false := hnumber
    rw [hu] at hnan
    cases hnan
  | zero s => exact Or.inl ⟨s, rfl⟩
  | infinity s =>
    rw [hu] at hlow hhigh
    cases s with
    | negative => exact absurd hlow (by decide)
    | positive => exact absurd hhigh (by decide)
  | finite s m e hm =>
    have hshort : m < 2 ^ 53 := (parts_of_unpack hu).2
    rw [hu] at hlow hhigh
    cases s with
    | negative =>
      simp only [Comparison.rankOf, Prod.Lex.toLex_le_toLex] at hlow
      omega
    | positive =>
      simp only [Comparison.rankOf, Prod.Lex.toLex_le_toLex] at hhigh
      have hexponent : e = -((-e).toNat : ℤ) := by omega
      refine Or.inr ⟨m, (-e).toNat, hm, by rw [← hexponent], ?_⟩
      by_cases he : e = -52
      · rw [he]
        show m ≤ 2 ^ 52
        omega
      · refine hshort.le.trans (Nat.pow_le_pow_right (by decide) ?_)
        omega

/-- A rounded number that does not pass `n` is cut down to one that does not either. -/
theorem truncate_rounded {M k : ℕ} (hM : 2 ^ 52 ≤ M) (hle : M ≤ n * 2 ^ k) (hn : n < 2 ^ 53)
    (hx : x.toModel = .pack (roundWithAccuracy Format.binary64 s M (-(k : ℤ)) .exact)) :
    ∃ q : ℕ, q ≤ n ∧ truncate x = if s == .negative then -(q : ℤ) else q := by
  rcases roundWithAccuracy_le s hM hle hn with hround | ⟨m, j, hcanonical, hmn, hround⟩
  · rw [hround] at hx
    refine ⟨0, Nat.zero_le _, ?_⟩
    rw [truncate_of_zero hx]
    exact (ite_self _).symm
  · rw [hround] at hx
    have hq : m / 2 ^ j ≤ n := Nat.div_le_of_le_mul (Nat.mul_comm n _ ▸ hmn)
    have hunpack : x.toModel.unpack = .finite s m (-(j : ℤ)) hcanonical.pos := by
      rw [hx]
      exact unpack_pack s hcanonical
    exact ⟨m / 2 ^ j, hq, truncate_of_finite hunpack (hq.trans_lt hn)⟩

/-- A share of a number of at most 53 digits lies between zero and that number. -/
theorem truncate_share {f : Float} (hzero : 0 ≤ f) (hone : f ≤ 1) {n : ℤ}
    (hn : n.natAbs < 2 ^ 53) :
    min 0 n ≤ truncate (f * Float.ofInt n) ∧ truncate (f * Float.ofInt n) ≤ max 0 n := by
  have hnothing (h : truncate (f * Float.ofInt n) = 0) :
      min 0 n ≤ truncate (f * Float.ofInt n) ∧ truncate (f * Float.ofInt n) ≤ max 0 n := by
    rw [h]
    exact ⟨min_le_left _ _, le_max_left _ _⟩
  rcases Nat.eq_zero_or_pos n.natAbs with h0 | hpos
  · apply hnothing
    rcases unpack_of_share hzero hone with ⟨s, hf⟩ | ⟨m, k, hm, hf, -⟩
    all_goals
      apply truncate_of_zero
      rw [toModel_mul, Int.natAbs_eq_zero.mp h0, unpack_ofInt_zero, hf]
      rfl
  obtain ⟨hfull, -⟩ := canonical_places hpos hn
  obtain ⟨s, hs, hint⟩ := unpack_ofInt hpos hn
  rcases unpack_of_share hzero hone with ⟨s', hf⟩ | ⟨m, k, hm, hf, hshare⟩
  · apply hnothing
    apply truncate_of_zero
    rw [toModel_mul, hf, hint]
    rfl
  -- Neither a zero: the exact product does not pass `n`, and neither does the rounded one.
  · have hM : 2 ^ 52 ≤ m * (n.natAbs * 2 ^ places n.natAbs) :=
      hfull.trans (Nat.le_mul_of_pos_left _ hm)
    have hle : m * (n.natAbs * 2 ^ places n.natAbs) ≤ n.natAbs * 2 ^ (k + places n.natAbs) := by
      calc m * (n.natAbs * 2 ^ places n.natAbs)
          ≤ 2 ^ k * (n.natAbs * 2 ^ places n.natAbs) := Nat.mul_le_mul_right _ hshare
        _ = n.natAbs * 2 ^ (k + places n.natAbs) := by rw [Nat.pow_add]; ring
    obtain ⟨q, hq, htruncate⟩ := truncate_rounded hM hle hn (toModel_mul_of_finite hf hint)
    rw [htruncate, hs]
    simp only [decide_eq_true_iff]
    split <;> omega

/-- All of a number of at most 53 digits is the number itself. -/
theorem truncate_whole {n : ℤ} (hn : n.natAbs < 2 ^ 53) : truncate (1 * Float.ofInt n) = n := by
  rcases Nat.eq_zero_or_pos n.natAbs with h0 | hpos
  · rw [Int.natAbs_eq_zero.mp h0]
    decide +kernel
  obtain ⟨hfull, hcanonical⟩ := canonical_places hpos hn
  obtain ⟨s, hs, hint⟩ := unpack_ofInt hpos hn
  have hone : (1 : Float).toModel.unpack = .finite .positive (2 ^ 52) (-(52 : ℕ)) (by decide) := rfl
  have hfew : places n.natAbs ≤ 1074 := (Nat.sub_le ..).trans (by decide)
  have hx : (1 * Float.ofInt n).toModel.unpack = .finite s (n.natAbs * 2 ^ places n.natAbs)
      (-(places n.natAbs : ℤ)) hcanonical.pos := by
    rw [toModel_mul_of_finite hone hint, Nat.mul_comm, Nat.add_comm,
      roundWithAccuracy_mul s hcanonical.short hfull hcanonical.pos hfew 52]
    exact unpack_pack s hcanonical
  have hdiv : n.natAbs * 2 ^ places n.natAbs / 2 ^ places n.natAbs = n.natAbs :=
    Nat.mul_div_cancel _ (Nat.two_pow_pos _)
  rw [truncate_of_finite hx (by rw [hdiv]; exact hn), hdiv, hs]
  simp only [decide_eq_true_iff]
  split <;> omega

end Truncation

/-- Shares of `n` stay between zero and `n`, and all of it is `n` itself. -/
structure Scales (S : Type) [Scalar S] (n : ℤ) : Prop where
  share : ∀ f : S, 0 ≤ f → f ≤ 1 →
    min 0 n ≤ Scalar.truncate (f * Scalar.ofInt n) ∧
      Scalar.truncate (f * Scalar.ofInt n) ≤ max 0 n
  whole : Scalar.truncate ((1 : S) * Scalar.ofInt n) = n

theorem scales_double {n : ℤ} (hn : n.natAbs < 2 ^ 53) : Scales Float n :=
  ⟨fun _ hzero hone => truncate_share hzero hone hn, truncate_whole hn⟩

theorem truncate_rational {q : ℚ} (hzero : 0 ≤ q) : Rational.truncate q = ⌊q⌋ := by
  rw [Rational.truncate, Rat.floor_def', Int.tdiv_eq_ediv_of_nonneg (Rat.num_nonneg.mpr hzero)]

theorem truncate_rational_neg (q : ℚ) : Rational.truncate (-q) = -Rational.truncate q := by
  rw [Rational.truncate, Rational.truncate, Rat.neg_num, Rat.neg_den, Int.neg_tdiv]

theorem scales_rational (n : ℤ) : Scales ℚ n := by
  -- A share of a natural number is rounded down, and a negative one mirrors it.
  have hnat : ∀ (f : ℚ) (k : ℕ), 0 ≤ f → f ≤ 1 →
      0 ≤ Rational.truncate (f * k) ∧ Rational.truncate (f * k) ≤ k := by
    intro f k hzero hone
    have hlow : 0 ≤ f * k := mul_nonneg hzero k.cast_nonneg
    have hhigh : f * k ≤ ((k : ℤ) : ℚ) := mul_le_of_le_one_left k.cast_nonneg hone
    rw [truncate_rational hlow]
    exact ⟨Int.floor_nonneg.mpr hlow, Int.cast_le.mp ((Int.floor_le _).trans hhigh)⟩
  refine ⟨fun f hzero hone => ?_, ?_⟩
  · change min 0 n ≤ Rational.truncate (f * (n : ℚ)) ∧ Rational.truncate (f * (n : ℚ)) ≤ max 0 n
    obtain ⟨k, hn⟩ := n.eq_nat_or_neg
    have hk := hnat f k hzero hone
    rcases hn with rfl | rfl
    · rw [Int.cast_natCast]
      omega
    · rw [Int.cast_neg, Int.cast_natCast, mul_neg, truncate_rational_neg]
      omega
  · change Rational.truncate (1 * (n : ℚ)) = n
    rw [one_mul, Rational.truncate, Rat.num_intCast, Rat.den_intCast, Nat.cast_one, Int.tdiv_one]

end Scaling

end DensityClustering
