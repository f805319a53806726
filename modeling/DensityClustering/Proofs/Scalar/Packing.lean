import Mathlib
import DensityClustering.Scalar.Binary64

/-!
Doubles and their bits. Computing with doubles takes them apart into sign, mantissa and exponent and
packs the result again. A number whose mantissa fits is packed without loss, and the parts a double is
computed with are those that its bits are read as.
-/

namespace DensityClustering

namespace Packing

open Binary64 (Parts parts signBit)
open Float.Model (UnpackedFloat Format)
open Float.Model.UnpackedFloat

/-- A mantissa of 53 digits, or fewer at the least exponent: what a finite double other than zero is
made of. -/
structure Canonical (m : ℕ) (e : ℤ) : Prop where
  pos : 0 < m
  short : m < 2 ^ 53
  low : -1074 ≤ e
  high : e ≤ 971
  full : e = -1074 ∨ 2 ^ 52 ≤ m

theorem log2_of_full {m : ℕ} (hshort : m < 2 ^ 53) (hfull : 2 ^ 52 ≤ m) : m.log2 = 52 := by
  have hm : m ≠ 0 := by omega
  apply le_antisymm
  · have hlt := (Nat.log2_lt hm).mpr hshort
    omega
  · exact (Nat.le_log2 hm).mpr hfull

theorem toNat_implicit (v : BitVec 52) : (1#1 ++ v).toNat = 2 ^ 52 + v.toNat := by
  rw [BitVec.toNat_append, ← Nat.shiftLeft_add_eq_or_of_lt v.isLt]
  rfl

theorem finite_congr {s : Sign} {m m' : ℕ} {e e' : ℤ} (hm : 0 < m) (hm' : 0 < m') (h : m = m')
    (he : e = e') : UnpackedFloat.finite s m e hm = .finite s m' e' hm' := by
  subst h he
  rfl

variable {m : ℕ} {e : ℤ}

/-- The bits of a normal number leave its leading digit out. -/
theorem unpack_normal (s : Sign) {w : BitVec 11} {v : BitVec 52} (hzero : w ≠ 0#11)
    (hinf : w ≠ -1#11) (hm : 0 < m) (hv : m = 2 ^ 52 + v.toNat) (hw : e = w.toNat - 1075) :
    UnpackedFloat.unpack Format.binary64 (packComponents Format.binary64 s w v) =
      .finite s m e hm := by
  have hbias : Format.binary64.exponentBias = 1023 := rfl
  unfold UnpackedFloat.unpack
  simp only [unpackMantissa_packComponents, unpackExponent_packComponents,
    unpackSign_packComponents, Sign.ofBitVec_toBitVec, if_neg hinf, if_neg hzero]
  apply finite_congr
  · exact (toNat_implicit v).trans hv.symm
  · rw [hbias, hw]
    omega

theorem unpack_subnormal (s : Sign) {v : BitVec 52} (hm : 0 < m) (hv : m = v.toNat) :
    UnpackedFloat.unpack Format.binary64 (packComponents Format.binary64 s 0#11 v) =
      .finite s m (-1074) hm := by
  have hzero : v ≠ 0#52 := by
    rw [Ne, ← BitVec.toNat_inj, ← hv]
    exact hm.ne'
  have hinf : 0#11 ≠ -1#11 := by decide
  unfold UnpackedFloat.unpack
  simp only [unpackMantissa_packComponents, unpackExponent_packComponents,
    unpackSign_packComponents, Sign.ofBitVec_toBitVec, if_neg hinf, if_true, dif_neg hzero]
  apply finite_congr
  · exact hv.symm
  · rfl

/-- Packing loses nothing of a number that fits. -/
theorem unpack_pack (s : Sign) (h : Canonical m e) :
    (Float.Model.pack (.finite s m e h.pos)).unpack = .finite s m e h.pos := by
  have hbias : Format.binary64.exponentBias = 1023 := rfl
  have hbits : Format.binary64.mantissaBits = 53 := rfl
  obtain ⟨hpos, hshort, hlow, hhigh, hfull⟩ := h
  show UnpackedFloat.unpack Format.binary64 (UnpackedFloat.pack Format.binary64 _) = _
  unfold UnpackedFloat.pack
  dsimp only
  -- The exponent is too low for an infinity.
  rw [hbias, hbits, if_neg (by simp; omega)]
  -- A full mantissa has a biased exponent of its own, and any other one the field zero.
  by_cases hnormal : 2 ^ 52 ≤ m
  · have hlog : m.log2 = 52 := log2_of_full hshort hnormal
    have hw : (BitVec.ofNat 11 (e + (1023 : ℕ) + (52 : ℕ)).toNat).toNat = (e + 1075).toNat := by
      rw [BitVec.toNat_ofNat]
      omega
    rw [if_pos (by omega)]
    apply unpack_normal
    · rw [Ne, ← BitVec.toNat_inj, hw]
      simp
      omega
    · rw [Ne, ← BitVec.toNat_inj, hw]
      simp
      omega
    · rw [BitVec.toNat_ofNat]
      omega
    · rw [hw]
      omega
  · have hlog : m.log2 < 52 := (Nat.log2_lt hpos.ne').mpr (by omega)
    have he : e = -1074 := hfull.resolve_right hnormal
    rw [if_neg (by omega)]
    subst he
    apply unpack_subnormal
    rw [BitVec.toNat_ofNat]
    omega

variable (b : BitVec 64)

theorem toNat_unpackMantissa : (@unpackMantissa Format.binary64 b).toNat = b.toNat % 2 ^ 52 := by
  simp [unpackMantissa_def]

theorem toNat_unpackExponent :
    (@unpackExponent Format.binary64 b).toNat = b.toNat >>> 52 % 2048 := by
  simp [unpackExponent_def]

theorem unpackSign_eq_zero : @unpackSign Format.binary64 b = 0#1 ↔ b.toNat < 2 ^ 63 := by
  have hb : b.toNat < 2 ^ 64 := b.isLt
  rw [← BitVec.toNat_inj]
  simp [unpackSign_def, Nat.shiftRight_eq_div_pow]
  omega

theorem negative_unpackSign :
    (Sign.ofBitVec (@unpackSign Format.binary64 b) == .negative) = decide (signBit ≤ b.toNat) := by
  have hbit : signBit = 2 ^ 63 := rfl
  unfold Sign.ofBitVec
  rw [Bool.eq_iff_iff, decide_eq_true_iff, hbit, ← Nat.not_lt, ← unpackSign_eq_zero]
  by_cases h : @unpackSign Format.binary64 b = 0#1
  · simp only [h, if_true, not_true, iff_false]
    decide
  · simp only [h, if_false, not_false_iff, iff_true]
    decide

/-- The parts that the bits of a double are read as are those it is computed with. -/
theorem parts_of_unpack {x : Float} {s : Sign} {hm : 0 < m}
    (hx : x.toModel.unpack = .finite s m e hm) :
    parts x = ⟨s == .negative, m, e⟩ ∧ m < 2 ^ 53 := by
  obtain ⟨⟨⟨b⟩, hvalid⟩⟩ := x
  have hfraction := toNat_unpackMantissa b
  have hbiased := toNat_unpackExponent b
  have hsign := negative_unpackSign b
  change UnpackedFloat.unpack Format.binary64 b = _ at hx
  have hone : 1 <<< 52 = 2 ^ 52 := rfl
  unfold UnpackedFloat.unpack at hx
  dsimp only at hx
  unfold parts
  change (⟨decide (signBit ≤ b.toNat),
    if b.toNat >>> 52 % 2048 = 0 then b.toNat % 1 <<< 52 else b.toNat % 1 <<< 52 + 1 <<< 52,
    ((if b.toNat >>> 52 % 2048 = 0 then 1 else b.toNat >>> 52 % 2048 : ℕ) : ℤ) - 1075⟩ : Parts)
      = _ ∧ _
  rw [hone, ← hbiased, ← hfraction, ← hsign]
  -- Both sides now speak of the same three fields, which `unpack` splits on.
  generalize @unpackSign Format.binary64 b = sv at *
  generalize @unpackExponent Format.binary64 b = ev at *
  have hmv := (@unpackMantissa Format.binary64 b).isLt
  split at hx
  · split at hx <;> cases hx
  · split at hx
    · next hsub =>
      split at hx
      · cases hx
      · cases hx
        rw [hsub]
        refine ⟨rfl, ?_⟩
        omega
    -- normal: the leading digit is not among the bits
    · next hnormal =>
      cases hx
      have hne : ev.toNat ≠ 0 := fun h => hnormal (BitVec.toNat_inj.mp h)
      have hleading := toNat_implicit (@unpackMantissa Format.binary64 b)
      rw [if_neg hne, if_neg hne, Parts.mk.injEq]
      refine ⟨⟨rfl, ?_, rfl⟩, ?_⟩
      · exact (Nat.add_comm _ _).trans hleading.symm
      · exact lt_of_eq_of_lt hleading (by omega)

end Packing

end DensityClustering
