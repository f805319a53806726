import Mathlib.Algebra.Order.Field.Rat
import Mathlib.Tactic.Linarith
import Mathlib.Tactic.Ring
import DensityClustering.Scalar.Instances
import DensityClustering.Geometry.Hull

/-!
Turns in exact arithmetic. Of four points that lie one after the other in some direction, the turns
at two of them decide the turn on the way that leaves one of them out. The lexicographic order sweeps
the plane in such a direction, for any four points at a time.
-/

namespace DensityClustering

namespace Hull

theorem cross_eq (a b c : Coord Rat) :
    cross a b c = (b.x - a.x) * (c.y - a.y) - (b.y - a.y) * (c.x - a.x) := rfl

/-- The way from `a` by `b` to `c` turns left. -/
def Turn (a b c : Coord Rat) : Prop := 0 < cross a b c

theorem not_turn_iff {a b c : Coord Rat} : ¬Turn a b c ↔ cross a b c ≤ 0 := not_lt

theorem cross_rotate (a b c : Coord Rat) : cross b c a = cross a b c := by
  simp only [cross_eq]
  ring

theorem cross_swap (a b c : Coord Rat) : cross a c b = -cross a b c := by
  simp only [cross_eq]
  ring

theorem Turn.rotate {a b c : Coord Rat} (h : Turn a b c) : Turn b c a := by
  rw [Turn, cross_rotate]
  exact h

theorem cross_self_left (a b : Coord Rat) : cross a b a = 0 := by
  simp only [cross_eq]
  ring

theorem cross_self_right (a b : Coord Rat) : cross a b b = 0 := by
  simp only [cross_eq]
  ring

/-- How far a point lies in the direction of a vector. -/
def along (v p : Coord Rat) : Rat := v.x * p.x + v.y * p.y

/-- Four points that lie one after the other in some direction. -/
def Lined (a b c d : Coord Rat) : Prop :=
  ∃ v, along v a < along v b ∧ along v b < along v c ∧ along v c < along v d

section Identities

variable (v a b c d : Coord Rat)

theorem cross_without_third : (along v b - along v a) * cross a c d +
    (along v d - along v a) * cross a b c = (along v c - along v a) * cross a b d := by
  simp only [cross_eq, along]
  ring

theorem cross_without_second : (along v d - along v c) * cross a b d +
    (along v d - along v a) * cross b c d = (along v d - along v b) * cross a c d := by
  simp only [cross_eq, along]
  ring

theorem cross_of_second : (along v c - along v b) * cross a c d =
    (along v c - along v a) * cross b c d + (along v d - along v c) * cross a b c := by
  simp only [cross_eq, along]
  ring

theorem cross_of_third : (along v c - along v b) * cross a b d =
    (along v b - along v a) * cross b c d + (along v d - along v b) * cross a b c := by
  simp only [cross_eq, along]
  ring

end Identities

namespace Lined

variable {a b c d : Coord Rat}

/-- Of two turns one after the other, the second is still one from the point before. -/
theorem turn_without_second (h : Lined a b c d) (habc : Turn a b c) (hbcd : Turn b c d) :
    Turn a c d := by
  obtain ⟨v, hab, hbc, hcd⟩ := h
  have hid := cross_of_second v a b c d
  have hfirst : 0 < (along v c - along v a) * cross b c d := mul_pos (by linarith) hbcd
  have hsecond : 0 < (along v d - along v c) * cross a b c := mul_pos (by linarith) habc
  have hpos : 0 < (along v c - along v b) * cross a c d := by linarith
  exact (mul_pos_iff_of_pos_left (by linarith)).mp hpos

/-- Of two turns one after the other, the first is still one to the point after. -/
theorem turn_without_third (h : Lined a b c d) (habc : Turn a b c) (hbcd : Turn b c d) :
    Turn a b d := by
  obtain ⟨v, hab, hbc, hcd⟩ := h
  have hid := cross_of_third v a b c d
  have hfirst : 0 < (along v b - along v a) * cross b c d := mul_pos (by linarith) hbcd
  have hsecond : 0 < (along v d - along v b) * cross a b c := mul_pos (by linarith) habc
  have hpos : 0 < (along v c - along v b) * cross a b d := by linarith
  exact (mul_pos_iff_of_pos_left (by linarith)).mp hpos

/-- A turn is still one from a point that lies to the left of the way. -/
theorem turn_of_not_turn (h : Lined a b c d) (habc : ¬Turn a b c) (hacd : Turn a c d) :
    Turn b c d := by
  obtain ⟨v, hab, hbc, hcd⟩ := h
  have hid := cross_of_second v a b c d
  have hfirst : (along v d - along v c) * cross a b c ≤ 0 :=
    mul_nonpos_of_nonneg_of_nonpos (by linarith) (not_turn_iff.mp habc)
  have hsecond : 0 < (along v c - along v b) * cross a c d := mul_pos (by linarith) hacd
  have hpos : 0 < (along v c - along v a) * cross b c d := by linarith
  exact (mul_pos_iff_of_pos_left (by linarith)).mp hpos

/-- What lies to the left of a way does so of the longer way that leaves out its end. -/
theorem not_turn_without_third (h : Lined a b c d) (habc : ¬Turn a b c) (hacd : ¬Turn a c d) :
    ¬Turn a b d := by
  obtain ⟨v, hab, hbc, hcd⟩ := h
  have hid := cross_without_third v a b c d
  have hfirst : (along v b - along v a) * cross a c d ≤ 0 :=
    mul_nonpos_of_nonneg_of_nonpos (by linarith) (not_turn_iff.mp hacd)
  have hsecond : (along v d - along v a) * cross a b c ≤ 0 :=
    mul_nonpos_of_nonneg_of_nonpos (by linarith) (not_turn_iff.mp habc)
  intro habd
  have hpos : 0 < (along v c - along v a) * cross a b d := mul_pos (by linarith) habd
  linarith

/-- What lies to the left of a way does so of the longer way that leaves out its start. -/
theorem not_turn_without_second (h : Lined a b c d) (hbcd : ¬Turn b c d) (habd : ¬Turn a b d) :
    ¬Turn a c d := by
  obtain ⟨v, hab, hbc, hcd⟩ := h
  have hid := cross_without_second v a b c d
  have hfirst : (along v d - along v c) * cross a b d ≤ 0 :=
    mul_nonpos_of_nonneg_of_nonpos (by linarith) (not_turn_iff.mp habd)
  have hsecond : (along v d - along v a) * cross b c d ≤ 0 :=
    mul_nonpos_of_nonneg_of_nonpos (by linarith) (not_turn_iff.mp hbcd)
  intro hacd
  have hpos : 0 < (along v d - along v b) * cross a c d := mul_pos (by linarith) hacd
  linarith

end Lined

/-- A linear order of the points in which any four are lined up. -/
structure Sweep (R : Coord Rat → Coord Rat → Prop) : Prop where
  irrefl : ∀ a, ¬R a a
  trans : ∀ {a b c}, R a b → R b c → R a c
  connected : ∀ a b, a = b ∨ R a b ∨ R b a
  lined : ∀ {a b c d}, R a b → R b c → R c d → Lined a b c d

theorem Sweep.asymm {R : Coord Rat → Coord Rat → Prop} (h : Sweep R) {a b : Coord Rat}
    (hab : R a b) : ¬R b a := fun hba => h.irrefl a (h.trans hab hba)

/-- The same sweep, from the other side. -/
theorem Sweep.flip {R : Coord Rat → Coord Rat → Prop} (h : Sweep R) : Sweep (flip R) where
  irrefl := h.irrefl
  trans hab hbc := h.trans hbc hab
  connected a b := (h.connected a b).imp_right Or.symm
  lined := by
    intro a b c d hab hbc hcd
    obtain ⟨v, h₁, h₂, h₃⟩ := h.lined hcd hbc hab
    have hneg : ∀ p, along ⟨-v.x, -v.y⟩ p = -along v p := by
      intro p
      simp only [along]
      ring
    refine ⟨⟨-v.x, -v.y⟩, ?_⟩
    simp only [hneg, neg_lt_neg_iff]
    exact ⟨h₃, h₂, h₁⟩

/-- The point comes first in lexicographic order. -/
def Before (p q : Coord Rat) : Prop := Coord.order p q = .lt

theorem order_eq_lt {x y : Rat} : Scalar.order x y = .lt ↔ x < y := by
  show compareOfLessAndEq x y = .lt ↔ x < y
  exact compareOfLessAndEq_eq_lt

theorem order_eq_eq {x y : Rat} : Scalar.order x y = .eq ↔ x = y :=
  Std.LawfulEqCmp.compare_eq_iff_eq

theorem before_iff {p q : Coord Rat} : Before p q ↔ p.x < q.x ∨ p.x = q.x ∧ p.y < q.y := by
  rw [← order_eq_lt, ← order_eq_eq, ← order_eq_lt]
  exact Ordering.then_eq_lt

/-- A point that comes first still does so once the plane is tilted a little. -/
theorem Before.tilted {p q : Coord Rat} (h : Before p q) :
    ∃ δ : Rat, 0 < δ ∧ ∀ ε, 0 < ε → ε ≤ δ → along ⟨1, ε⟩ p < along ⟨1, ε⟩ q := by
  simp only [along]
  rcases before_iff.mp h with hx | ⟨hx, hy⟩
  · refine ⟨(q.x - p.x) / (|p.y - q.y| + 1), div_pos (by linarith) (by positivity), ?_⟩
    intro ε hε hle
    have hbound : ε * (|p.y - q.y| + 1) ≤ q.x - p.x := (le_div_iff₀ (by positivity)).mp hle
    have habs : ε * (p.y - q.y) ≤ ε * |p.y - q.y| :=
      mul_le_mul_of_nonneg_left (le_abs_self _) hε.le
    linarith
  · refine ⟨1, one_pos, fun ε hε _ => ?_⟩
    have hrise : ε * p.y < ε * q.y := mul_lt_mul_of_pos_left hy hε
    linarith

/-- The lexicographic order is the sweep from left to right, a little tilted. -/
theorem sweep_before : Sweep Before where
  irrefl a h := by
    have hself : Coord.order a a = .eq := Std.ReflCmp.compare_self
    rw [Before, hself] at h
    cases h
  trans hab hbc := Std.TransCmp.lt_trans hab hbc
  connected a b := by
    cases h : Coord.order a b with
    | lt => exact Or.inr (Or.inl h)
    | eq => exact Or.inl (Std.LawfulEqCmp.eq_of_compare h)
    | gt => exact Or.inr (Or.inr (Std.OrientedCmp.lt_of_gt h))
  lined := by
    intro a b c d hab hbc hcd
    obtain ⟨δ₁, hpos₁, h₁⟩ := hab.tilted
    obtain ⟨δ₂, hpos₂, h₂⟩ := hbc.tilted
    obtain ⟨δ₃, hpos₃, h₃⟩ := hcd.tilted
    have hpos : 0 < min δ₁ (min δ₂ δ₃) := lt_min hpos₁ (lt_min hpos₂ hpos₃)
    exact ⟨⟨1, min δ₁ (min δ₂ δ₃)⟩, h₁ _ hpos (min_le_left ..),
      h₂ _ hpos ((min_le_right ..).trans (min_le_left ..)),
      h₃ _ hpos ((min_le_right ..).trans (min_le_right ..))⟩

end Hull

end DensityClustering
