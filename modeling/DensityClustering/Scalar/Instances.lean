import DensityClustering.Scalar.Basic
import DensityClustering.Scalar.Binary64

/-!
The two kinds of numbers: doubles, on which the library runs, and rationals, on which nothing is
rounded except the length of a vector.
-/

namespace DensityClustering

namespace Binary64

theorem rank_injective {x y : Float} (h : rank x = rank y) : x = y := by
  have hx := x.toBits.toNat_lt
  have hy := y.toBits.toNat_lt
  have hbits : x.toBits.toNat = y.toBits.toNat := by
    have hs : signBit = 2 ^ 63 := rfl
    by_cases h₁ : x.toBits.toNat < signBit <;> by_cases h₂ : y.toBits.toNat < signBit <;>
      simp only [rank, h₁, h₂, if_true, if_false] at h <;> omega
  have hmodel : x.toModel.toBits = y.toModel.toBits := UInt64.toNat.inj hbits
  obtain ⟨⟨bx, _⟩⟩ := x
  obtain ⟨⟨b, _⟩⟩ := y
  cases hmodel
  rfl

def order (x y : Float) : Ordering := compare (rank x) (rank y)

instance : Std.TransCmp order :=
  inferInstanceAs (Std.TransCmp (compareOn rank))

instance : Std.LawfulEqCmp order where
  eq_of_compare h := rank_injective (Std.LawfulEqCmp.eq_of_compare h)
  compare_self := (inferInstance : Std.ReflCmp order).compare_self

end Binary64

instance : Scalar Float where
  zero := 0
  one := 1
  beq := Float.beq
  decLt := inferInstance
  decLe := inferInstance
  order := Binary64.order
  transOrder := inferInstance
  lawfulOrder := inferInstance
  isFinite := Float.isFinite
  value := Binary64.value
  nearest := Binary64.nearest
  next := Binary64.next
  ofInt := Float.ofInt
  toDouble x := x
  abs := Float.abs
  hypot := Binary64.hypot
  tolerance := 1e-12
  negligible x y := Float.sqrt (x * x + y * y) < 1e-12
  truncate := Binary64.truncate

namespace Rational

def order (x y : Rat) : Ordering := compareOfLessAndEq x y

instance : Std.TransCmp order :=
  Std.TransOrd.compareOfLessAndEq_of_antisymm_of_trans_of_total_of_not_le
    Rat.le_antisymm Rat.le_trans (fun _ _ => Rat.le_total) Rat.not_le

instance : Std.LawfulEqCmp order where
  eq_of_compare h := (compareOfLessAndEq_eq_eq (fun _ => Rat.le_refl) Rat.not_le).mp h
  compare_self := (inferInstance : Std.ReflCmp order).compare_self

def truncate (x : Rat) : Int := x.num.tdiv x.den

/-- Length of the vector `(x, y)`, rounded to a double. -/
def hypot (x y : Rat) : Rat := Binary64.value (Binary64.nearestRoot (x * x + y * y))

end Rational

instance : Scalar Rat where
  zero := 0
  one := 1
  beq x y := decide (x = y)
  decLt := inferInstance
  decLe := inferInstance
  order := Rational.order
  transOrder := inferInstance
  lawfulOrder := inferInstance
  isFinite _ := true
  value x := x
  nearest x := x
  next x := x
  ofInt n := n
  toDouble := Binary64.nearest
  abs x := if x < 0 then -x else x
  hypot := Rational.hypot
  tolerance := mkRat 1 1000000000000
  negligible x y := x * x + y * y < mkRat 1 1000000000000000000000000
  truncate := Rational.truncate

end DensityClustering
