import Mathlib.Algebra.Order.Ring.Int

/-! The integers of the C code. -/

namespace LibGda

/-- The value an `int` takes. -/
def gint (n : Int) : Int := n.bmod (2 ^ 32)

theorem gint_of_bounds {n : Int} (hlow : -2 ^ 31 ≤ n) (hhigh : n < 2 ^ 31) : gint n = n := by
  apply Int.bmod_eq_of_le <;> omega

end LibGda
