import Mathlib.Algebra.Group.Nat.Defs
import Mathlib.Tactic.Ring

set_option autoImplicit false

namespace FrogOS.ShiftDivision

/-- Restoring division: the divisor shifted by less and less is subtracted where it fits. The
results are the quotient, on top of `quot`, and what is left of `num`. -/
def divide (den : Nat) : Nat → Nat → Nat → Nat × Nat
  | 0, num, quot => (quot, num)
  | shift + 1, num, quot =>
      if den * 2 ^ shift ≤ num then divide den shift (num - den * 2 ^ shift) (quot + 2 ^ shift)
      else divide den shift num quot

section Divide

variable {den shift num quot : Nat}

theorem divide_spec (bound : num < den * 2 ^ shift) :
    divide den shift num quot = (quot + num / den, num % den) := by
  induction shift generalizing num quot with
  | zero =>
      rw [Nat.pow_zero, Nat.mul_one] at bound
      rw [divide, Nat.div_eq_of_lt bound, Nat.mod_eq_of_lt bound, Nat.add_zero]
  | succ shift ih =>
      have double : den * 2 ^ (shift + 1) = den * 2 ^ shift + den * 2 ^ shift := by ring
      have positive : 0 < den := Nat.pos_of_ne_zero fun zero => by simp [zero] at bound
      rw [divide]
      split
      · rename_i fits
        have whole : num = num - den * 2 ^ shift + den * 2 ^ shift := (Nat.sub_add_cancel fits).symm
        have quotient : num / den = (num - den * 2 ^ shift) / den + 2 ^ shift := by
          conv_lhs => rw [whole]
          exact Nat.add_mul_div_left _ _ positive
        have remainder : num % den = (num - den * 2 ^ shift) % den := by
          conv_lhs => rw [whole]
          exact Nat.add_mul_mod_self_left _ _ _
        rw [ih (by omega), quotient, remainder, Nat.add_assoc, Nat.add_comm (2 ^ shift)]
      · exact ih (by omega)

end Divide

end FrogOS.ShiftDivision
