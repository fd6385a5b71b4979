import FrogOS.ShiftRegister
import Mathlib

set_option autoImplicit false

namespace FrogOS.ShiftRegister

open Polynomial

/-- The polynomial whose coefficients are the bits, the first one that of the highest power. -/
noncomputable def bitsPolynomial : List Bool → (ZMod 2)[X]
  | [] => 0
  | b :: bits => (if b then X ^ bits.length else 0) + bitsPolynomial bits

/-- The bits of a state in the order in which they leave it. -/
def stateBits {w : Nat} (s : BitVec w) : List Bool := (List.range w).map s.getLsbD

noncomputable def statePolynomial {w : Nat} (s : BitVec w) : (ZMod 2)[X] :=
  bitsPolynomial (stateBits s)

/-- What the feedback stands for: it is zero modulo this polynomial. -/
noncomputable def generator {w : Nat} (poly : BitVec w) : (ZMod 2)[X] :=
  X ^ w + statePolynomial poly

section Bits

theorem bitsPolynomial_xor {first second : List Bool} (same : first.length = second.length) :
    bitsPolynomial (List.zipWith (· ^^ ·) first second) =
      bitsPolynomial first + bitsPolynomial second := by
  induction first generalizing second with
  | nil =>
      cases second with
      | nil => simp [bitsPolynomial]
      | cons b second => cases same
  | cons a first ih =>
      cases second with
      | nil => cases same
      | cons b second =>
          have rest : first.length = second.length := Nat.succ.inj same
          have length : (List.zipWith (· ^^ ·) first second).length = second.length := by
            rw [List.length_zipWith, rest, Nat.min_self]
          have leading : (if (a ^^ b) = true then X ^ second.length else 0 : (ZMod 2)[X]) =
              (if a then X ^ second.length else 0) + (if b then X ^ second.length else 0) := by
            have twice := CharTwo.add_self_eq_zero (X ^ second.length : (ZMod 2)[X])
            cases a <;> cases b <;> simp [twice]
          rw [List.zipWith_cons_cons, bitsPolynomial, length, ih rest, leading, bitsPolynomial,
            bitsPolynomial, rest]
          ring

theorem bitsPolynomial_snoc_false (bits : List Bool) :
    bitsPolynomial (bits ++ [false]) = X * bitsPolynomial bits := by
  induction bits with
  | nil => simp [bitsPolynomial]
  | cons b bits ih =>
      rw [List.cons_append, bitsPolynomial, ih, List.length_append, bitsPolynomial]
      cases b
      · simp
      · simp only [↓reduceIte, List.length_singleton]
        ring

theorem bitsPolynomial_degree (bits : List Bool) :
    (bitsPolynomial bits).degree < bits.length := by
  induction bits with
  | nil => simp [bitsPolynomial]
  | cons b bits ih =>
      have rest : (bitsPolynomial bits).degree < ((b :: bits).length : Nat) :=
        ih.trans (by rw [List.length_cons]; exact_mod_cast Nat.lt_succ_self _)
      have leading : (if b then X ^ bits.length else 0 : (ZMod 2)[X]).degree <
          ((b :: bits).length : Nat) := by
        cases b with
        | false => simp
        | true =>
            rw [if_pos rfl, degree_X_pow, List.length_cons]
            exact_mod_cast Nat.lt_succ_self _
      rw [bitsPolynomial]
      exact (degree_add_le _ _).trans_lt (max_lt leading rest)

end Bits

section State

variable {w : Nat} {poly : BitVec w}

@[simp] theorem stateBits_length (s : BitVec w) : (stateBits s).length = w := by
  simp [stateBits]

theorem statePolynomial_xor (s t : BitVec w) :
    statePolynomial (s ^^^ t) = statePolynomial s + statePolynomial t := by
  have bits : stateBits (s ^^^ t) = List.zipWith (· ^^ ·) (stateBits s) (stateBits t) := by
    rw [stateBits, stateBits, stateBits, List.zipWith_map, List.zipWith_self]
    exact List.map_congr_left fun i _ => BitVec.getLsbD_xor
  rw [statePolynomial, bits, bitsPolynomial_xor (by simp)]
  rfl

theorem statePolynomial_degree (s : BitVec w) : (statePolynomial s).degree < w := by
  have bound := bitsPolynomial_degree (stateBits s)
  rwa [stateBits_length] at bound

theorem generator_monic (poly : BitVec w) : (generator poly).Monic :=
  monic_X_pow_add (statePolynomial_degree poly)

theorem generator_degree (poly : BitVec w) : (generator poly).degree = w := by
  have smaller := statePolynomial_degree poly
  rw [generator, degree_add_eq_left_of_degree_lt]
  · exact degree_X_pow w
  · rwa [degree_X_pow]

/-- A shift multiplies, and the bit that leaves is the highest power. -/
theorem statePolynomial_shift (s : BitVec w) :
    X * statePolynomial s =
      (if s.getLsbD 0 then X ^ w else 0) + statePolynomial (s >>> 1) := by
  cases w with
  | zero => simp [statePolynomial, stateBits, bitsPolynomial]
  | succ w =>
      have whole : stateBits s = s.getLsbD 0 :: (List.range w).map fun i => s.getLsbD (i + 1) := by
        rw [stateBits, List.range_succ_eq_map, List.map_cons, List.map_map]
        rfl
      have shifted : stateBits (s >>> 1) =
          ((List.range w).map fun i => s.getLsbD (i + 1)) ++ [false] := by
        rw [stateBits, List.range_succ, List.map_append]
        simp [BitVec.getLsbD_ushiftRight, Nat.add_comm]
      rw [statePolynomial, statePolynomial, shifted, bitsPolynomial_snoc_false, whole,
        bitsPolynomial, List.length_map, List.length_range]
      cases s.getLsbD 0
      · simp
      · simp only [↓reduceIte]
        ring

/-- A step multiplies up to the generator. -/
theorem statePolynomial_step (s : BitVec w) :
    X * statePolynomial s =
      generator poly * (if s.getLsbD 0 then 1 else 0) + statePolynomial (step poly s) := by
  rw [statePolynomial_shift, step]
  cases s.getLsbD 0
  · simp
  · simp only [↓reduceIte, mul_one]
    rw [statePolynomial_xor, generator]
    have twice : statePolynomial poly + statePolynomial poly = 0 := CharTwo.add_self_eq_zero _
    linear_combination -twice

@[simp] theorem statePolynomial_zero : statePolynomial 0#w = 0 := by
  have twice := statePolynomial_xor 0#w 0#w
  rwa [BitVec.xor_self, CharTwo.add_self_eq_zero] at twice

theorem statePolynomial_bit (room : 0 < w) (b : Bool) :
    X * statePolynomial (bit w b) = if b then X ^ w else 0 := by
  rw [statePolynomial_shift]
  cases b with
  | false => simp [bit]
  | true =>
      have left : 1#w >>> 1 = 0#w := by
        apply BitVec.eq_of_getLsbD_eq
        intro i _
        simp
      simp [bit, room, left]

/-- Feeding computes with the message up to the generator. -/
theorem statePolynomial_feed (room : 0 < w) (s : BitVec w) (bits : List Bool) :
    ∃ q, statePolynomial (feed poly s bits) + generator poly * q =
      X ^ bits.length * statePolynomial s + X ^ w * bitsPolynomial bits := by
  induction bits generalizing s with
  | nil => exact ⟨0, by simp [bitsPolynomial]⟩
  | cons b bits ih =>
      obtain ⟨q, rest⟩ := ih (step poly (s ^^^ bit w b))
      have entered := @statePolynomial_step _ poly (s ^^^ bit w b)
      rw [statePolynomial_xor, mul_add, statePolynomial_bit room] at entered
      generalize (if (s ^^^ bit w b).getLsbD 0 then 1 else 0 : (ZMod 2)[X]) = feedback at entered
      refine ⟨q + X ^ bits.length * feedback, ?_⟩
      have leading : X ^ w * (if b then X ^ bits.length else 0 : (ZMod 2)[X]) =
          X ^ bits.length * (if b then X ^ w else 0) := by
        cases b
        · simp
        · simp only [↓reduceIte]
          ring
      rw [feed_cons, bitsPolynomial, List.length_cons, mul_add (X ^ w), leading]
      linear_combination rest - X ^ bits.length * entered

/-- The register holds the remainder of what went in. -/
theorem statePolynomial_feed_eq (room : 0 < w) (s : BitVec w) (bits : List Bool) :
    statePolynomial (feed poly s bits) =
      (X ^ bits.length * statePolynomial s + X ^ w * bitsPolynomial bits) %ₘ generator poly := by
  obtain ⟨q, whole⟩ := @statePolynomial_feed _ poly room s bits
  have small : (statePolynomial (feed poly s bits)).degree < (generator poly).degree := by
    rw [generator_degree]
    exact statePolynomial_degree _
  exact (div_modByMonic_unique q _ (generator_monic poly) ⟨whole, small⟩).2.symm

end State

end FrogOS.ShiftRegister
