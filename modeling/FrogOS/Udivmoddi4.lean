import FrogOS.ShiftDivision

set_option autoImplicit false

namespace FrogOS

open ShiftDivision

/-- Why a division has no result: the trap of the processor, or a loop that never ends. -/
inductive DivFault
  | divideError
  | diverges
deriving DecidableEq, Repr

/-- What `__udivmoddi4` returns, and what it stores through `rem_p`. -/
structure DivResult where
  quot : UInt64
  stored : Option UInt64
deriving DecidableEq, Repr

/-- The loop that left-justifies the denominator. -/
def leftJustify : Nat → UInt64 → UInt64 → Option (UInt64 × UInt64)
  | 0, _, _ => none
  | fuel + 1, den, qbit =>
      if 0 ≤ den.toInt64 then leftJustify fuel (den <<< 1) (qbit <<< 1) else some (den, qbit)

/-- The loop that divides. -/
def divideLoop : Nat → UInt64 → UInt64 → UInt64 → UInt64 → Option (UInt64 × UInt64)
  | 0, _, _, _, _ => none
  | fuel + 1, num, den, quot, qbit =>
      if qbit ≠ 0 then
        if den ≤ num then divideLoop fuel (num - den) (den >>> 1) (quot + qbit) (qbit >>> 1)
        else divideLoop fuel num (den >>> 1) quot (qbit >>> 1)
      else some (quot, num)

def udivmoddi4 (fuel : Nat) (num den : UInt64) (remP : UInt32) : Except DivFault DivResult :=
  if den = 0 then .error .divideError
  else
    match leftJustify fuel den 1 with
    | none => .error .diverges
    | some (den, qbit) =>
        match divideLoop fuel num den 0 qbit with
        | none => .error .diverges
        | some (quot, num) => .ok { quot, stored := if remP ≠ 0 then some num else none }

/-- The operations that could lose something. -/
inductive DivOp
  | shiftLeft (value : UInt64)
  | shiftRight (value : UInt64)
  | subtract (left right : UInt64)
  | add (left right : UInt64)
deriving DecidableEq, Repr

/-- No bit is shifted out, nothing is borrowed or carried. -/
def DivOp.Lossless : DivOp → Prop
  | shiftLeft value => 2 * value.toNat < 2 ^ 64
  | shiftRight value => value.toNat % 2 = 0
  | subtract left right => right.toNat ≤ left.toNat
  | add left right => left.toNat + right.toNat < 2 ^ 64

instance : (op : DivOp) → Decidable op.Lossless
  | .shiftLeft value => inferInstanceAs (Decidable (2 * value.toNat < 2 ^ 64))
  | .shiftRight value => inferInstanceAs (Decidable (value.toNat % 2 = 0))
  | .subtract left right => inferInstanceAs (Decidable (right.toNat ≤ left.toNat))
  | .add left right => inferInstanceAs (Decidable (left.toNat + right.toNat < 2 ^ 64))

def justifyOps : Nat → UInt64 → UInt64 → List DivOp
  | 0, _, _ => []
  | fuel + 1, den, qbit =>
      if 0 ≤ den.toInt64 then
        .shiftLeft den :: .shiftLeft qbit :: justifyOps fuel (den <<< 1) (qbit <<< 1)
      else []

def divideOps : Nat → UInt64 → UInt64 → UInt64 → UInt64 → List DivOp
  | 0, _, _, _, _ => []
  | fuel + 1, num, den, quot, qbit =>
      if qbit ≠ 0 then
        if den ≤ num then
          .subtract num den :: .add quot qbit :: .shiftRight den :: .shiftRight qbit ::
            divideOps fuel (num - den) (den >>> 1) (quot + qbit) (qbit >>> 1)
        else
          .shiftRight den :: .shiftRight qbit ::
            divideOps fuel num (den >>> 1) quot (qbit >>> 1)
      else []

/-- The shifts, subtractions and additions of `__udivmoddi4` in their order. -/
def udivmoddi4Ops (fuel : Nat) (num den : UInt64) : List DivOp :=
  justifyOps fuel den 1 ++
    match leftJustify fuel den 1 with
    | none => []
    | some (den, qbit) => divideOps fuel num den 0 qbit

/-- The variables of `__udivmoddi4`. -/
structure DivVars where
  num : UInt64
  den : UInt64
  quot : UInt64
  qbit : UInt64

/-- The variables after some operations. They come in pairs, with the values that they had. -/
def replay : List DivOp → DivVars → DivVars
  | .shiftLeft den :: .shiftLeft qbit :: ops, v =>
      replay ops { v with den := den <<< 1, qbit := qbit <<< 1 }
  | .subtract num den :: .add quot qbit :: ops, v =>
      replay ops { v with num := num - den, quot := quot + qbit }
  | .shiftRight den :: .shiftRight qbit :: ops, v =>
      replay ops { v with den := den >>> 1, qbit := qbit >>> 1 }
  | _, v => v

section Replay

variable {fuel : Nat} {num den quot qbit : UInt64}

theorem leftJustify_replay {left bit : UInt64} (done : leftJustify fuel den qbit = some (left, bit))
    (ops : List DivOp) :
    replay (justifyOps fuel den qbit ++ ops) ⟨num, den, quot, qbit⟩ =
      replay ops ⟨num, left, quot, bit⟩ := by
  induction fuel generalizing den qbit with
  | zero => cases done
  | succ fuel ih =>
      rw [leftJustify] at done
      rw [justifyOps]
      split at done
      · rename_i low
        rw [if_pos low]
        exact ih done
      · rename_i high
        cases done
        rw [if_neg high]
        rfl

theorem divideLoop_replay {q r : UInt64} (done : divideLoop fuel num den quot qbit = some (q, r)) :
    ∃ d b, replay (divideOps fuel num den quot qbit) ⟨num, den, quot, qbit⟩ = ⟨r, d, q, b⟩ := by
  induction fuel generalizing num den quot qbit with
  | zero => cases done
  | succ fuel ih =>
      rw [divideLoop] at done
      rw [divideOps]
      split at done
      · rename_i more
        rw [if_pos more]
        split at done
        · rename_i fits
          rw [if_pos fits]
          exact ih done
        · rename_i less
          rw [if_neg less]
          exact ih done
      · rename_i last
        cases done
        rw [if_neg last]
        exact ⟨den, qbit, rfl⟩

/-- The operations, one after the other, are the division. -/
theorem udivmoddi4_replay {remP : UInt32} {result : DivResult}
    (done : udivmoddi4 fuel num den remP = .ok result) :
    ∃ d b r, replay (udivmoddi4Ops fuel num den) ⟨num, den, 0, 1⟩ = ⟨r, d, result.quot, b⟩ ∧
      result.stored = if remP ≠ 0 then some r else none := by
  rw [udivmoddi4] at done
  split at done
  · cases done
  · rw [udivmoddi4Ops]
    split at done
    · cases done
    · rename_i left bit justified
      rw [leftJustify_replay justified]
      split at done
      · cases done
      · rename_i q r divided
        cases done
        obtain ⟨d, b, last⟩ := divideLoop_replay divided
        exact ⟨d, b, r, last, rfl⟩

end Replay

section Words

variable {x : UInt64}

/-- The sign bit is the top bit. -/
theorem toInt64_nonneg : 0 ≤ x.toInt64 ↔ x.toNat < 2 ^ 63 := by
  have bound := x.toNat_lt
  rw [Int64.le_iff_toInt_le]
  change 0 ≤ x.toBitVec.toInt ↔ _
  rw [BitVec.toInt_eq_toNat_cond]
  change 0 ≤ (if 2 * x.toNat < 2 ^ 64 then (x.toNat : Int)
    else (x.toNat : Int) - (2 ^ 64 : Nat)) ↔ _
  split <;> omega

theorem shiftLeft_toNat (small : x.toNat < 2 ^ 63) : (x <<< 1).toNat = 2 * x.toNat := by
  rw [UInt64.toNat_shiftLeft, Nat.shiftLeft_eq]
  change x.toNat * 2 ^ 1 % 2 ^ 64 = _
  omega

theorem shiftRight_toNat (x : UInt64) : (x >>> 1).toNat = x.toNat / 2 := by
  rw [UInt64.toNat_shiftRight, Nat.shiftRight_eq_div_pow]
  rfl

end Words

section LeftJustify

/-- The divisor ends at the left, and the quotient bit has moved with it. -/
theorem leftJustify_spec (fuel : Nat) (den qbit : UInt64) (reach : 2 ^ 63 ≤ den.toNat * 2 ^ fuel)
    (below : qbit.toNat ≤ den.toNat) :
    ∃ shift left bit, leftJustify (fuel + 1) den qbit = some (left, bit) ∧
      left.toNat = den.toNat * 2 ^ shift ∧ bit.toNat = qbit.toNat * 2 ^ shift ∧
      2 ^ 63 ≤ left.toNat ∧ shift ≤ fuel ∧
      ∀ op ∈ justifyOps (fuel + 1) den qbit, op.Lossless := by
  induction fuel generalizing den qbit with
  | zero =>
      have high : ¬ 0 ≤ den.toInt64 := by
        rw [toInt64_nonneg]
        omega
      refine ⟨0, den, qbit, ?_, by omega, by omega, by omega, Nat.le_refl _, ?_⟩
      · rw [leftJustify, if_neg high]
      · rw [justifyOps, if_neg high]
        exact fun op member => absurd member List.not_mem_nil
  | succ fuel ih =>
      rw [leftJustify, justifyOps]
      by_cases low : 0 ≤ den.toInt64
      · have small := toInt64_nonneg.mp low
        have denNext := shiftLeft_toNat small
        have qbitNext := shiftLeft_toNat (Nat.lt_of_le_of_lt below small)
        have reachNext : 2 ^ 63 ≤ (den <<< 1).toNat * 2 ^ fuel := by
          rw [denNext, Nat.mul_comm 2, Nat.mul_assoc, ← Nat.pow_succ']
          exact reach
        obtain ⟨shift, left, bit, rest, leftValue, bitValue, top, short, lossless⟩ :=
          ih (den <<< 1) (qbit <<< 1) reachNext (by omega)
        rw [if_pos low, if_pos low]
        refine ⟨shift + 1, left, bit, rest, ?_, ?_, top, by omega, ?_⟩
        · rw [leftValue, denNext, Nat.pow_succ]
          ring
        · rw [bitValue, qbitNext, Nat.pow_succ]
          ring
        · intro op member
          rcases List.mem_cons.mp member with rfl | member
          · change 2 * den.toNat < 2 ^ 64
            omega
          · rcases List.mem_cons.mp member with rfl | member
            · change 2 * qbit.toNat < 2 ^ 64
              omega
            · exact lossless op member
      · rw [if_neg low, if_neg low]
        rw [toInt64_nonneg] at low
        exact ⟨0, den, qbit, rfl, by omega, by omega, by omega, by omega,
          fun op member => absurd member List.not_mem_nil⟩

end LeftJustify

section DivideLoop

variable {shift d : Nat} {num den quot qbit : UInt64}

/-- One round subtracts the divisor where it fits. -/
theorem divideLoop_round (fuel : Nat) (denValue : den.toNat = d * 2 ^ shift)
    (qbitValue : qbit.toNat = 2 ^ shift) (bound : num.toNat < d * 2 ^ (shift + 1))
    (room : quot.toNat + num.toNat / d < 2 ^ 64) :
    ∃ num' quot' early,
      divideLoop (fuel + 1) num den quot qbit =
        divideLoop fuel num' (den >>> 1) quot' (qbit >>> 1) ∧
      divideOps (fuel + 1) num den quot qbit = early ++ .shiftRight den :: .shiftRight qbit ::
        divideOps fuel num' (den >>> 1) quot' (qbit >>> 1) ∧
      (∀ op ∈ early, op.Lossless) ∧ num'.toNat < d * 2 ^ shift ∧
      quot'.toNat + num'.toNat / d = quot.toNat + num.toNat / d ∧
      divide d (shift + 1) num.toNat quot.toNat = divide d shift num'.toNat quot'.toNat := by
  have double : d * 2 ^ (shift + 1) = d * 2 ^ shift + d * 2 ^ shift := by ring
  have power := Nat.two_pow_pos shift
  have positive : 0 < d := Nat.pos_of_ne_zero fun zero => by simp [zero] at bound
  have nonzero : qbit ≠ 0 := by
    intro zero
    rw [zero] at qbitValue
    change 0 = _ at qbitValue
    omega
  rw [divideLoop, divideOps, if_pos nonzero, if_pos nonzero, divide, ← denValue, ← qbitValue]
  by_cases fits : den ≤ num
  · have order := UInt64.le_iff_toNat_le.mp fits
    have left : (num - den).toNat = num.toNat - den.toNat := UInt64.toNat_sub_of_le _ _ fits
    have quotient : num.toNat / d = (num - den).toNat / d + qbit.toNat := by
      conv_lhs => rw [← Nat.sub_add_cancel order, ← left, denValue]
      rw [qbitValue]
      exact Nat.add_mul_div_left _ _ positive
    have rest := Nat.zero_le ((num - den).toNat / d)
    have sum : (quot + qbit).toNat = quot.toNat + qbit.toNat := by
      rw [UInt64.toNat_add]
      omega
    rw [if_pos fits, if_pos fits, if_pos order]
    refine ⟨num - den, quot + qbit, [.subtract num den, .add quot qbit], rfl, rfl, ?_, by omega,
      by omega, by rw [left, sum]⟩
    intro op member
    rcases List.mem_cons.mp member with rfl | member
    · exact order
    · rw [List.mem_singleton.mp member]
      change quot.toNat + qbit.toNat < 2 ^ 64
      omega
  · have order : ¬ den.toNat ≤ num.toNat := fun le => fits (UInt64.le_iff_toNat_le.mpr le)
    rw [if_neg fits, if_neg fits, if_neg order]
    exact ⟨num, quot, [], rfl, rfl, fun op member => absurd member List.not_mem_nil, by omega, rfl,
      rfl⟩

/-- The loop is restoring division, and it loses nothing before the shifts that end it. -/
theorem divideLoop_spec {fuel : Nat} (enough : shift + 2 ≤ fuel)
    (denValue : den.toNat = d * 2 ^ shift) (qbitValue : qbit.toNat = 2 ^ shift)
    (bound : num.toNat < d * 2 ^ (shift + 1)) (room : quot.toNat + num.toNat / d < 2 ^ 64) :
    ∃ q r, divideLoop fuel num den quot qbit = some (q, r) ∧
      (q.toNat, r.toNat) = divide d (shift + 1) num.toNat quot.toNat ∧
      ∃ front last, divideOps fuel num den quot qbit =
          front ++ [.shiftRight last, .shiftRight 1] ∧
        ∀ op ∈ front, op.Lossless := by
  induction shift generalizing fuel num den quot qbit with
  | zero =>
      obtain ⟨fuel, rfl⟩ : ∃ more, fuel = more + 2 := ⟨fuel - 2, by omega⟩
      obtain ⟨num', quot', early, loop, ops, lossless, -, -, divides⟩ :=
        divideLoop_round (fuel + 1) denValue qbitValue bound room
      have one : qbit = 1 := UInt64.toNat_inj.mp qbitValue
      have gone : ¬ qbit >>> 1 ≠ 0 := by
        rw [one]
        decide
      refine ⟨quot', num', ?_, ?_, early, den, ?_, lossless⟩
      · rw [loop, divideLoop, if_neg gone]
      · rw [divides, divide]
      · rw [ops, divideOps, if_neg gone, one]
  | succ shift ih =>
      obtain ⟨fuel, rfl⟩ : ∃ more, fuel = more + 1 := ⟨fuel - 1, by omega⟩
      obtain ⟨num', quot', early, loop, ops, lossless, bound', same, divides⟩ :=
        divideLoop_round fuel denValue qbitValue bound room
      have denEven : den.toNat = 2 * (d * 2 ^ shift) := by
        rw [denValue]
        ring
      have qbitEven : qbit.toNat = 2 * 2 ^ shift := by
        rw [qbitValue]
        ring
      have denNext : (den >>> 1).toNat = d * 2 ^ shift := by
        rw [shiftRight_toNat]
        omega
      have qbitNext : (qbit >>> 1).toNat = 2 ^ shift := by
        rw [shiftRight_toNat]
        omega
      have more : shift + 2 ≤ fuel := by omega
      obtain ⟨q, r, rest, value, front, last, restOps, restLossless⟩ :=
        ih more denNext qbitNext bound' (by rw [same]; exact room)
      refine ⟨q, r, by rw [loop, rest], by rw [divides, value],
        early ++ .shiftRight den :: .shiftRight qbit :: front, last, ?_, ?_⟩
      · rw [ops, restOps]
        simp only [List.append_assoc, List.cons_append]
      · intro op member
        rcases List.mem_append.mp member with first | member
        · exact lossless op first
        · rcases List.mem_cons.mp member with rfl | member
          · change den.toNat % 2 = 0
            omega
          · rcases List.mem_cons.mp member with rfl | member
            · change qbit.toNat % 2 = 0
              omega
            · exact restLossless op member

end DivideLoop

/-- The result is the quotient, and the remainder goes through a non-null `rem_p`. -/
def Divides (num den : UInt64) (remP : UInt32) (result : DivResult) : Prop :=
  result.quot = num / den ∧ result.stored = (if remP ≠ 0 then some (num % den) else none) ∧
    (num / den).toNat * den.toNat + (num % den).toNat = num.toNat ∧
    (num % den).toNat < den.toNat

theorem divides_intro {num den q r : UInt64} {remP : UInt32} (positive : 0 < den.toNat)
    (value : (q.toNat, r.toNat) = (num.toNat / den.toNat, num.toNat % den.toNat)) :
    Divides num den remP { quot := q, stored := if remP ≠ 0 then some r else none } := by
  obtain ⟨quotient, remainder⟩ := Prod.mk.inj value
  have quotSame : q = num / den := UInt64.toNat_inj.mp (quotient.trans (UInt64.toNat_div ..).symm)
  have remSame : r = num % den := UInt64.toNat_inj.mp (remainder.trans (UInt64.toNat_mod ..).symm)
  refine ⟨quotSame, by rw [remSame], ?_, ?_⟩
  · rw [UInt64.toNat_div, UInt64.toNat_mod, Nat.mul_comm]
    exact Nat.div_add_mod _ _
  · rw [UInt64.toNat_mod]
    exact Nat.mod_lt _ positive

/-- Division by anything but zero ends and is exact. The only bits that are lost are shifted out by
the two shifts that end it. -/
theorem udivmoddi4_divides (num den : UInt64) (remP : UInt32) (nonzero : den ≠ 0) (fuel : Nat)
    (enough : 65 ≤ fuel) :
    ∃ result, udivmoddi4 fuel num den remP = .ok result ∧ Divides num den remP result ∧
      ∃ front last, udivmoddi4Ops fuel num den = front ++ [.shiftRight last, .shiftRight 1] ∧
        ∀ op ∈ front, op.Lossless := by
  have positive : 0 < den.toNat :=
    Nat.pos_of_ne_zero fun zero => nonzero (UInt64.toNat_inj.mp zero)
  have numBound := num.toNat_lt
  obtain ⟨more, rfl⟩ : ∃ more, fuel = more + 1 := ⟨fuel - 1, by omega⟩
  have reach : 2 ^ 63 ≤ den.toNat * 2 ^ more :=
    Nat.le_trans (Nat.pow_le_pow_right (by decide) (by omega)) (Nat.le_mul_of_pos_left _ positive)
  obtain ⟨shift, left, bit, justified, leftValue, bitValue, top, -, justifyLossless⟩ :=
    leftJustify_spec more den 1 reach positive
  have leftBound := left.toNat_lt
  have short : shift < 64 := by
    apply (Nat.pow_lt_pow_iff_right (a := 2) (by decide)).mp
    have least := Nat.le_mul_of_pos_left (2 ^ shift) positive
    omega
  have bit1 : bit.toNat = 2 ^ shift := by
    rw [bitValue]
    exact Nat.one_mul _
  have bound : num.toNat < den.toNat * 2 ^ (shift + 1) := by
    have double : den.toNat * 2 ^ (shift + 1) = 2 * left.toNat := by
      rw [leftValue]
      ring
    omega
  have room : (0 : UInt64).toNat + num.toNat / den.toNat < 2 ^ 64 := by
    change 0 + _ < _
    rw [Nat.zero_add]
    exact Nat.lt_of_le_of_lt (Nat.div_le_self _ _) numBound
  have enough : shift + 2 ≤ more + 1 := by omega
  obtain ⟨q, r, loop, value, front, last, ops, lossless⟩ :=
    divideLoop_spec enough leftValue bit1 bound room
  rw [divide_spec bound] at value
  change _ = (0 + _, _) at value
  rw [Nat.zero_add] at value
  refine ⟨_, ?_, divides_intro positive value, justifyOps (more + 1) den 1 ++ front, last, ?_, ?_⟩
  · rw [udivmoddi4, if_neg nonzero, justified]
    change (match divideLoop (more + 1) num left 0 bit with | none => _ | some (q, r) => _) = _
    rw [loop]
  · rw [udivmoddi4Ops, justified]
    change _ ++ divideOps (more + 1) num left 0 bit = _
    rw [ops, List.append_assoc]
  · intro op member
    rcases List.mem_append.mp member with first | second
    · exact justifyLossless op first
    · exact lossless op second

/-- A divisor with the top bit set. -/
theorem top_bit_udivmoddi4_divides :
    ∃ result, udivmoddi4 65 0xffffffffffffffff 0x8000000000000001 1 = .ok result ∧
      Divides 0xffffffffffffffff 0x8000000000000001 1 result ∧
      ∃ front last, udivmoddi4Ops 65 0xffffffffffffffff 0x8000000000000001 =
          front ++ [.shiftRight last, .shiftRight 1] ∧ ∀ op ∈ front, op.Lossless :=
  udivmoddi4_divides 0xffffffffffffffff 0x8000000000000001 1 (by decide) 65 (by decide)

/-- Those two shift out the bits of 1 by 1. -/
theorem unit_division_shifts_bits_out :
    ¬ ∀ num den remP fuel, den ≠ 0 → 65 ≤ fuel →
      ∃ result, udivmoddi4 fuel num den remP = .ok result ∧ Divides num den remP result ∧
        ∀ op ∈ udivmoddi4Ops fuel num den, op.Lossless := by
  intro claim
  obtain ⟨-, -, -, lossless⟩ := claim 1 1 0 65 (by decide) (by decide)
  have last : DivOp.shiftRight 1 ∈ udivmoddi4Ops 65 1 1 := by decide +kernel
  exact absurd (lossless _ last) (by decide)

end FrogOS
