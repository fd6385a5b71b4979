import Mathlib.Data.Nat.ModEq
import FrogOS.ByteMemory

set_option autoImplicit false

namespace FrogOS.OnesComplement

open ByteMemory

/-- One round of the end-around carry on `w` bits. -/
def endAround (w x : Nat) : Nat := x % 2 ^ w + x / 2 ^ w

/-- `r` is the one's complement sum on `w` bits of terms that add up to `x`. Of its two zeros it is
the negative one unless all terms are zero. -/
structure Folds (w x r : Nat) : Prop where
  small : r < 2 ^ w
  same : r ≡ x [MOD 2 ^ w - 1]
  zero : r = 0 ↔ x = 0

section Carry

variable {w x r r' : Nat}

theorem endAround_modEq (w x : Nat) : endAround w x ≡ x [MOD 2 ^ w - 1] := by
  have positive : 0 < 2 ^ w := Nat.two_pow_pos w
  have split : x = endAround w x + (2 ^ w - 1) * (x / 2 ^ w) := by
    have parts := Nat.mod_add_div x (2 ^ w)
    have whole : (2 ^ w - 1) * (x / 2 ^ w) + x / 2 ^ w = 2 ^ w * (x / 2 ^ w) := by
      rw [Nat.sub_mul, Nat.one_mul]
      exact Nat.sub_add_cancel (Nat.le_mul_of_pos_left _ positive)
    rw [endAround, Nat.add_assoc, Nat.add_comm (x / 2 ^ w), whole, parts]
  have folded := Nat.ModEq.modulus_mul_add (m := 2 ^ w - 1) (a := x / 2 ^ w) (b := endAround w x)
  rw [Nat.add_comm, ← split] at folded
  exact folded.symm

theorem endAround_eq_zero : endAround w x = 0 ↔ x = 0 := by
  have parts := Nat.mod_add_div x (2 ^ w)
  constructor
  · intro folded
    obtain ⟨low, high⟩ := Nat.add_eq_zero_iff.mp folded
    rw [low, high] at parts
    exact parts.symm
  · intro zero
    rw [zero, endAround, Nat.zero_mod, Nat.zero_div]

/-- A sum without a carry is the one's complement sum. -/
theorem Folds.of_small (small : x < 2 ^ w) : Folds w x x :=
  ⟨small, Nat.ModEq.refl x, Iff.rfl⟩

theorem Folds.endAround (folds : Folds w (endAround w x) r) : Folds w x r :=
  ⟨folds.small, folds.same.trans (endAround_modEq w x), folds.zero.trans endAround_eq_zero⟩

theorem Folds.unique (first : Folds w x r) (second : Folds w x r') : r = r' := by
  have zeros : r = 0 ↔ r' = 0 := first.zero.trans second.zero.symm
  by_cases null : r = 0
  · rw [null, zeros.mp null]
  · -- Apart from the zero the representatives are `1` to `2 ^ w - 1`.
    obtain ⟨a, rfl⟩ := Nat.exists_eq_succ_of_ne_zero null
    obtain ⟨b, rfl⟩ := Nat.exists_eq_succ_of_ne_zero (fun none => null (zeros.mpr none))
    have congruent : a ≡ b [MOD 2 ^ w - 1] :=
      (first.same.trans second.same.symm).add_right_cancel' 1
    have small := first.small
    have small' := second.small
    rw [congruent.eq_of_lt_of_lt (by omega) (by omega)]

/-- Folding a part of the terms first does not change the sum. -/
theorem Folds.early {y : Nat} (part : Folds w x r) (whole : Folds w (r + y) r') :
    Folds w (x + y) r' := by
  have zero := part.zero
  refine ⟨whole.small, whole.same.trans (part.same.add_right y), whole.zero.trans ?_⟩
  omega

/-- One's complement addition. -/
def onesAdd (w a b : Nat) : Nat := OnesComplement.endAround w (a + b)

/-- The one's complement sum, the carries brought in as they come. -/
def onesSum (w : Nat) (words : List Nat) : Nat := words.foldl (onesAdd w) 0

theorem Folds.add {a : Nat} (folds : Folds w x r) (word : a < 2 ^ w) :
    Folds w (x + a) (onesAdd w r a) := by
  have small := folds.small
  have total := (endAround_modEq w (r + a)).trans (folds.same.add_right a)
  refine ⟨?_, total, ?_⟩
  · rw [onesAdd, OnesComplement.endAround]
    by_cases carry : r + a < 2 ^ w
    · rw [Nat.mod_eq_of_lt carry, Nat.div_eq_of_lt carry]
      exact carry
    · have once : (r + a) / 2 ^ w = 1 := Nat.div_eq_of_lt_le (by omega) (by omega)
      have parts := Nat.mod_add_div (r + a) (2 ^ w)
      rw [once] at parts ⊢
      omega
  · have zero := folds.zero
    rw [onesAdd, endAround_eq_zero]
    omega

theorem onesSum_folds (words : List Nat) (small : ∀ word ∈ words, word < 2 ^ w) :
    Folds w words.sum (onesSum w words) := by
  have from' (start total : Nat) (folds : Folds w total start) :
      Folds w (total + words.sum) (words.foldl (onesAdd w) start) := by
    induction words generalizing start total with
    | nil => exact folds
    | cons word words ih =>
        rw [List.sum_cons, ← Nat.add_assoc]
        exact ih (fun x member => small x (List.mem_cons_of_mem _ member)) _ _
          (folds.add (small word List.mem_cons_self))
  have whole := from' 0 0 (Folds.of_small (Nat.two_pow_pos w))
  rwa [Nat.zero_add] at whole

/-- A term that is the complement of the others' sum makes the sum the negative zero. -/
theorem Folds.complement (folds : Folds w x r) :
    Folds w (x + (2 ^ w - 1 - r)) (2 ^ w - 1) := by
  have positive : 0 < 2 ^ w := Nat.two_pow_pos w
  have small := folds.small
  refine ⟨by omega, ?_, ?_⟩
  · have total := folds.same.symm.add_right (2 ^ w - 1 - r)
    rw [show r + (2 ^ w - 1 - r) = 2 ^ w - 1 by omega] at total
    exact total.symm
  · have zero := folds.zero
    omega

end Carry

/-- The sum of the little-endian words of `n` cells. An odd last cell counts as a low byte. -/
def wordSum (m : Mem) : Nat → Nat → Nat
  | address, n + 2 => (load16 m address).toNat + wordSum m (address + 2) n
  | address, 1 => (m address).toNat
  | _, 0 => 0

section Words

variable {m m' : Mem} {address n : Nat}

theorem wordSum_congr (same : Agree address n m m') :
    wordSum m' address n = wordSum m address n := by
  induction address, n using wordSum.induct with
  | case1 address n ih =>
      rw [wordSum, wordSum, load16_congr fun x lower upper => same x lower (by omega),
        ih fun x lower upper => same x (by omega) (by omega)]
  | case2 address =>
      rw [wordSum, wordSum, same address (Nat.le_refl _) (Nat.lt_succ_self _)]
  | case3 address => rfl

/-- The cells may be moved. -/
theorem wordSum_shift (m : Mem) (base address n : Nat) :
    wordSum (fun i => m (base + i)) address n = wordSum m (base + address) n := by
  induction address, n using wordSum.induct with
  | case1 address n ih => rw [wordSum, wordSum, ih, Nat.add_assoc]; rfl
  | case2 address => rfl
  | case3 address => rfl

theorem wordSum_le (m : Mem) (address n : Nat) :
    wordSum m address n ≤ 65535 * ((n + 1) / 2) := by
  induction address, n using wordSum.induct with
  | case1 address n ih =>
      have word := (load16 m address).toNat_lt
      rw [wordSum]
      omega
  | case2 address =>
      have byte := (m address).toNat_lt
      rw [wordSum]
      omega
  | case3 address => exact Nat.zero_le _

/-- A range is summed up in two pieces, the first of whole words. -/
theorem wordSum_split (m : Mem) (k address n : Nat) :
    wordSum m address (2 * k + n) = wordSum m address (2 * k) + wordSum m (address + 2 * k) n := by
  induction k generalizing address with
  | zero => rw [Nat.mul_zero, Nat.zero_add, wordSum.eq_def m address 0, Nat.zero_add, Nat.add_zero]
  | succ k ih =>
      have length : 2 * (k + 1) + n = 2 * k + n + 2 := by omega
      have place : address + 2 * (k + 1) = address + 2 + 2 * k := by omega
      rw [length, place, Nat.mul_succ, wordSum, wordSum, ih (address + 2)]
      exact (Nat.add_assoc _ _ _).symm

/-- A change of one word changes the sum by the difference. -/
theorem wordSum_word (k : Nat) (inside : 2 * k + 2 ≤ n)
    (same : ∀ x, address ≤ x → x < address + n →
      x < address + 2 * k ∨ address + 2 * k + 2 ≤ x → m' x = m x) :
    wordSum m' address n + (load16 m (address + 2 * k)).toNat =
      wordSum m address n + (load16 m' (address + 2 * k)).toNat := by
  induction k generalizing address n with
  | zero =>
      obtain ⟨n, rfl⟩ : ∃ rest, n = rest + 2 := ⟨n - 2, by omega⟩
      simp only [Nat.mul_zero, Nat.add_zero] at same ⊢
      rw [wordSum, wordSum, wordSum_congr fun x lower upper =>
        same x (by omega) (by omega) (Or.inr lower)]
      omega
  | succ k ih =>
      obtain ⟨n, rfl⟩ : ∃ rest, n = rest + 2 := ⟨n - 2, by omega⟩
      have place : address + 2 * (k + 1) = address + 2 + 2 * k := by omega
      rw [place] at same ⊢
      have shorter : 2 * k + 2 ≤ n := by omega
      have rest := ih shorter fun x lower upper => same x (by omega) (by omega)
      rw [wordSum, wordSum, load16_congr fun x lower upper =>
        same x lower (by omega) (Or.inl (by omega))]
      omega

/-- The words as the network has them. An odd last byte is padded on the right with zero. -/
def beWords : List UInt8 → List Nat
  | high :: low :: rest => (2 ^ 8 * high.toNat + low.toNat) :: beWords rest
  | [high] => [2 ^ 8 * high.toNat]
  | [] => []

theorem beWords_small (data : List UInt8) : ∀ word ∈ beWords data, word < 2 ^ 16 := by
  induction data using beWords.induct with
  | case1 high low rest ih =>
      have upper := high.toNat_lt
      have lower := low.toNat_lt
      intro word member
      rcases List.mem_cons.mp member with rfl | later
      · omega
      · exact ih word later
  | case2 high =>
      have upper := high.toNat_lt
      intro word member
      rw [List.mem_singleton.mp member]
      omega
  | case3 => exact fun word member => absurd member List.not_mem_nil

/-- Exchanging the bytes of every word is a multiplication by 256, but for multiples of 65535. -/
theorem beWords_sum (m : Mem) (address n : Nat) :
    ∃ whole, (beWords (bytes m address n)).sum + 65535 * whole = 2 ^ 8 * wordSum m address n := by
  induction address, n using wordSum.induct with
  | case1 address n ih =>
      obtain ⟨whole, rest⟩ := ih
      refine ⟨(m (address + 1)).toNat + whole, ?_⟩
      rw [bytes_succ, bytes_succ, beWords, List.sum_cons, wordSum, load16_toNat]
      simp only [Nat.add_assoc, Nat.reduceAdd]
      omega
  | case2 address =>
      refine ⟨0, ?_⟩
      rw [bytes_succ, wordSum]
      rfl
  | case3 address => exact ⟨0, rfl⟩

/-- Nothing but zeros adds up to zero, in either byte order. -/
theorem beWords_zero (m : Mem) (address n : Nat) :
    (beWords (bytes m address n)).sum = 0 ↔ wordSum m address n = 0 := by
  induction address, n using wordSum.induct with
  | case1 address n ih =>
      rw [bytes_succ, bytes_succ, beWords, List.sum_cons, wordSum, load16_toNat]
      simp only [Nat.add_assoc, Nat.reduceAdd]
      omega
  | case2 address =>
      rw [bytes_succ, wordSum, beWords.eq_def]
      change 2 ^ 8 * (m address).toNat + 0 = 0 ↔ _
      omega
  | case3 address => exact Iff.rfl

/-- The other byte order. -/
def swapBytes (x : Nat) : Nat := 2 ^ 8 * (x % 2 ^ 8) + x / 2 ^ 8

/-- The one's complement sum does not depend on the byte order. -/
theorem Folds.swapBytes {r : Nat} (folds : Folds 16 (wordSum m address n) r) :
    Folds 16 (beWords (bytes m address n)).sum (swapBytes r) := by
  have small := folds.small
  obtain ⟨whole, total⟩ := beWords_sum m address n
  have zero := beWords_zero m address n
  have null := folds.zero
  refine ⟨by rw [OnesComplement.swapBytes]; omega, ?_, by rw [OnesComplement.swapBytes]; omega⟩
  have scaled : 2 ^ 8 * r ≡ 2 ^ 8 * wordSum m address n [MOD 65535] := folds.same.mul_left (2 ^ 8)
  rw [← total] at scaled
  have split : OnesComplement.swapBytes r + 65535 * (r / 2 ^ 8) = 2 ^ 8 * r := by
    rw [OnesComplement.swapBytes]
    omega
  rw [← split] at scaled
  have left : (65535 * (r / 2 ^ 8)) ≡ 0 [MOD 65535] := Nat.modEq_zero_iff_dvd.mpr ⟨_, rfl⟩
  have right : (65535 * whole) ≡ 0 [MOD 65535] := Nat.modEq_zero_iff_dvd.mpr ⟨_, rfl⟩
  exact ((left.add_left _).symm.trans scaled).trans (right.add_left _)

end Words

end FrogOS.OnesComplement
