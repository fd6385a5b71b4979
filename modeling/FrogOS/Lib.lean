import Mathlib.Data.Nat.Find
import Mathlib.Order.Bounds.Basic
import FrogOS.StringOps

set_option autoImplicit false

namespace FrogOS

open ByteMemory BoundedAccess StringOps

section Memcmp

/-- `memcmp`. The `cmp` of `%ecx` with itself sets the zero flag, `setz` returns it. -/
def memcmp (s1 s2 : Block) (n : Nat) : Except Fault Int := do
  let zf ← repeCmpsb s1 s2 n 0 true
  let ret : UInt8 := if zf then 1 else 0
  return ret.toNat

/-- What `string.h` declares: zero for equal buffers, and otherwise the sign of the first
difference. -/
structure Compares (s1 s2 : Mem) (n : Nat) (result : Int) : Prop where
  equal : result = 0 ↔ ∀ i, i < n → s1 i = s2 i
  sign : ∀ i, i < n → (∀ j, j < i → s1 j = s2 j) → s1 i ≠ s2 i →
    result.sign = ((s1 i).toNat - (s2 i).toNat : Int).sign

variable {s1 s2 : Mem} {n : Nat}

/-- Any two buffers have a result that compares them. -/
theorem compares_exists (s1 s2 : Mem) (n : Nat) : ∃ result, Compares s1 s2 n result := by
  by_cases differ : ∃ i, i < n ∧ s1 i ≠ s2 i
  · obtain ⟨inside, unequal⟩ := Nat.find_spec differ
    have before : ∀ j, j < Nat.find differ → s1 j = s2 j := by
      intro j earlier
      have same := Nat.find_min differ earlier
      simpa [Nat.lt_trans earlier inside] using same
    refine ⟨(s1 (Nat.find differ)).toNat - (s2 (Nat.find differ)).toNat, ?_, ?_⟩
    · have values : (s1 (Nat.find differ)).toNat ≠ (s2 (Nat.find differ)).toNat :=
        fun same => unequal (UInt8.toNat_inj.mp same)
      constructor
      · intro zero
        omega
      · intro all
        exact absurd (all _ inside) unequal
    · intro i within same here
      have first : i = Nat.find differ := by
        rcases Nat.lt_trichotomy i (Nat.find differ) with less | equal | greater
        · exact absurd (before i less) here
        · exact equal
        · exact absurd (same _ greater) unequal
      rw [first]
  · have equal : ∀ i, i < n → s1 i = s2 i := by
      intro i inside
      apply Decidable.byContradiction
      intro unequal
      exact differ ⟨i, inside, unequal⟩
    refine ⟨0, ⟨fun _ => equal, fun _ => rfl⟩, ?_⟩
    intro i inside _ unequal
    exact absurd (equal i inside) unequal

/-- One for equal buffers, zero for any others. -/
theorem memcmp_value (s1 s2 : Mem) (n : Nat) :
    memcmp ⟨n, s1⟩ ⟨n, s2⟩ n = .ok (if ∀ i, i < n → s1 i = s2 i then 1 else 0) := by
  have inside (m : Mem) : 0 + n ≤ (Block.mk n m).size := Nat.le_of_eq (Nat.zero_add n)
  have flag := repeCmpsb_ok (inside s1) (inside s2)
  simp only [Nat.zero_add] at flag
  rw [memcmp, flag, ok_bind]
  by_cases equal : ∀ i, i < n → s1 i = s2 i
  · rw [decide_eq_true equal, if_pos equal]
    rfl
  · rw [decide_eq_false equal, if_neg equal]
    rfl

/-- `memcmp` takes equal buffers for different ones and different buffers for equal ones. -/
theorem memcmp_never_compares (s1 s2 : Mem) (n : Nat) :
    ∃ result, memcmp ⟨n, s1⟩ ⟨n, s2⟩ n = .ok result ∧ ¬ Compares s1 s2 n result := by
  refine ⟨_, memcmp_value s1 s2 n, ?_⟩
  intro compares
  by_cases equal : ∀ i, i < n → s1 i = s2 i
  · have zero := compares.equal.mpr equal
    rw [if_pos equal] at zero
    exact absurd zero (by decide)
  · exact equal (compares.equal.mp (if_neg equal))

/-- Two equal buffers of one byte. -/
theorem equal_bytes_not_compared :
    ¬ ∃ result, memcmp ⟨1, ofList [7]⟩ ⟨1, ofList [7]⟩ 1 = .ok result ∧
      Compares (ofList [7]) (ofList [7]) 1 result := by
  intro claimed
  obtain ⟨result, computed, compares⟩ := claimed
  have zero : result = 0 := compares.equal.mpr fun _ _ => rfl
  rw [zero, memcmp_value, if_pos fun _ _ => rfl] at computed
  exact absurd (Except.ok.inj computed) (by decide)

end Memcmp

section Usleep

/-- The values of `pit_counter` that `usleep` reads: on entry and at each wake-up from `hlt`.
`pit_handler` only counts up, and any number of ticks may pass during one `hlt`. -/
structure Wakeups where
  counter : Nat → UInt64
  rising : ∀ k, counter k ≤ counter (k + 1)

/-- The loop of `usleep`, for so many rounds at most: the wake-up after which it returns. -/
def usleepLoop (pit : Nat → UInt64) : Nat → Nat → Int64 → UInt64 → Option Nat
  | 0, _, _, _ => none
  | fuel + 1, wakeup, rem, oldcounter =>
      if 0 < rem then
        let counter := pit (wakeup + 1)
        -- `rem` is signed and the product unsigned: the subtraction wraps.
        let rem := (rem.toUInt64 - (counter - oldcounter) * 10).toInt64
        usleepLoop pit fuel (wakeup + 1) rem counter
      else some wakeup

def usleep (pit : Nat → UInt64) (fuel : Nat) (useconds : UInt32) : Option Nat :=
  usleepLoop pit fuel 0 useconds.toUInt64.toInt64 (pit 0)

/-- `usleep` returns after its `n`-th wake-up, `0` being its entry. -/
def ReturnsAt (pit : Nat → UInt64) (useconds : UInt32) (n : Nat) : Prop :=
  ∃ fuel, usleep pit fuel useconds = some n

/-- The ticks between the entry and a wake-up. -/
def Wakeups.elapsed (w : Wakeups) (k : Nat) : Nat := (w.counter k).toNat - (w.counter 0).toNat

/-- A tick in microseconds. -/
def tickMicros : Nat := 10000

/-- `set_pit` divides the 1193182 Hz of the timer by `0x2e9c`. -/
example : 0x2e9c * 1000000 / 1193182 = tickMicros := by decide

/-- The wake-ups at which the time asked for is over. -/
def Wakeups.Due (w : Wakeups) (useconds : UInt32) : Set Nat :=
  {k | useconds.toNat ≤ tickMicros * w.elapsed k}

/-- `usleep` returns at the first wake-up at which the time is over and at no other. -/
def KeepsUnit (w : Wakeups) (useconds : UInt32) : Prop :=
  ∀ n, ReturnsAt w.counter useconds n ↔ IsLeast (w.Due useconds) n

/-- What `usleep` still has to wait at a wake-up, as the bits of its `rem`. -/
def remaining (pit : Nat → UInt64) (useconds : UInt32) (k : Nat) : UInt64 :=
  useconds.toUInt64 - (pit k - pit 0) * 10

def Stopped (pit : Nat → UInt64) (useconds : UInt32) : Set Nat :=
  {k | ¬ 0 < (remaining pit useconds k).toInt64}

variable {pit : Nat → UInt64} {useconds : UInt32} {n k : Nat}

/-- The differences of the rounds add up to the difference from the entry. -/
theorem remaining_succ (pit : Nat → UInt64) (useconds : UInt32) (k : Nat) :
    remaining pit useconds k - (pit (k + 1) - pit k) * 10 = remaining pit useconds (k + 1) := by
  unfold remaining
  grind

theorem usleepLoop_some (fuel : Nat) :
    usleepLoop pit fuel k (remaining pit useconds k).toInt64 (pit k) = some n ↔
      n < k + fuel ∧ IsLeast {j | k ≤ j ∧ j ∈ Stopped pit useconds} n := by
  induction fuel generalizing k with
  | zero =>
      constructor
      · exact nofun
      · rintro ⟨upper, ⟨lower, -⟩, -⟩
        exact absurd lower (Nat.not_le.mpr upper)
  | succ fuel ih =>
      rw [usleepLoop]
      by_cases waits : 0 < (remaining pit useconds k).toInt64
      · -- No stop here: the first stop from `k` on is the first one from `k + 1` on.
        have skips : {j | k ≤ j ∧ j ∈ Stopped pit useconds} =
            {j | k + 1 ≤ j ∧ j ∈ Stopped pit useconds} := by
          ext j
          constructor
          · rintro ⟨lower, stops⟩
            have other : j ≠ k := by
              rintro rfl
              exact stops waits
            exact ⟨by omega, stops⟩
          · rintro ⟨lower, stops⟩
            exact ⟨by omega, stops⟩
        rw [if_pos waits, skips]
        simp only [UInt64.toUInt64_toInt64]
        rw [remaining_succ, ih]
        have bound : k + 1 + fuel = k + (fuel + 1) := by omega
        rw [bound]
      · rw [if_neg waits]
        have least : IsLeast {j | k ≤ j ∧ j ∈ Stopped pit useconds} k :=
          ⟨⟨Nat.le_refl k, waits⟩, fun j later => later.1⟩
        constructor
        · intro here
          rw [← Option.some.inj here]
          exact ⟨by omega, least⟩
        · rintro ⟨-, first⟩
          rw [least.unique first]

theorem returnsAt_iff : ReturnsAt pit useconds n ↔ IsLeast (Stopped pit useconds) n := by
  have entry : useconds.toUInt64 = remaining pit useconds 0 := by
    unfold remaining
    grind
  have all : {j | 0 ≤ j ∧ j ∈ Stopped pit useconds} = Stopped pit useconds := by
    ext j
    exact and_iff_right (Nat.zero_le j)
  have loop (fuel : Nat) : usleep pit fuel useconds = some n ↔
      n < 0 + fuel ∧ IsLeast (Stopped pit useconds) n := by
    rw [usleep, entry, usleepLoop_some, all]
  constructor
  · rintro ⟨fuel, returns⟩
    exact ((loop fuel).mp returns).2
  · intro first
    exact ⟨n + 1, (loop (n + 1)).mpr ⟨by omega, first⟩⟩

/-- A signed 64-bit number above zero. -/
theorem toInt64_pos (x : UInt64) : 0 < x.toInt64 ↔ 0 < x.toNat ∧ x.toNat < 2 ^ 63 := by
  have bound := x.toNat_lt
  have value : x.toInt64.toInt = x.toBitVec.toInt := rfl
  have bits : x.toBitVec.toNat = x.toNat := rfl
  rw [Int64.lt_iff_toInt_lt, value, BitVec.toInt_eq_toNat_cond, bits]
  change (0 : Int) < _ ↔ _
  split <;> omega

section Ticks

variable (w : Wakeups)

theorem Wakeups.counter_le (k : Nat) : (w.counter 0).toNat ≤ (w.counter k).toNat := by
  induction k with
  | zero => exact Nat.le_refl _
  | succ k ih => exact Nat.le_trans ih (UInt64.le_iff_toNat_le.mp (w.rising k))

/-- The subtrahend in the code has the factor 10. -/
theorem remaining_toNat (useconds : UInt32) (k : Nat) :
    (remaining w.counter useconds k).toNat =
      (2 ^ 64 - 10 * w.elapsed k % 2 ^ 64 + useconds.toNat) % 2 ^ 64 := by
  have rises := w.counter_le k
  have difference : (w.counter k - w.counter 0).toNat = w.elapsed k :=
    UInt64.toNat_sub_of_le _ _ (UInt64.le_iff_toNat_le.mpr rises)
  rw [remaining, UInt64.toNat_sub, UInt64.toNat_mul, difference, UInt32.toNat_toUInt64,
    show (10 : UInt64).toNat = 10 from rfl, Nat.mul_comm (w.elapsed k)]

/-- Nothing is left if ten times the ticks reach what was asked for, up to where the signed
remainder wraps. -/
theorem mem_stopped (useconds : UInt32) (k : Nat) :
    k ∈ Stopped w.counter useconds ↔
      (10 * w.elapsed k + 2 ^ 64 - useconds.toNat) % 2 ^ 64 ≤ 2 ^ 63 := by
  have bound := useconds.toNat_lt
  change ¬ 0 < (remaining w.counter useconds k).toInt64 ↔ _
  rw [toInt64_pos, remaining_toNat]
  omega

/-- `usleep` never returns before the time is over: it takes a tick for 10 microseconds. -/
theorem stopped_due (useconds : UInt32) (k : Nat) (stops : k ∈ Stopped w.counter useconds) :
    k ∈ w.Due useconds := by
  have bound := useconds.toNat_lt
  rw [mem_stopped] at stops
  change useconds.toNat ≤ 10000 * w.elapsed k
  apply Nat.le_of_not_lt
  intro early
  have inside : 10 * w.elapsed k + 2 ^ 64 - useconds.toNat < 2 ^ 64 := by omega
  rw [Nat.mod_eq_of_lt inside] at stops
  omega

end Ticks

/-- `usleep` keeps its unit if and only if ten times the ticks up to the first wake-up at which
the time is over reach it as well, without the remainder wrapping. -/
theorem usleep_keeps_unit_iff (w : Wakeups) (useconds : UInt32) :
    KeepsUnit w useconds ↔ ∀ n, IsLeast (w.Due useconds) n →
      (10 * w.elapsed n + 2 ^ 64 - useconds.toNat) % 2 ^ 64 ≤ 2 ^ 63 := by
  constructor
  · intro keeps n first
    have returns := returnsAt_iff.mp ((keeps n).mpr first)
    exact (mem_stopped w useconds n).mp returns.1
  · intro reached n
    rw [returnsAt_iff]
    constructor
    · intro returns
      have due : n ∈ w.Due useconds := stopped_due w useconds n returns.1
      -- The first due wake-up is a stop too, so it is not before the first stop.
      classical
      have some : ∃ k, k ∈ w.Due useconds := ⟨n, due⟩
      have first : IsLeast (w.Due useconds) (Nat.find some) :=
        ⟨Nat.find_spec some, fun k member => Nat.find_min' some member⟩
      have stops := (mem_stopped w useconds _).mpr (reached _ first)
      rwa [Nat.le_antisymm (first.2 due) (returns.2 stops)] at first
    · intro first
      refine ⟨(mem_stopped w useconds n).mpr (reached n first), ?_⟩
      intro k stops
      exact first.2 (stopped_due w useconds k stops)

/-- A tick for each of the first thousand wake-ups. -/
def thousandTicks : Wakeups where
  counter k := UInt64.ofNat (min k 1000)
  rising k := by
    rw [UInt64.le_iff_toNat_le, UInt64.toNat_ofNat', UInt64.toNat_ofNat']
    omega

/-- Ten milliseconds are over with the first tick, at which `usleep` goes on. -/
theorem ten_milliseconds_not_kept : ¬ KeepsUnit thousandTicks 10000 := by
  intro keeps
  have first : IsLeast (thousandTicks.Due 10000) 1 := by
    refine ⟨by change 10000 ≤ 10000 * 1; decide, ?_⟩
    intro k due
    cases k with
    | zero => exact absurd (show 10000 ≤ 10000 * 0 from due) (by decide)
    | succ k => exact Nat.succ_le_succ (Nat.zero_le k)
  have returns := returnsAt_iff.mp ((keeps 1).mpr first)
  exact absurd ((mem_stopped thousandTicks 10000 1).mp returns.1) (by decide)

end Usleep

end FrogOS
