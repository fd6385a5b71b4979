import Mathlib

set_option autoImplicit false

namespace FrogOS.ShiftRegister

section Step

variable {w : Nat} (poly : BitVec w)

/-- One step: the lowest bit leaves the register, and if it was set the feedback comes in. -/
def step (s : BitVec w) : BitVec w := if s.getLsbD 0 then (s >>> 1) ^^^ poly else s >>> 1

def steps (n : Nat) : BitVec w → BitVec w := (step poly)^[n]

variable {poly}

theorem step_even {s : BitVec w} (even : s.getLsbD 0 = false) : step poly s = s >>> 1 := by
  rw [step, even, if_neg Bool.false_ne_true]

/-- Steps distribute over exclusive or. -/
theorem step_xor (s t : BitVec w) : step poly (s ^^^ t) = step poly s ^^^ step poly t := by
  simp only [step, BitVec.getLsbD_xor, BitVec.ushiftRight_xor_distrib]
  cases s.getLsbD 0 <;> cases t.getLsbD 0
  · rfl
  · exact BitVec.xor_assoc _ _ _
  · simp only [Bool.xor_false, ↓reduceIte, Bool.false_eq_true, BitVec.xor_assoc,
      BitVec.xor_comm poly]
  · have cancel : s >>> 1 ^^^ poly ^^^ (t >>> 1 ^^^ poly) = s >>> 1 ^^^ t >>> 1 := by
      rw [BitVec.xor_comm (t >>> 1), BitVec.xor_assoc, ← BitVec.xor_assoc poly, BitVec.xor_self,
        BitVec.zero_xor]
    simp only [bne_self_eq_false, Bool.false_eq_true, ↓reduceIte, cancel]

@[simp] theorem step_zero : step poly 0#w = 0#w := by
  rw [step_even (by simp), BitVec.zero_ushiftRight]

@[simp] theorem steps_zero_count (s : BitVec w) : steps poly 0 s = s := rfl

theorem steps_succ (n : Nat) (s : BitVec w) : steps poly (n + 1) s = steps poly n (step poly s) :=
  Function.iterate_succ_apply _ _ _

theorem steps_succ' (n : Nat) (s : BitVec w) : steps poly (n + 1) s = step poly (steps poly n s) :=
  Function.iterate_succ_apply' _ _ _

theorem steps_add (n k : Nat) (s : BitVec w) :
    steps poly (n + k) s = steps poly n (steps poly k s) :=
  Function.iterate_add_apply _ _ _ _

theorem steps_comm (n k : Nat) (s : BitVec w) :
    steps poly n (steps poly k s) = steps poly k (steps poly n s) := by
  rw [← steps_add, Nat.add_comm, steps_add]

theorem steps_xor (n : Nat) (s t : BitVec w) :
    steps poly n (s ^^^ t) = steps poly n s ^^^ steps poly n t := by
  induction n generalizing s t with
  | zero => rfl
  | succ n ih => rw [steps_succ, step_xor, ih, steps_succ, steps_succ]

@[simp] theorem steps_zero (n : Nat) : steps poly n 0#w = 0#w := by
  induction n with
  | zero => rfl
  | succ n ih => rw [steps_succ, step_zero, ih]

/-- What was shifted up is shifted down again. -/
theorem step_shift {s : BitVec w} (room : s.msb = false) : step poly (s <<< 1) = s := by
  rw [step_even (by simp)]
  apply BitVec.eq_of_getLsbD_eq
  intro i inside
  simp only [BitVec.getLsbD_ushiftRight, BitVec.getLsbD_shiftLeft]
  by_cases top : 1 + i < w
  · simp [top]
  · have last : i = w - 1 := by omega
    rw [BitVec.msb_eq_getLsbD_last, ← last] at room
    simp [top, room]

/-- With feedback into the highest bit no two states step into one. -/
theorem step_injective (top : poly.msb) : Function.Injective (step poly) := by
  have kernel : ∀ s : BitVec w, step poly s = 0#w → s = 0#w := by
    intro s zero
    have even : s.getLsbD 0 = false := by
      by_contra odd
      rw [Bool.not_eq_false] at odd
      rw [step, odd, if_pos rfl] at zero
      have highest := congrArg BitVec.msb zero
      rw [BitVec.msb_xor, top] at highest
      simp at highest
    rw [step_even even] at zero
    apply BitVec.eq_of_getLsbD_eq
    intro i _
    cases i with
    | zero => simpa using even
    | succ i =>
        have bit := congrArg (fun v => v.getLsbD i) zero
        simpa [Nat.add_comm] using bit
  intro s t same
  have zero : step poly (s ^^^ t) = 0#w := by rw [step_xor, same, BitVec.xor_self]
  exact BitVec.xor_eq_zero_iff.mp (kernel _ zero)

theorem steps_injective (top : poly.msb) (n : Nat) : Function.Injective (steps poly n) :=
  (step_injective top).iterate n

/-- A word moves down to the lowest places if there are zeros to leave first. -/
theorem steps_shift {k : Nat} (s : BitVec w) {n : Nat} (enough : n ≤ k) :
    steps poly n ((s >>> k) <<< n) = s >>> k := by
  induction n with
  | zero => exact BitVec.shiftLeft_zero _
  | succ n ih =>
      have room : ((s >>> k) <<< n).msb = false := by
        rw [BitVec.msb_eq_getLsbD_last, BitVec.getLsbD_shiftLeft, BitVec.getLsbD_ushiftRight,
          BitVec.getLsbD_of_ge s]
        · exact Bool.and_false _
        · omega
      rw [steps_succ, BitVec.shiftLeft_add, step_shift room, ih (Nat.le_of_succ_le enough)]

theorem steps_eq_zero (top : poly.msb) {n : Nat} {s : BitVec w} (zero : steps poly n s = 0#w) :
    s = 0#w := by
  apply steps_injective top n
  rw [zero, steps_zero]

end Step

section Feed

variable {w : Nat} (poly : BitVec w)

/-- A bit at the lowest place. -/
def bit (w : Nat) (b : Bool) : BitVec w := if b then 1#w else 0#w

/-- The bits go in at the lowest place, one before each step. -/
def feed (s : BitVec w) (bits : List Bool) : BitVec w :=
  bits.foldl (fun s b => step poly (s ^^^ bit w b)) s

/-- Bits side by side, the first one lowest. -/
def word (w : Nat) : List Bool → BitVec w
  | [] => 0#w
  | b :: bits => word w bits <<< 1 ^^^ bit w b

variable {poly}

@[simp] theorem feed_nil (s : BitVec w) : feed poly s [] = s := rfl

@[simp] theorem feed_cons (s : BitVec w) (b : Bool) (bits : List Bool) :
    feed poly s (b :: bits) = feed poly (step poly (s ^^^ bit w b)) bits := rfl

theorem feed_append (s : BitVec w) (first second : List Bool) :
    feed poly s (first ++ second) = feed poly (feed poly s first) second :=
  List.foldl_append

theorem bit_xor (a b : Bool) : bit w (a ^^ b) = bit w a ^^^ bit w b := by
  cases a <;> cases b <;> simp [bit]

/-- Feeding distributes over exclusive or. -/
theorem feed_xor {first second : List Bool} (same : first.length = second.length)
    (s t : BitVec w) :
    feed poly (s ^^^ t) (List.zipWith (· ^^ ·) first second) =
      feed poly s first ^^^ feed poly t second := by
  induction first generalizing second s t with
  | nil =>
      cases second with
      | nil => rfl
      | cons b second => cases same
  | cons a first ih =>
      cases second with
      | nil => cases same
      | cons b second =>
          have regroup : s ^^^ t ^^^ (bit w a ^^^ bit w b) =
              (s ^^^ bit w a) ^^^ (t ^^^ bit w b) := by
            rw [BitVec.xor_assoc, BitVec.xor_assoc, ← BitVec.xor_assoc t, BitVec.xor_comm t,
              BitVec.xor_assoc (bit w a)]
          rw [List.zipWith_cons_cons, feed_cons, bit_xor, regroup, step_xor,
            ih (Nat.succ.inj same), feed_cons, feed_cons]

theorem feed_zeros (s : BitVec w) (n : Nat) :
    feed poly s (List.replicate n false) = steps poly n s := by
  induction n generalizing s with
  | zero => rfl
  | succ n ih =>
      rw [List.replicate_succ, feed_cons, ih, steps_succ, bit, if_neg Bool.false_ne_true,
        BitVec.xor_zero]

theorem word_getLsbD (bits : List Bool) (i : Nat) :
    (word w bits).getLsbD i = (decide (i < w) && bits.getD i false) := by
  induction bits generalizing i with
  | nil => simp [word]
  | cons b bits ih =>
      rw [word, BitVec.getLsbD_xor, BitVec.getLsbD_shiftLeft, ih]
      cases i with
      | zero => cases b <;> simp [bit]
      | succ i =>
          have lowest : (bit w b).getLsbD (i + 1) = false := by cases b <;> simp [bit]
          rw [lowest]
          by_cases inside : i + 1 < w
          · have before : i < w := by omega
            simp [inside, before]
          · simp [inside]

/-- What went in along the way could have been there at the start, as long as the register holds
it. -/
theorem feed_word {bits : List Bool} (fits : bits.length ≤ w) (s : BitVec w) :
    feed poly s bits = steps poly bits.length (s ^^^ word w bits) := by
  induction bits generalizing s with
  | nil => exact (BitVec.xor_zero).symm
  | cons b bits ih =>
      rw [List.length_cons] at fits ⊢
      have room : (word w bits).msb = false := by
        rw [BitVec.msb_eq_getLsbD_last, word_getLsbD, List.getD_eq_getElem?_getD,
          List.getElem?_eq_none (by omega), Option.getD_none, Bool.and_false]
      have regroup : s ^^^ (word w bits <<< 1 ^^^ bit w b) = (s ^^^ bit w b) ^^^ word w bits <<< 1 := by
        rw [BitVec.xor_comm (word w bits <<< 1), BitVec.xor_assoc]
      rw [feed_cons, ih (by omega), word, regroup, steps_succ,
        step_xor (s ^^^ bit w b) (word w bits <<< 1), step_shift room]

theorem word_eq_zero {bits : List Bool} (fits : bits.length ≤ w) (zero : word w bits = 0#w) :
    ∀ b ∈ bits, b = false := by
  intro b member
  obtain ⟨i, inside, same⟩ := List.getElem_of_mem member
  have place := word_getLsbD (w := w) bits i
  rw [zero, BitVec.getLsbD_zero, decide_eq_true (by omega), Bool.true_and,
    List.getD_eq_getElem?_getD, List.getElem?_eq_getElem inside, Option.getD_some, same] at place
  exact place.symm

/-- Bits that are false but for a window. -/
theorem window_split {bits : List Bool} {front width : Nat}
    (inside : ∀ i, bits[i]? = some true → front ≤ i ∧ i < front + width) :
    ∃ burst before behind, burst.length ≤ width ∧ (true ∈ bits → true ∈ burst) ∧
      bits = List.replicate before false ++ (burst ++ List.replicate behind false) := by
  have falses (part : List Bool) (none : true ∉ part) :
      part = List.replicate part.length false := by
    apply List.eq_replicate_of_mem
    intro b member
    cases b with
    | false => rfl
    | true => exact absurd member none
  have before : true ∉ bits.take front := by
    intro member
    obtain ⟨i, found⟩ := List.mem_iff_getElem?.mp member
    rw [List.getElem?_take] at found
    split at found
    · exact absurd (inside i found).1 (by omega)
    · cases found
  have behind : true ∉ bits.drop (front + width) := by
    intro member
    obtain ⟨i, found⟩ := List.mem_iff_getElem?.mp member
    rw [List.getElem?_drop] at found
    exact absurd (inside _ found).2 (by omega)
  refine ⟨(bits.drop front).take width, (bits.take front).length,
    (bits.drop (front + width)).length, ?_, ?_, ?_⟩
  · rw [List.length_take]
    exact Nat.min_le_left _ _
  · intro member
    rw [← List.take_append_drop front bits, List.mem_append] at member
    have later := member.resolve_left before
    rw [← List.take_append_drop width (bits.drop front), List.mem_append, List.drop_drop] at later
    exact later.resolve_right behind
  · rw [← falses _ before, ← falses _ behind, ← List.drop_drop, List.take_append_drop,
      List.take_append_drop]

/-- Bits that are false but for two. -/
theorem pair_split {bits : List Bool} {i j : Nat} (order : i < j) (inside : j < bits.length)
    (only : ∀ k, bits[k]? = some true ↔ k = i ∨ k = j) :
    bits = List.replicate i false ++ (true :: (List.replicate (j - i - 1) false ++
      (true :: List.replicate (bits.length - j - 1) false))) := by
  have value (k : Nat) (below : k < bits.length) : bits[k]? = some (decide (k = i ∨ k = j)) := by
    have same := only k
    rw [List.getElem?_eq_getElem below] at same ⊢
    cases found : bits[k] with
    | true => simp [found] at same; simp [same]
    | false => simp [found] at same; simp [same]
  apply List.ext_getElem?
  intro k
  by_cases below : k < bits.length
  · rw [value k below]
    simp only [List.getElem?_append, List.length_replicate, List.getElem?_replicate,
      List.getElem?_cons]
    split_ifs <;> first
      | omega
      | (simp only [Option.some.injEq, decide_eq_false_iff_not, decide_eq_true_eq]; omega)
  · rw [List.getElem?_eq_none (Nat.le_of_not_lt below), List.getElem?_eq_none]
    simp only [List.length_append, List.length_replicate, List.length_cons]
    omega

/-- Bits that the register holds do not leave it zero, and nothing behind them makes it zero. -/
theorem feed_burst (top : poly.msb) {burst : List Bool} (fits : burst.length ≤ w)
    (some : true ∈ burst) (front behind : Nat) :
    feed poly 0#w (List.replicate front false ++ (burst ++ List.replicate behind false)) ≠ 0#w := by
  intro zero
  rw [feed_append, feed_append, feed_zeros, feed_zeros, steps_zero, feed_word fits,
    BitVec.zero_xor] at zero
  have none := word_eq_zero fits (steps_eq_zero top (steps_eq_zero top zero))
  exact absurd (none true some) (by decide)

/-- Two bits cancel if the steps between them lead from the lowest bit to itself. -/
theorem feed_pair (top : poly.msb) (front between behind : Nat) :
    feed poly 0#w (List.replicate front false ++ (true :: (List.replicate between false ++
        (true :: List.replicate behind false)))) = 0#w ↔
      steps poly (between + 1) 1#w = 1#w := by
  have one : bit w true = 1#w := rfl
  rw [feed_append, feed_zeros, steps_zero, feed_cons, feed_append, feed_zeros, feed_cons,
    feed_zeros, one, BitVec.zero_xor, ← steps_succ, ← steps_succ]
  constructor
  · intro zero
    exact BitVec.xor_eq_zero_iff.mp (steps_eq_zero top zero)
  · intro same
    rw [same, BitVec.xor_self, steps_zero]

end Feed

section Period

variable {w : Nat} (poly : BitVec w)

/-- The sum of the states that the bits of `a`, the highest first, select among `b` and what it
steps to. -/
def mulLoop : Nat → BitVec w → BitVec w → BitVec w
  | 0, _, _ => 0#w
  | k + 1, a, b => (if a.msb then b else 0#w) ^^^ mulLoop k (a <<< 1) (step poly b)

def mul (a b : BitVec w) : BitVec w := mulLoop poly w a b

/-- The highest bit. -/
def topBit (w : Nat) : BitVec w := 1#w <<< (w - 1)

/-- As many steps from the highest bit, found by squaring. -/
def power : Nat → Nat → BitVec w
  | 0, _ => topBit w
  | k + 1, n =>
      let half := power k (n / 2)
      if n % 2 = 1 then step poly (mul poly half half) else mul poly half half

variable {poly}

theorem mulLoop_step (k : Nat) (a b : BitVec w) :
    mulLoop poly k a (step poly b) = step poly (mulLoop poly k a b) := by
  induction k generalizing a b with
  | zero => exact step_zero.symm
  | succ k ih =>
      rw [mulLoop, mulLoop, ih, step_xor]
      cases a.msb <;> simp

theorem mulLoop_steps (k : Nat) (a b : BitVec w) (n : Nat) :
    mulLoop poly k a (steps poly n b) = steps poly n (mulLoop poly k a b) := by
  induction n generalizing b with
  | zero => rfl
  | succ n ih => rw [steps_succ, ih, mulLoop_step, ← steps_succ]

/-- A single bit moves down without feedback until it is lowest. -/
theorem step_single {k : Nat} (inside : k + 1 < w) : step poly (1#w <<< (k + 1)) = 1#w <<< k := by
  rw [BitVec.shiftLeft_add]
  apply step_shift
  rw [BitVec.msb_eq_getLsbD_last, BitVec.getLsbD_shiftLeft, BitVec.getLsbD_one]
  have below : ¬ (w - 1 - k = 0) := by omega
  simp [below]

theorem steps_single {k : Nat} (inside : k < w) : steps poly k (1#w <<< k) = 1#w := by
  induction k with
  | zero => exact BitVec.shiftLeft_zero _
  | succ k ih => rw [steps_succ, step_single inside, ih (Nat.lt_of_succ_lt inside)]

/-- The highest bit and the bits below it. -/
theorem shift_msb {k : Nat} (inside : k < w) (a : BitVec w) :
    (if a.msb then 1#w <<< k else 0#w) ^^^ (a <<< 1) >>> (w - k) = a >>> (w - (k + 1)) := by
  apply BitVec.eq_of_getLsbD_eq
  intro i bound
  have single : (if a.msb then 1#w <<< k else 0#w).getLsbD i = (a.msb && decide (i = k)) := by
    cases a.msb with
    | false => simp
    | true =>
        simp only [↓reduceIte, BitVec.getLsbD_shiftLeft, BitVec.getLsbD_one, Bool.true_and]
        rw [Bool.eq_iff_iff]
        simp
        omega
  rw [BitVec.getLsbD_xor, single, BitVec.getLsbD_ushiftRight, BitVec.getLsbD_shiftLeft,
    BitVec.getLsbD_ushiftRight]
  by_cases below : i < k
  · have place : w - k + i - 1 = w - (k + 1) + i := by omega
    have first : w - k + i < w := by omega
    have second : ¬ w - k + i < 1 := by omega
    rw [place]
    simp [first, second, Nat.ne_of_lt below]
  · have out : ¬ w - k + i < w := by omega
    by_cases here : i = k
    · have place : w - (k + 1) + i = w - 1 := by omega
      rw [place, BitVec.msb_eq_getLsbD_last]
      rw [here] at out ⊢
      simp [out]
    · have beyond : w ≤ w - (k + 1) + i := by omega
      rw [BitVec.getLsbD_of_ge a _ beyond]
      simp [out, here]

theorem mulLoop_single {k : Nat} (inside : k < w) (a : BitVec w) :
    mulLoop poly (k + 1) a (1#w <<< k) = a >>> (w - (k + 1)) := by
  induction k generalizing a with
  | zero =>
      rw [← shift_msb inside, Nat.sub_zero, BitVec.ushiftRight_eq_zero (le_refl w)]
      rfl
  | succ k ih =>
      rw [mulLoop, step_single inside, ih (Nat.lt_of_succ_lt inside), shift_msb inside]

/-- The highest bit is neutral. -/
theorem mul_top (a : BitVec w) : mul poly a (topBit w) = a := by
  cases w with
  | zero => exact Subsingleton.elim _ _
  | succ w =>
      have single : mulLoop poly (w + 1) a (1#(w + 1) <<< w) = _ :=
        mulLoop_single (Nat.lt_succ_self w) a
      rw [Nat.sub_self, BitVec.ushiftRight_zero] at single
      exact single

/-- Squaring finds what the steps lead to. -/
theorem power_eq {k n : Nat} (small : n < 2 ^ k) :
    power poly k n = steps poly n (topBit w) := by
  induction k generalizing n with
  | zero =>
      rw [Nat.lt_one_iff.mp small]
      rfl
  | succ k ih =>
      have half := ih (n := n / 2) (by omega)
      have square : mul poly (power poly k (n / 2)) (power poly k (n / 2)) =
          steps poly (n / 2 + n / 2) (topBit w) := by
        rw [mul, half, mulLoop_steps, ← mul, mul_top, ← steps_add]
      rw [power]
      simp only [square]
      split
      · rw [← steps_succ']
        congr 1
        omega
      · congr 1
        omega

/-- A return after `n` steps that is none after `n` less any prime factor is the first one. -/
theorem period_eq {s : BitVec w} {n : Nat} (returns : steps poly n s = s)
    (sooner : ∀ q, q.Prime → q ∣ n → steps poly (n / q) s ≠ s) (k : Nat) :
    steps poly k s = s ↔ n ∣ k := by
  have first (k : Nat) : steps poly k s = s ↔ Function.minimalPeriod (step poly) s ∣ k :=
    Function.isPeriodicPt_iff_minimalPeriod_dvd
  have whole : Function.minimalPeriod (step poly) s = n := by
    obtain ⟨a, same⟩ := (first n).mp returns
    by_contra shorter
    have more : a ≠ 1 := by
      rintro rfl
      exact shorter (by rw [same, Nat.mul_one])
    obtain ⟨b, factor⟩ := a.minFac_dvd
    have prime := Nat.minFac_prime more
    have divides : a.minFac ∣ n := same ▸ Dvd.dvd.mul_left a.minFac_dvd _
    refine sooner a.minFac prime divides ((first _).mpr ⟨b, ?_⟩)
    apply Nat.div_eq_of_eq_mul_right prime.pos
    conv_lhs => rw [same, factor]
    exact Nat.mul_left_comm _ _ _
  rw [first, whole]

end Period

end FrogOS.ShiftRegister
