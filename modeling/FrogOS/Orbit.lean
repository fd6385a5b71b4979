import Mathlib.Data.Fintype.EquivFin
import Mathlib.Data.Int.GCD
import Mathlib.Data.Nat.ModEq
import Mathlib.Logic.Function.Iterate

set_option autoImplicit false

namespace FrogOS.Orbit

section Walk

variable {α : Type} (f : α → α) (stop : α → Prop) (start : α)

/-- The first `n` steps and the place they lead to are still in front of the end. -/
def Walking (n : Nat) : Prop := ∀ k ≤ n, ¬ stop (f^[k] start)

/-- As long as it runs, the walk never comes back to a place. -/
def NoReturn : Prop := ∀ i j, i < j → Walking f stop start j → f^[i] start ≠ f^[j] start

variable {f stop start}

theorem Walking.mono {m n : Nat} (walking : Walking f stop start n) (le : m ≤ n) :
    Walking f stop start m :=
  fun k below => walking k (Nat.le_trans below le)

theorem Walking.head {n : Nat} (walking : Walking f stop start n) : ¬ stop start :=
  walking 0 (Nat.zero_le n)

theorem walking_succ {n : Nat} :
    Walking f stop start (n + 1) ↔ ¬ stop start ∧ Walking f stop (f start) n := by
  constructor
  · exact fun walking => ⟨walking.head, fun k below => walking (k + 1) (Nat.succ_le_succ below)⟩
  · rintro ⟨first, rest⟩ k below
    cases k with
    | zero => exact first
    | succ k => exact rest k (Nat.le_of_succ_le_succ below)

/-- Among finitely many places exactly the walks that never come back to one end. -/
theorem ends_iff_noReturn [Finite α] : (∃ n, stop (f^[n] start)) ↔ NoReturn f stop start := by
  classical
  constructor
  · intro ends i j before walking same
    -- From the repeated place on the walk only does what it has done.
    have reached := Nat.find_spec ends
    have later : j < Nat.find ends := by
      apply Nat.lt_of_not_le
      exact fun early => walking _ early reached
    apply Nat.find_min ends (show Nat.find ends - j + i < Nat.find ends by omega)
    rw [Function.iterate_add_apply, same, ← Function.iterate_add_apply, Nat.sub_add_cancel later.le]
    exact reached
  · intro noReturn
    apply Classical.byContradiction
    intro never
    have walking (n : Nat) : Walking f stop start n := fun k _ reached => never ⟨k, reached⟩
    refine not_injective_infinite_finite (fun n : Nat => f^[n] start) fun i j same => ?_
    rcases Nat.lt_trichotomy i j with before | equal | behind
    · exact absurd same (noReturn i j before (walking j))
    · exact equal
    · exact absurd same.symm (noReturn j i behind (walking i))

/-- A walk that never goes down comes back only where it stays. -/
theorem noReturn_iff_moves {height : α → Nat} (injective : Function.Injective height)
    (ascends : ∀ n, Walking f stop start n → height (f^[n] start) ≤ height (f^[n + 1] start)) :
    NoReturn f stop start ↔ ∀ n, Walking f stop start n → f^[n] start ≠ f^[n + 1] start := by
  constructor
  · intro noReturn n walking stays
    have longer : Walking f stop start (n + 1) := by
      intro k below
      rcases Nat.lt_or_eq_of_le below with early | rfl
      · exact walking k (Nat.le_of_lt_succ early)
      · rw [← stays]
        exact walking n (Nat.le_refl n)
    exact noReturn n (n + 1) (Nat.lt_succ_self n) longer stays
  · intro moves i j before walking same
    have rises : height (f^[i] start) < height (f^[j] start) := by
      clear same
      induction j, before using Nat.le_induction with
      | base =>
          have here := walking.mono (Nat.le_succ i)
          exact Nat.lt_of_le_of_ne (ascends i here) fun equal => moves i here (injective equal)
      | succ j _ ih =>
          have shorter := walking.mono (Nat.le_succ j)
          exact Nat.lt_of_lt_of_le (ih shorter) (ascends j shorter)
    rw [same] at rises
    exact Nat.lt_irrefl _ rises

end Walk

section Stride

/-- The largest number below `m` that strides of `e` reach from `s` modulo `m`. -/
def top (m e s : Nat) : Nat := m - Nat.gcd e m + s % Nat.gcd e m

variable {m e s t : Nat}

/-- Some number of strides makes up the greatest common divisor. -/
theorem stride_gcd (positive : 0 < m) : ∃ a, a * e ≡ Nat.gcd e m [MOD m] := by
  rcases Nat.lt_or_eq_of_le (Nat.gcd_le_right e positive) with less | all
  · obtain ⟨a, -, product⟩ := Nat.exists_mul_mod_eq_gcd less
    refine ⟨a, ?_⟩
    rw [Nat.mul_comm, Nat.ModEq, product, Nat.mod_eq_of_lt less]
  · refine ⟨0, ?_⟩
    rw [all, Nat.zero_mul, Nat.ModEq, Nat.zero_mod, Nat.mod_self]

/-- Strides reach whatever is congruent modulo that divisor. -/
theorem stride_reaches (below : t < m) (same : t ≡ s [MOD Nat.gcd e m]) :
    ∃ n, (s + n * e) % m = t := by
  obtain ⟨a, strides⟩ := stride_gcd (e := e) (Nat.lt_of_le_of_lt (Nat.zero_le t) below)
  -- `t - s`, lifted by a multiple of `m` that makes it natural.
  have divides : Nat.gcd e m ∣ t + (m - 1) * s := by
    apply (Nat.modEq_zero_iff_dvd).mp
    have whole : s + (m - 1) * s = m * s := by
      rw [Nat.sub_one_mul]
      exact Nat.add_sub_cancel' (Nat.le_mul_of_pos_left _ (by omega))
    have lifted := same.add_right ((m - 1) * s)
    rw [whole] at lifted
    exact lifted.trans (Nat.modEq_zero_iff_dvd.mpr (Dvd.dvd.mul_right (Nat.gcd_dvd_right e m) s))
  obtain ⟨k, difference⟩ := divides
  refine ⟨k * a, ?_⟩
  have moved : s + k * a * e ≡ s + (t + (m - 1) * s) [MOD m] := by
    rw [difference, Nat.mul_assoc, Nat.mul_comm (Nat.gcd e m)]
    exact (strides.mul_left k).add_left s
  have whole : s + (t + (m - 1) * s) = t + m * s := by
    have parts : (m - 1) * s + s = m * s := by
      rw [Nat.sub_one_mul]
      exact Nat.sub_add_cancel (Nat.le_mul_of_pos_left _ (by omega))
    omega
  rw [whole] at moved
  rw [moved, Nat.add_mul_mod_self_left, Nat.mod_eq_of_lt below]

/-- Strides get to a bound exactly if it is no more than the top. -/
theorem stride_passes_iff (positive : 0 < m) (bound : Nat) :
    (∃ n, bound ≤ (s + n * e) % m) ↔ bound ≤ top m e s := by
  have divisor : 0 < Nat.gcd e m := Nat.gcd_pos_of_pos_right e positive
  have small := Nat.mod_lt s divisor
  have le := Nat.gcd_le_right e positive
  have whole : m % Nat.gcd e m = 0 := Nat.mod_eq_zero_of_dvd (Nat.gcd_dvd_right e m)
  constructor
  · rintro ⟨n, reached⟩
    apply Nat.le_trans reached
    have below := Nat.mod_lt (s + n * e) positive
    have residue : (s + n * e) % m % Nat.gcd e m = s % Nat.gcd e m := by
      rw [Nat.mod_mod_of_dvd _ (Nat.gcd_dvd_right e m), Nat.add_mod,
        Nat.mod_eq_zero_of_dvd (Dvd.dvd.mul_left (Nat.gcd_dvd_left e m) n), Nat.add_zero,
        Nat.mod_mod]
    have parts := Nat.mod_add_div ((s + n * e) % m) (Nat.gcd e m)
    have all := Nat.mod_add_div m (Nat.gcd e m)
    rw [whole, Nat.zero_add] at all
    have quotient : Nat.gcd e m * ((s + n * e) % m / Nat.gcd e m + 1) ≤ m := by
      conv_rhs => rw [← all]
      apply Nat.mul_le_mul_left
      apply (Nat.div_lt_iff_lt_mul divisor).mpr
      rw [Nat.mul_comm (m / Nat.gcd e m), all]
      exact below
    rw [residue] at parts
    rw [Nat.mul_add, Nat.mul_one] at quotient
    rw [top]
    omega
  · intro low
    have congruent : top m e s ≡ s [MOD Nat.gcd e m] := by
      have zero : m - Nat.gcd e m ≡ 0 [MOD Nat.gcd e m] :=
        Nat.modEq_zero_iff_dvd.mpr (Nat.dvd_sub (Nat.gcd_dvd_right e m) (Nat.dvd_refl _))
      have sum := zero.add (Nat.mod_modEq s (Nat.gcd e m))
      rwa [Nat.zero_add] at sum
    obtain ⟨n, reached⟩ := stride_reaches (by rw [top]; omega) congruent
    exact ⟨n, by rw [reached]; exact low⟩

end Stride

end FrogOS.Orbit
