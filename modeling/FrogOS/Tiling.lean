import Mathlib.Algebra.GroupWithZero.Nat

set_option autoImplicit false

namespace FrogOS.Tiling

/-- The addresses `[base, base + size)`. -/
structure Span where
  base : Nat
  size : Nat
deriving DecidableEq, Repr

namespace Span

def Covers (s : Span) (a : Nat) : Prop := s.base ≤ a ∧ a < s.base + s.size

instance (s : Span) (a : Nat) : Decidable (s.Covers a) :=
  inferInstanceAs (Decidable (_ ∧ _))

/-- No address belongs to both spans. -/
def Apart (s t : Span) : Prop := ∀ a, ¬ (s.Covers a ∧ t.Covers a)

def Within (s : Span) (lo hi : Nat) : Prop := lo ≤ s.base ∧ s.base + s.size ≤ hi

end Span

/-- How many of the spans an address belongs to. -/
def owners (xs : List Span) (a : Nat) : Nat := xs.countP fun s => decide (s.Covers a)

/-- Every address of `[lo, hi)` belongs to exactly one span, every other address to none. -/
def Tiles (lo hi : Nat) (xs : List Span) : Prop :=
  ∀ a, owners xs a = if lo ≤ a ∧ a < hi then 1 else 0

/-- The number of addresses the spans hold together. -/
def total (xs : List Span) : Nat := (xs.map Span.size).sum

variable {lo hi : Nat} {xs ys : List Span} {s t : Span}

@[simp] theorem owners_nil (a : Nat) : owners [] a = 0 := rfl

theorem owners_cons (s : Span) (xs : List Span) (a : Nat) :
    owners (s :: xs) a = owners xs a + if s.Covers a then 1 else 0 := by
  simp only [owners, List.countP_cons, decide_eq_true_eq]

theorem owners_pos (member : s ∈ xs) {a : Nat} (covers : s.Covers a) : 0 < owners xs a :=
  List.countP_pos_iff.mpr ⟨s, member, decide_eq_true covers⟩

theorem Tiles.perm (tiles : Tiles lo hi xs) (same : xs.Perm ys) : Tiles lo hi ys := by
  intro a
  rw [← tiles a]
  exact (same.countP_eq _).symm

theorem tiles_single (ordered : lo ≤ hi) : Tiles lo hi [⟨lo, hi - lo⟩] := by
  intro a
  have same : Span.Covers ⟨lo, hi - lo⟩ a ↔ lo ≤ a ∧ a < hi := by
    simp only [Span.Covers]
    omega
  simp only [owners_cons, owners_nil, same, Nat.zero_add]

/-- Cutting the first span of a tiling in two keeps it a tiling. -/
theorem Tiles.cut {base m n : Nat} (tiles : Tiles lo hi (⟨base, m + n⟩ :: xs)) :
    Tiles lo hi (⟨base, m⟩ :: ⟨base + m, n⟩ :: xs) := by
  intro a
  have whole : Span.Covers ⟨base, m + n⟩ a ↔
      Span.Covers ⟨base, m⟩ a ∨ Span.Covers ⟨base + m, n⟩ a := by
    simp only [Span.Covers]
    omega
  have once : ¬ (Span.Covers ⟨base, m⟩ a ∧ Span.Covers ⟨base + m, n⟩ a) := by
    simp only [Span.Covers]
    omega
  rw [← tiles a]
  simp only [owners_cons, whole]
  by_cases front : Span.Covers ⟨base, m⟩ a
  · have back : ¬ Span.Covers ⟨base + m, n⟩ a := fun covers => once ⟨front, covers⟩
    simp only [front, back, true_or, ↓reduceIte, Nat.add_zero]
  · simp only [front, false_or, ↓reduceIte, Nat.add_zero]

theorem Tiles.cut_twice {base m n k : Nat} (tiles : Tiles lo hi (⟨base, m + (n + k)⟩ :: xs)) :
    Tiles lo hi (⟨base, m⟩ :: ⟨base + m, n⟩ :: ⟨base + m + n, k⟩ :: xs) := by
  have back : Tiles lo hi (⟨base + m, n + k⟩ :: ⟨base, m⟩ :: xs) :=
    tiles.cut.perm (List.Perm.swap _ _ _)
  apply back.cut.perm
  exact (List.Perm.cons _ (List.Perm.swap _ _ _)).trans (List.Perm.swap _ _ _)

theorem Tiles.within (tiles : Tiles lo hi xs) (member : s ∈ xs) (positive : 0 < s.size) :
    s.Within lo hi := by
  have low : s.Covers s.base := ⟨Nat.le_refl _, by omega⟩
  have high : s.Covers (s.base + s.size - 1) := ⟨by omega, by omega⟩
  have first := owners_pos member low
  have last := owners_pos member high
  rw [tiles] at first last
  split at first
  · split at last
    · exact ⟨by omega, by omega⟩
    · omega
  · omega

/-- An address held once in total is not held by two members of the list. -/
theorem pairwise_apart (single : ∀ a, owners xs a ≤ 1) : xs.Pairwise Span.Apart := by
  induction xs with
  | nil => exact List.Pairwise.nil
  | cons s xs ih =>
      refine List.pairwise_cons.mpr ⟨?_, ?_⟩
      · rintro t member a ⟨left, right⟩
        have one := single a
        rw [owners_cons] at one
        simp only [left, ↓reduceIte] at one
        have := owners_pos member right
        omega
      · apply ih
        intro a
        have one := single a
        rw [owners_cons] at one
        omega

theorem Tiles.apart (tiles : Tiles lo hi xs) : xs.Pairwise Span.Apart := by
  apply pairwise_apart
  intro a
  rw [tiles]
  split <;> omega

theorem Span.Apart.symm (apart : s.Apart t) : t.Apart s :=
  fun a both => apart a ⟨both.2, both.1⟩

@[simp] theorem total_nil : total [] = 0 := rfl

@[simp] theorem total_cons (s : Span) (xs : List Span) : total (s :: xs) = s.size + total xs := by
  simp only [total, List.map_cons, List.sum_cons]

theorem total_append (xs ys : List Span) : total (xs ++ ys) = total xs + total ys := by
  simp only [total, List.map_append, List.sum_append]

theorem total_perm (same : xs.Perm ys) : total xs = total ys :=
  (same.map Span.size).sum_nat

/-- Spans of at least `unit` addresses each are at most as many as fit. -/
theorem length_mul_le_total {unit : Nat} (large : ∀ s ∈ xs, unit ≤ s.size) :
    xs.length * unit ≤ total xs := by
  induction xs with
  | nil => simp
  | cons s xs ih =>
      have first := large s List.mem_cons_self
      have rest := ih (fun t member => large t (List.mem_cons_of_mem s member))
      simp only [List.length_cons, total_cons, Nat.succ_mul]
      omega

end FrogOS.Tiling
