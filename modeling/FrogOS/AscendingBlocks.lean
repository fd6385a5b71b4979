set_option autoImplicit false

/- Blocks one behind the other, each at or behind the end of the one before. -/
namespace FrogOS.AscendingBlocks

variable {α : Type} {base size size' : α → Nat} {lo hi lo' hi' : Nat} {xs ys : List α} {x : α}

/-- The blocks lie in this order between `lo` and `hi`. -/
def Ascending (base size : α → Nat) : Nat → List α → Nat → Prop
  | lo, [], hi => lo ≤ hi
  | lo, x :: xs, hi => lo ≤ base x ∧ Ascending base size (base x + size x) xs hi

theorem Ascending.ordered (blocks : Ascending base size lo xs hi) : lo ≤ hi := by
  induction xs generalizing lo with
  | nil => exact blocks
  | cons x xs ih =>
      have rest := ih blocks.2
      have first := blocks.1
      omega

theorem ascending_append :
    Ascending base size lo (xs ++ ys) hi ↔
      ∃ mid, Ascending base size lo xs mid ∧ Ascending base size mid ys hi := by
  induction xs generalizing lo with
  | nil =>
      constructor
      · exact fun blocks => ⟨lo, Nat.le_refl lo, blocks⟩
      · intro split
        obtain ⟨mid, lower, blocks⟩ := split
        cases ys with
        | nil => exact Nat.le_trans lower blocks
        | cons y ys => exact ⟨Nat.le_trans lower blocks.1, blocks.2⟩
  | cons x xs ih =>
      constructor
      · intro blocks
        obtain ⟨mid, front, back⟩ := ih.mp blocks.2
        exact ⟨mid, ⟨blocks.1, front⟩, back⟩
      · intro split
        obtain ⟨mid, front, back⟩ := split
        exact ⟨front.1, ih.mpr ⟨mid, front.2, back⟩⟩

/-- Only the sizes of the blocks themselves matter. -/
theorem Ascending.congr (blocks : Ascending base size lo xs hi)
    (same : ∀ x ∈ xs, size' x = size x) : Ascending base size' lo xs hi := by
  induction xs generalizing lo with
  | nil => exact blocks
  | cons x xs ih =>
      refine ⟨blocks.1, ?_⟩
      rw [same x List.mem_cons_self]
      exact ih blocks.2 fun y member => same y (List.mem_cons_of_mem x member)

theorem Ascending.lower (blocks : Ascending base size lo xs hi) (less : lo' ≤ lo) :
    Ascending base size lo' xs hi := by
  cases xs with
  | nil => exact Nat.le_trans less blocks
  | cons x xs => exact ⟨Nat.le_trans less blocks.1, blocks.2⟩

theorem Ascending.within (blocks : Ascending base size lo xs hi) (member : x ∈ xs) :
    lo ≤ base x ∧ base x + size x ≤ hi := by
  induction xs generalizing lo with
  | nil => exact absurd member List.not_mem_nil
  | cons y xs ih =>
      rcases List.mem_cons.mp member with here | later
      · rw [here]
        exact ⟨blocks.1, blocks.2.ordered⟩
      · have rest := ih blocks.2 later
        have first := blocks.1
        omega

/-- No more blocks than fit. -/
theorem Ascending.length_le {unit : Nat} (blocks : Ascending base size lo xs hi)
    (large : ∀ x ∈ xs, unit ≤ size x) : lo + unit * xs.length ≤ hi := by
  induction xs generalizing lo with
  | nil => exact blocks
  | cons x xs ih =>
      have rest := ih blocks.2 fun y member => large y (List.mem_cons_of_mem x member)
      have first := blocks.1
      have this := large x List.mem_cons_self
      rw [List.length_cons, Nat.mul_succ]
      omega

end FrogOS.AscendingBlocks
