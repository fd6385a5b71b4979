set_option autoImplicit false

namespace FrogOS.OwnedRing

/-- A circle of `n` slots that a producer fills and a consumer empties in the same order. A slot is
pending from its filling to its emptying; the counts are those since the start. -/
structure Ring (n : Nat) (pending : Nat → Prop) (produced consumed : Nat) : Prop where
  positive : 0 < n
  behind : consumed ≤ produced
  room : produced ≤ consumed + n
  marks : ∀ k, k < n → (pending k ↔ ∃ j, consumed ≤ j ∧ j < produced ∧ j % n = k)

variable {n produced consumed : Nat} {pending pending' : Nat → Prop}

/-- Two numbers less than `n` apart that meet on the circle are equal. -/
theorem eq_of_mod_eq (n low : Nat) {i j : Nat} (lowerI : low ≤ i) (upperI : i < low + n)
    (lowerJ : low ≤ j) (upperJ : j < low + n) (same : i % n = j % n) : i = j := by
  have splitI := Nat.div_add_mod i n
  have splitJ := Nat.div_add_mod j n
  rw [same] at splitI
  have equalDivs : i / n = j / n := by
    rcases Nat.lt_trichotomy (i / n) (j / n) with below | equal | above
    · have step := Nat.mul_le_mul_left n (show i / n + 1 ≤ j / n from below)
      rw [Nat.mul_add] at step
      omega
    · exact equal
    · have step := Nat.mul_le_mul_left n (show j / n + 1 ≤ i / n from above)
      rw [Nat.mul_add] at step
      omega
  rw [equalDivs] at splitI
  omega

/-- Whatever is produced after an item and before the next turn lies in another slot. -/
theorem mod_ne (n : Nat) {i j : Nat} (later : i < j) (upper : j < i + n) : j % n ≠ i % n := by
  intro same
  have equal := eq_of_mod_eq n i (Nat.le_of_lt later) upper (Nat.le_refl i) (by omega) same
  omega

/-- The next position: one further, or back to the first slot. -/
theorem succ_mod (c : Nat) (positive : 0 < n) :
    (c + 1) % n = if n ≤ c % n + 1 then 0 else c % n + 1 := by
  have inside := Nat.mod_lt c positive
  have split : c + 1 = n * (c / n) + (c % n + 1) := by
    have parts := Nat.div_add_mod c n
    omega
  rw [split, Nat.mul_add_mod]
  by_cases last : n ≤ c % n + 1
  · have whole : c % n + 1 = n := Nat.le_antisymm inside last
    rw [if_pos (by omega), whole, Nat.mod_self]
  · rw [Nat.mod_eq_of_lt (by omega), if_neg (by simpa using last)]

theorem start (positive : 0 < n) (free : ∀ k, k < n → ¬ pending k) : Ring n pending 0 0 := by
  refine ⟨positive, Nat.le_refl 0, Nat.zero_le _, ?_⟩
  intro k inside
  constructor
  · intro mark
    exact absurd mark (free k inside)
  · rintro ⟨j, -, upper, -⟩
    exact absurd upper (Nat.not_lt_zero j)

/-- Within one turn from the consumer's position, the pending slots are those already produced. -/
theorem Ring.pending_iff (ring : Ring n pending produced consumed) {j : Nat}
    (lower : consumed ≤ j) (upper : j < consumed + n) : pending (j % n) ↔ j < produced := by
  rw [ring.marks (j % n) (Nat.mod_lt j ring.positive)]
  constructor
  · rintro ⟨i, lowerI, upperI, same⟩
    have turn := Nat.lt_of_lt_of_le upperI ring.room
    have equal := eq_of_mod_eq n consumed lowerI turn lower upper same
    omega
  · intro inside
    exact ⟨j, lower, inside, rfl⟩

/-- The consumer finds its slot pending exactly when something is waiting. -/
theorem Ring.consumer_iff (ring : Ring n pending produced consumed) :
    pending (consumed % n) ↔ consumed < produced :=
  ring.pending_iff (Nat.le_refl consumed) (Nat.lt_add_of_pos_right ring.positive)

/-- The producer finds its slot free exactly when fewer than `n` are waiting. -/
theorem Ring.producer_iff (ring : Ring n pending produced consumed) :
    ¬ pending (produced % n) ↔ produced < consumed + n := by
  by_cases space : produced < consumed + n
  · simp only [ring.pending_iff ring.behind space, Nat.lt_irrefl, not_false_eq_true, space]
  · have full : produced = consumed + n := Nat.le_antisymm ring.room (Nat.not_lt.mp space)
    have waiting : consumed < produced := by
      have positive := ring.positive
      omega
    have mark := ring.consumer_iff.mpr waiting
    rw [full, Nat.add_mod_right]
    simp only [mark, not_true_eq_false, Nat.lt_irrefl]

theorem Ring.produce (ring : Ring n pending produced consumed) (free : ¬ pending (produced % n))
    (marked : ∀ k, k < n → (pending' k ↔ k = produced % n ∨ pending k)) :
    Ring n pending' (produced + 1) consumed := by
  have space := ring.producer_iff.mp free
  refine ⟨ring.positive, Nat.le_succ_of_le ring.behind, space, ?_⟩
  intro k inside
  rw [marked k inside, ring.marks k inside]
  constructor
  · rintro (here | ⟨j, lower, upper, same⟩)
    · exact ⟨produced, ring.behind, Nat.lt_succ_self produced, here.symm⟩
    · exact ⟨j, lower, Nat.lt_succ_of_lt upper, same⟩
  · rintro ⟨j, lower, upper, same⟩
    by_cases last : j = produced
    · exact Or.inl (by rw [← same, last])
    · exact Or.inr ⟨j, lower, by omega, same⟩

theorem Ring.consume (ring : Ring n pending produced consumed) (waiting : pending (consumed % n))
    (cleared : ∀ k, k < n → (pending' k ↔ k ≠ consumed % n ∧ pending k)) :
    Ring n pending' produced (consumed + 1) := by
  have ahead := ring.consumer_iff.mp waiting
  refine ⟨ring.positive, ahead, by have room := ring.room; omega, ?_⟩
  intro k inside
  rw [cleared k inside, ring.marks k inside]
  constructor
  · rintro ⟨other, j, lower, upper, same⟩
    have later : j ≠ consumed := by
      intro first
      rw [first] at same
      exact other same.symm
    exact ⟨j, by omega, upper, same⟩
  · rintro ⟨j, lower, upper, same⟩
    refine ⟨?_, j, by omega, upper, same⟩
    have room := ring.room
    rw [← same]
    exact mod_ne n lower (by omega)

/-- The pending slots form one arc of the circle, which starts at the consumer's position. -/
theorem Ring.segment (ring : Ring n pending produced consumed) (i : Nat) (inside : i < n) :
    pending ((consumed % n + i) % n) ↔ i < produced - consumed := by
  rw [Nat.mod_add_mod, ring.pending_iff (Nat.le_add_right consumed i) (by omega)]
  omega

/-- What the consumer takes next extends the record of what it has taken. -/
theorem prefix_snoc {α : Type} {xs ys : List α} {y : α} (done : xs <+: ys)
    (next : ys[xs.length]? = some y) : xs ++ [y] <+: ys := by
  obtain ⟨rest, rfl⟩ := done
  rw [List.getElem?_append_right (Nat.le_refl _), Nat.sub_self] at next
  cases rest with
  | nil => cases next
  | cons head rest =>
      obtain rfl : head = y := Option.some.inj next
      exact ⟨rest, by rw [List.append_assoc, List.singleton_append]⟩

end FrogOS.OwnedRing
