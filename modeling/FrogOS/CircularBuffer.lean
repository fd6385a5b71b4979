import FrogOS.OwnedRing

set_option autoImplicit false

namespace FrogOS.CircularBuffer

/-- A buffer with redundant counters: the first occupied slot, the first slot
behind the occupied ones, and the number of occupied slots. -/
structure Buffer (α : Type) where
  slots : Nat → α
  head : Nat
  tail : Nat
  size : Nat

variable {α : Type} {n i : Nat}

/-- The slot after slot `i` on a circle of `n` slots. -/
def advance (n i : Nat) : Nat := if i + 1 = n then 0 else i + 1

def push (n : Nat) (b : Buffer α) (value : α) : Buffer α where
  slots := fun i => if i = b.tail then value else b.slots i
  head := b.head
  tail := advance n b.tail
  size := b.size + 1

def pop (n : Nat) (b : Buffer α) : Buffer α where
  slots := b.slots
  head := advance n b.head
  tail := b.tail
  size := b.size - 1

/-- The counters agree with each other. -/
structure Valid (n : Nat) (b : Buffer α) : Prop where
  head_lt : b.head < n
  tail_lt : b.tail < n
  size_le : b.size ≤ n
  meet : (b.head + b.size) % n = b.tail

/-- The occupied slots from the head on. -/
def contents (n : Nat) (b : Buffer α) : List α :=
  (List.range b.size).map fun i => b.slots ((b.head + i) % n)

/-- What a queue of at most `n` entries makes of another entry. -/
def offer (n : Nat) (xs : List α) (value : α) : List α :=
  if xs.length < n then xs ++ [value] else xs

theorem advance_eq (inside : i < n) : advance n i = (i + 1) % n := by
  unfold advance
  split
  · rename_i last
    rw [last, Nat.mod_self]
  · have below : i + 1 < n := by omega
    exact (Nat.mod_eq_of_lt below).symm

theorem advance_lt (inside : i < n) : advance n i < n := by
  have positive : 0 < n := by omega
  rw [advance_eq inside]
  exact Nat.mod_lt _ positive

@[simp] theorem contents_length (n : Nat) (b : Buffer α) : (contents n b).length = b.size := by
  simp [contents]

section Operations

variable {b : Buffer α}

theorem push_valid (valid : Valid n b) (room : b.size < n) (value : α) :
    Valid n (push n b value) where
  head_lt := valid.head_lt
  tail_lt := advance_lt valid.tail_lt
  size_le := room
  meet := by
    change (b.head + (b.size + 1)) % n = advance n b.tail
    rw [advance_eq valid.tail_lt, ← valid.meet, Nat.mod_add_mod, Nat.add_assoc]

/-- The new entry comes last, and its slot is none of the occupied ones. -/
theorem push_contents (valid : Valid n b) (room : b.size < n) (value : α) :
    contents n (push n b value) = contents n b ++ [value] := by
  have last : (push n b value).slots ((b.head + b.size) % n) = value := by
    simp [push, valid.meet]
  have others : ∀ i, i < b.size →
      (push n b value).slots ((b.head + i) % n) = b.slots ((b.head + i) % n) := by
    intro i inside
    have apart : (b.head + b.size) % n ≠ (b.head + i) % n := by
      apply OwnedRing.mod_ne n
      · omega
      · omega
    rw [valid.meet] at apart
    exact if_neg (Ne.symm apart)
  have front : (List.range b.size).map (fun i => (push n b value).slots ((b.head + i) % n)) =
      contents n b := by
    apply List.map_congr_left
    intro i member
    exact others i (List.mem_range.mp member)
  change (List.range (b.size + 1)).map (fun i => (push n b value).slots ((b.head + i) % n)) = _
  rw [List.range_succ, List.map_append, front, List.map_singleton, last]

theorem pop_valid (valid : Valid n b) (nonempty : 0 < b.size) : Valid n (pop n b) where
  head_lt := advance_lt valid.head_lt
  tail_lt := valid.tail_lt
  size_le := Nat.le_trans (Nat.sub_le _ _) valid.size_le
  meet := by
    have count : 1 + (b.size - 1) = b.size := by omega
    change (advance n b.head + (b.size - 1)) % n = b.tail
    rw [advance_eq valid.head_lt, Nat.mod_add_mod, Nat.add_assoc, count, valid.meet]

/-- The entry that leaves is the first one. -/
theorem pop_contents (valid : Valid n b) (nonempty : 0 < b.size) :
    contents n b = b.slots b.head :: contents n (pop n b) := by
  obtain ⟨size, count⟩ : ∃ size, b.size = size + 1 := ⟨b.size - 1, by omega⟩
  have first : b.slots ((b.head + 0) % n) = b.slots b.head := by
    rw [Nat.add_zero, Nat.mod_eq_of_lt valid.head_lt]
  have popped : (pop n b).size = size := by
    change b.size - 1 = size
    omega
  unfold contents
  rw [count, popped, List.range_succ_eq_map, List.map_cons, List.map_map, first]
  apply congrArg
  apply List.map_congr_left
  intro i _
  change b.slots ((b.head + (i + 1)) % n) = b.slots ((advance n b.head + i) % n)
  rw [advance_eq valid.head_lt, Nat.mod_add_mod, Nat.add_assoc, Nat.add_comm 1 i]

end Operations

theorem offer_room {xs : List α} (room : xs.length < n) (value : α) :
    offer n xs value = xs ++ [value] := if_pos room

theorem offer_full {xs : List α} (full : n ≤ xs.length) (value : α) : offer n xs value = xs :=
  if_neg (Nat.not_lt.mpr full)

/-- Offering several entries keeps as many of them as there is room for. -/
theorem foldl_offer (xs values : List α) (fits : xs.length ≤ n) :
    values.foldl (offer n) xs = (xs ++ values).take n := by
  induction values generalizing xs with
  | nil => simp [List.take_of_length_le fits]
  | cons value values ih =>
      rw [List.foldl_cons]
      by_cases room : xs.length < n
      · have fits' : (xs ++ [value]).length ≤ n := by
          rw [List.length_append, List.length_singleton]
          exact room
        rw [offer_room room, ih _ fits', List.append_assoc, List.singleton_append]
      · have full : xs.length = n := by omega
        rw [offer_full (by omega), ih _ fits, ← full, List.take_left, List.take_left]

end FrogOS.CircularBuffer
