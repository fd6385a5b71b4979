set_option autoImplicit false

/- An allocator that only moves a pointer, over the natural numbers. -/
namespace FrogOS.BumpAllocator

/-- Requests are rounded up to multiples of `unit`; what is left ends at `limit`. -/
structure Arena where
  unit : Nat
  limit : Nat

variable {arena : Arena}

def Arena.rounded (arena : Arena) (size : Nat) : Nat :=
  (size + (arena.unit - 1)) / arena.unit * arena.unit

/-- The request must leave something over. -/
def Arena.Fits (arena : Arena) (top size : Nat) : Prop := arena.rounded size < arena.limit - top

instance (arena : Arena) (top size : Nat) : Decidable (arena.Fits top size) :=
  inferInstanceAs (Decidable (_ < _))

/-- One request: the block, if there is one, and the new start of what is left. -/
def Arena.alloc (arena : Arena) (top size : Nat) : Option Nat × Nat :=
  if arena.Fits top size then (some top, top + arena.rounded size) else (none, top)

/-- What is left after a sequence of requests. -/
def Arena.topAfter (arena : Arena) : Nat → List Nat → Nat
  | top, [] => top
  | top, size :: rest => arena.topAfter (arena.alloc top size).2 rest

/-- The blocks that a sequence of requests gets. -/
def Arena.blocks (arena : Arena) : Nat → List Nat → List (Option Nat)
  | _, [] => []
  | top, size :: rest => (arena.alloc top size).1 :: arena.blocks (arena.alloc top size).2 rest

theorem Arena.topAfter_snoc (top size : Nat) (sizes : List Nat) :
    arena.topAfter top (sizes ++ [size]) = (arena.alloc (arena.topAfter top sizes) size).2 := by
  induction sizes generalizing top with
  | nil => rfl
  | cons first rest ih => exact ih (arena.alloc top first).2

theorem Arena.blocks_snoc (top size : Nat) (sizes : List Nat) :
    arena.blocks top (sizes ++ [size]) =
      arena.blocks top sizes ++ [(arena.alloc (arena.topAfter top sizes) size).1] := by
  induction sizes generalizing top with
  | nil => rfl
  | cons first rest ih =>
      have later := ih (arena.alloc top first).2
      rw [List.cons_append, Arena.blocks, Arena.blocks, later]
      rfl

end FrogOS.BumpAllocator
