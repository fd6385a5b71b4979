import Mathlib.Algebra.Group.Nat.Defs

set_option autoImplicit false

namespace FrogOS.Emission

/-- Where characters go, and the index of the next one. -/
structure Output (σ : Type) where
  state : σ
  idx : UInt32

namespace Output

variable {α σ : Type} (fct : α → UInt32 → σ → σ)

/-- One character goes out. The index may wrap. -/
def put (o : Output σ) (c : α) : Output σ := ⟨fct c o.idx o.state, o.idx + 1⟩

/-- A text goes out, its first character first. -/
def emit (o : Output σ) (text : List α) : Output σ := text.foldl (put fct) o

variable (o : Output σ)

@[simp] theorem emit_nil : o.emit fct [] = o := rfl

@[simp] theorem emit_cons (c : α) (text : List α) :
    o.emit fct (c :: text) = (o.put fct c).emit fct text := rfl

theorem emit_append (first second : List α) :
    o.emit fct (first ++ second) = (o.emit fct first).emit fct second :=
  List.foldl_append

theorem emit_idx (text : List α) :
    (o.emit fct text).idx = o.idx + UInt32.ofNat text.length := by
  induction text generalizing o with
  | nil => exact (UInt32.add_zero o.idx).symm
  | cons c text ih =>
      rw [emit_cons, ih, put, List.length_cons, Nat.add_comm, UInt32.ofNat_add, UInt32.add_assoc]
      rfl

/-- The index counts what went out since an earlier point, up to a turn of it. -/
theorem emit_idx_sub (text : List α) (short : text.length < 2 ^ 32) :
    ((o.emit fct text).idx - o.idx).toNat = text.length := by
  rw [emit_idx, UInt32.add_comm, UInt32.add_sub_cancel, UInt32.toNat_ofNat_of_lt' short]

/-- An `fct` that does not look at the index folds its text. -/
theorem emit_state {fct : α → UInt32 → σ → σ} (step : σ → α → σ)
    (blind : ∀ c i s, fct c i s = step s c) (text : List α) :
    (o.emit fct text).state = text.foldl step o.state := by
  induction text generalizing o with
  | nil => rfl
  | cons c text ih =>
      rw [emit_cons, ih, put, blind]
      rfl

end Output

end FrogOS.Emission
