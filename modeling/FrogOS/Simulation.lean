import Mathlib.Logic.Basic

set_option autoImplicit false

namespace FrogOS.Simulation

variable {ε α β γ δ ι : Type}

/-- Two computations fail with one error, or both have results, which are related. -/
inductive Simulates (R : α → β → Prop) : Except ε α → Except ε β → Prop
  | ok {a : α} {b : β} (related : R a b) : Simulates R (.ok a) (.ok b)
  | error (e : ε) : Simulates R (.error e) (.error e)

namespace Simulates

variable {R : α → β → Prop} {S : γ → δ → Prop}

theorem of_exists {x : Except ε α} {b : β} (results : ∃ a, x = .ok a ∧ R a b) :
    Simulates R x (.ok b) := by
  obtain ⟨a, same, related⟩ := results
  rw [same]
  exact .ok related

theorem exists_ok {x : Except ε α} {b : β} (simulates : Simulates R x (.ok b)) :
    ∃ a, x = .ok a ∧ R a b := by
  cases simulates with
  | ok related => exact ⟨_, rfl, related⟩

theorem bind {x : Except ε α} {y : Except ε β} (simulates : Simulates R x y)
    {f : α → Except ε γ} {g : β → Except ε δ}
    (later : ∀ a b, R a b → Simulates S (f a) (g b)) : Simulates S (x >>= f) (y >>= g) := by
  cases simulates with
  | ok related => exact later _ _ related
  | error e => exact .error e

theorem mono {R' : α → β → Prop} {x : Except ε α} {y : Except ε β} (simulates : Simulates R x y)
    (weaker : ∀ a b, R a b → R' a b) : Simulates R' x y := by
  cases simulates with
  | ok related => exact .ok (weaker _ _ related)
  | error e => exact .error e

/-- What holds from one step to the next holds over a run. -/
theorem foldlM {step : α → ι → Except ε α} {step' : β → ι → Except ε β} {run : List ι}
    (simulates : ∀ i ∈ run, ∀ a b, R a b → Simulates R (step a i) (step' b i)) {a : α} {b : β}
    (start : R a b) : Simulates R (run.foldlM step a) (run.foldlM step' b) := by
  induction run generalizing a b with
  | nil => exact .ok start
  | cons i run ih =>
      rw [List.foldlM_cons, List.foldlM_cons]
      apply (simulates i List.mem_cons_self a b start).bind
      intro a' b' related
      exact ih (fun j member => simulates j (List.mem_cons_of_mem i member)) related

end Simulates

section Option

variable {R : α → β → Prop} {S : γ → δ → Prop}

theorem rel_mono {R' : α → β → Prop} {x : Option α} {y : Option β} (related : Option.Rel R x y)
    (weaker : ∀ a b, R a b → R' a b) : Option.Rel R' x y := by
  cases related with
  | some related => exact .some (weaker _ _ related)
  | none => exact .none

theorem rel_bind {x : Option α} {y : Option β} (related : Option.Rel R x y) {f : α → Option γ}
    {g : β → Option δ} (later : ∀ a b, R a b → Option.Rel S (f a) (g b)) :
    Option.Rel S (x >>= f) (y >>= g) := by
  cases related with
  | some related => exact later _ _ related
  | none => exact .none

/-- The same over a run that may come to nothing. -/
theorem rel_foldlM {step : α → ι → Option α} {step' : β → ι → Option β} {run : List ι}
    (simulates : ∀ i ∈ run, ∀ a b, R a b → Option.Rel R (step a i) (step' b i)) {a : α} {b : β}
    (start : R a b) : Option.Rel R (run.foldlM step a) (run.foldlM step' b) := by
  induction run generalizing a b with
  | nil => exact .some start
  | cons i run ih =>
      rw [List.foldlM_cons, List.foldlM_cons]
      apply rel_bind (simulates i List.mem_cons_self a b start)
      intro a' b' related
      exact ih (fun j member => simulates j (List.mem_cons_of_mem i member)) related

end Option

/-- Folding computations is one computation. -/
theorem foldl_bind (f : α → ι → Except ε α) (x : Except ε α) (run : List ι) :
    run.foldl (fun state i => state >>= fun a => f a i) x = x >>= fun a => run.foldlM f a := by
  induction run generalizing x with
  | nil => cases x <;> rfl
  | cons i run ih =>
      rw [List.foldl_cons, ih]
      cases x <;> rfl

end FrogOS.Simulation
