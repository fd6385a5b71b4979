import FrogOS.BoundedAccess

set_option autoImplicit false

namespace FrogOS.TracedAccess

open ByteMemory BoundedAccess

/-- A read of `count` bytes of an object, or a note of some kind. -/
inductive Event (μ : Type)
  | read (offset count : Nat)
  | mark (note : μ)

/-- A computation on an object whose end it does not know, with what happens on the way. -/
structure Traced (μ α : Type) where
  events : List (Event μ)
  result : Except Fault α

variable {μ α β : Type}

/-- The bytes of the read are among the first `n` of the object. -/
def Event.Inside (n : Nat) : Event μ → Prop
  | .read offset count => offset + count ≤ n
  | .mark _ => True

instance (n : Nat) : DecidablePred (Event.Inside (μ := μ) n) := fun e =>
  match e with
  | .read offset count => inferInstanceAs (Decidable (offset + count ≤ n))
  | .mark _ => inferInstanceAs (Decidable True)

namespace Traced

/-- A fault ends the computation. -/
def bind (t : Traced μ α) (f : α → Traced μ β) : Traced μ β :=
  match t.result with
  | .error fault => ⟨t.events, .error fault⟩
  | .ok a => ⟨t.events ++ (f a).events, (f a).result⟩

instance : Monad (Traced μ) where
  pure a := ⟨[], .ok a⟩
  bind := Traced.bind

/-- What does not look at the object. -/
def lift (x : Except Fault α) : Traced μ α := ⟨[], x⟩

def mark (note : μ) : Traced μ PUnit := ⟨[.mark note], .ok ⟨⟩⟩

def read8 (m : Mem) (i : Nat) : Traced μ UInt8 := ⟨[.read i 1], .ok (m i)⟩

def read16 (m : Mem) (i : Nat) : Traced μ UInt16 := ⟨[.read i 2], .ok (load16 m i)⟩

def read32 (m : Mem) (i : Nat) : Traced μ UInt32 := ⟨[.read i 4], .ok (load32 m i)⟩

def readBytes (m : Mem) (i n : Nat) : Traced μ (List UInt8) := ⟨[.read i n], .ok (bytes m i n)⟩

/-- The same computation on an object of `n` bytes: the first read that leaves it is a fault. -/
def within (n : Nat) (t : Traced μ α) : Except Fault α :=
  if ∀ e ∈ t.events, e.Inside n then t.result else .error .outOfBounds

/-- Every event has the property. -/
def All (P : Event μ → Prop) (t : Traced μ α) : Prop := ∀ e ∈ t.events, P e

section All

variable {P : Event μ → Prop}

@[simp] theorem all_pure (a : α) : (pure a : Traced μ α).All P :=
  fun _ member => absurd member List.not_mem_nil

@[simp] theorem all_lift (x : Except Fault α) : (lift x : Traced μ α).All P :=
  fun _ member => absurd member List.not_mem_nil

@[simp] theorem all_mark (note : μ) : (mark note).All P ↔ P (.mark note) :=
  List.forall_mem_singleton

@[simp] theorem all_read8 (m : Mem) (i : Nat) :
    (read8 m i : Traced μ UInt8).All P ↔ P (.read i 1) := List.forall_mem_singleton

@[simp] theorem all_read16 (m : Mem) (i : Nat) :
    (read16 m i : Traced μ UInt16).All P ↔ P (.read i 2) := List.forall_mem_singleton

@[simp] theorem all_read32 (m : Mem) (i : Nat) :
    (read32 m i : Traced μ UInt32).All P ↔ P (.read i 4) := List.forall_mem_singleton

@[simp] theorem all_readBytes (m : Mem) (i n : Nat) :
    (readBytes m i n : Traced μ (List UInt8)).All P ↔ P (.read i n) := List.forall_mem_singleton

theorem result_pure (a : α) : (pure a : Traced μ α).result = .ok a := rfl

theorem bind_error {t : Traced μ α} {fault : Fault} (failed : t.result = .error fault)
    (f : α → Traced μ β) : t >>= f = ⟨t.events, .error fault⟩ := by
  change Traced.bind t f = _
  rw [Traced.bind, failed]

theorem bind_ok {t : Traced μ α} {a : α} (ended : t.result = .ok a) (f : α → Traced μ β) :
    t >>= f = ⟨t.events ++ (f a).events, (f a).result⟩ := by
  change Traced.bind t f = _
  rw [Traced.bind, ended]

theorem result_bind (t : Traced μ α) (f : α → Traced μ β) :
    (t >>= f).result = t.result >>= fun a => (f a).result := by
  cases ended : t.result with
  | error fault => rw [bind_error ended]; rfl
  | ok a => rw [bind_ok ended]; rfl

theorem all_bind_of_ok {t : Traced μ α} {a : α} (ended : t.result = .ok a)
    (f : α → Traced μ β) : (t >>= f).All P ↔ t.All P ∧ (f a).All P := by
  rw [bind_ok ended]
  exact List.forall_mem_append

/-- All events of a sequence are those of its first part and of what follows the first part's
result. -/
theorem all_bind (t : Traced μ α) (f : α → Traced μ β) :
    (t >>= f).All P ↔ t.All P ∧ ∀ a, t.result = .ok a → (f a).All P := by
  cases ended : t.result with
  | error fault =>
      rw [bind_error ended]
      exact ⟨fun first => ⟨first, nofun⟩, fun both => both.1⟩
  | ok a =>
      rw [all_bind_of_ok ended]
      simp only [Except.ok.injEq, forall_eq']

theorem all_mark_bind (note : μ) (f : PUnit → Traced μ β) :
    (mark note >>= f).All P ↔ P (.mark note) ∧ (f ⟨⟩).All P :=
  (all_bind_of_ok rfl f).trans (and_congr_left' (all_mark note))

theorem all_read8_bind (m : Mem) (i : Nat) (f : UInt8 → Traced μ β) :
    (read8 m i >>= f).All P ↔ P (.read i 1) ∧ (f (m i)).All P :=
  (all_bind_of_ok rfl f).trans (and_congr_left' (all_read8 m i))

theorem all_read16_bind (m : Mem) (i : Nat) (f : UInt16 → Traced μ β) :
    (read16 m i >>= f).All P ↔ P (.read i 2) ∧ (f (load16 m i)).All P :=
  (all_bind_of_ok rfl f).trans (and_congr_left' (all_read16 m i))

theorem all_read32_bind (m : Mem) (i : Nat) (f : UInt32 → Traced μ β) :
    (read32 m i >>= f).All P ↔ P (.read i 4) ∧ (f (load32 m i)).All P :=
  (all_bind_of_ok rfl f).trans (and_congr_left' (all_read32 m i))

theorem all_readBytes_bind (m : Mem) (i n : Nat) (f : List UInt8 → Traced μ β) :
    (readBytes m i n >>= f).All P ↔ P (.read i n) ∧ (f (bytes m i n)).All P :=
  (all_bind_of_ok rfl f).trans (and_congr_left' (all_readBytes m i n))

@[simp] theorem all_ite (c : Prop) [Decidable c] (t u : Traced μ α) :
    (if c then t else u).All P ↔ if c then t.All P else u.All P := by
  rw [apply_ite (All P) c t u]

end All

section Within

variable (n : Nat)

theorem within_inside {n : Nat} {t : Traced μ α} (inside : t.All (Event.Inside n)) :
    t.within n = t.result := if_pos inside

theorem within_outside {n : Nat} {t : Traced μ α} (outside : ¬ t.All (Event.Inside n)) :
    t.within n = .error .outOfBounds := if_neg outside

@[simp] theorem within_pure (a : α) : (pure a : Traced μ α).within n = .ok a :=
  within_inside (all_pure a)

@[simp] theorem within_lift (x : Except Fault α) : (lift x : Traced μ α).within n = x :=
  within_inside (all_lift x)

@[simp] theorem within_mark (note : μ) : (mark note).within n = .ok ⟨⟩ :=
  within_inside ((all_mark note).mpr trivial)

/-- A single read is a fault if it leaves the object. -/
theorem within_read {offset count : Nat} {a : α} :
    (⟨[.read offset count], .ok a⟩ : Traced μ α).within n =
      if offset + count ≤ n then .ok a else .error .outOfBounds := by
  rw [within]
  simp only [List.forall_mem_singleton, Event.Inside]

@[simp] theorem within_read8 (m : Mem) (i : Nat) :
    (read8 m i : Traced μ UInt8).within n = Block.read8 ⟨n, m⟩ i := within_read n

@[simp] theorem within_read16 (m : Mem) (i : Nat) :
    (read16 m i : Traced μ UInt16).within n = Block.read16 ⟨n, m⟩ i := within_read n

@[simp] theorem within_read32 (m : Mem) (i : Nat) :
    (read32 m i : Traced μ UInt32).within n = Block.read32 ⟨n, m⟩ i := within_read n

@[simp] theorem within_readBytes (m : Mem) (i k : Nat) :
    (readBytes m i k : Traced μ (List UInt8)).within n = Block.readBytes ⟨n, m⟩ i k := within_read n

/-- The first fault of a sequence is the first fault of its parts. -/
@[simp] theorem within_bind (t : Traced μ α) (f : α → Traced μ β) :
    (t >>= f).within n = t.within n >>= fun a => (f a).within n := by
  by_cases first : t.All (Event.Inside n)
  · rw [within_inside first]
    cases ended : t.result with
    | error fault =>
        rw [bind_error ended]
        exact within_inside first
    | ok a =>
        have split : (t >>= f).All (Event.Inside n) ↔ (f a).All (Event.Inside n) :=
          (all_bind_of_ok ended f).trans (and_iff_right first)
        by_cases rest : (f a).All (Event.Inside n)
        · rw [within_inside (split.mpr rest), bind_ok ended]
          exact (within_inside rest).symm
        · rw [within_outside (mt split.mp rest)]
          exact (within_outside rest).symm
  · have outside : ¬ (t >>= f).All (Event.Inside n) := fun all => first ((all_bind t f).mp all).1
    rw [within_outside first, within_outside outside]
    rfl

@[simp] theorem within_ite (c : Prop) [Decidable c] (t u : Traced μ α) :
    (if c then t else u).within n = if c then t.within n else u.within n :=
  apply_ite (within n) c t u

end Within

end Traced

end FrogOS.TracedAccess
