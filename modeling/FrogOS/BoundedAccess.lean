import FrogOS.ByteMemory

set_option autoImplicit false

namespace FrogOS.BoundedAccess

open ByteMemory

/-- Why a computation on bounded objects has no result: it left an object, or it never ends. -/
inductive Fault
  | outOfBounds
  | diverges
deriving DecidableEq, Repr

section Bind

variable {ε α β : Type} {x : Except ε α} {f : α → Except ε β} {b : β}

theorem ok_bind (a : α) (f : α → Except ε β) : (Except.ok a >>= f) = f a := rfl

/-- A computation has a result if its first part has one and the rest has one from there. -/
theorem bind_eq_ok : (x >>= f) = .ok b ↔ ∃ a, x = .ok a ∧ f a = .ok b := by
  cases x with
  | error fault => exact ⟨nofun, nofun⟩
  | ok a => exact ⟨fun rest => ⟨a, rfl, rest⟩, fun ⟨_, same, rest⟩ => by cases same; exact rest⟩

end Bind

/-- A read-only object of `size` bytes. -/
structure Block where
  size : Nat
  byte : Mem

def window (m : Mem) (address n : Nat) : Block :=
  { size := n, byte := fun i => m (address + i) }

@[simp] theorem window_size (m : Mem) (address n : Nat) : (window m address n).size = n := rfl

namespace Block

def read8 (b : Block) (i : Nat) : Except Fault UInt8 :=
  if i + 1 ≤ b.size then .ok (b.byte i) else .error .outOfBounds

def read16 (b : Block) (i : Nat) : Except Fault UInt16 :=
  if i + 2 ≤ b.size then .ok (load16 b.byte i) else .error .outOfBounds

def read32 (b : Block) (i : Nat) : Except Fault UInt32 :=
  if i + 4 ≤ b.size then .ok (load32 b.byte i) else .error .outOfBounds

def readBytes (b : Block) (i n : Nat) : Except Fault (List UInt8) :=
  if i + n ≤ b.size then .ok (bytes b.byte i n) else .error .outOfBounds

variable {b : Block} {i n : Nat}

theorem read8_ok (inside : i + 1 ≤ b.size) : b.read8 i = .ok (b.byte i) := if_pos inside

theorem read16_ok (inside : i + 2 ≤ b.size) : b.read16 i = .ok (load16 b.byte i) := if_pos inside

theorem read32_ok (inside : i + 4 ≤ b.size) : b.read32 i = .ok (load32 b.byte i) := if_pos inside

theorem readBytes_ok (inside : i + n ≤ b.size) : b.readBytes i n = .ok (bytes b.byte i n) :=
  if_pos inside

end Block

/-- A store of some bytes at an offset of an object. -/
structure Write where
  offset : Nat
  data : List UInt8

def Write.stop (w : Write) : Nat := w.offset + w.data.length

/-- A store into the object of `size` bytes at `base`. -/
def put (base size : Nat) (m : Mem) (w : Write) : Except Fault Mem :=
  if w.stop ≤ size then .ok (blit m (base + w.offset) (ofList w.data) 0 w.data.length)
  else .error .outOfBounds

/-- Stores one after the other. -/
def putAll (base size : Nat) (m : Mem) (ws : List Write) : Except Fault Mem :=
  ws.foldlM (put base size) m

/-- The two stores share no cell. -/
def Write.Apart (v w : Write) : Prop := v.stop ≤ w.offset ∨ w.stop ≤ v.offset

variable {base size : Nat} {m m' : Mem} {w : Write} {ws : List Write}

theorem put_ok (base : Nat) (m : Mem) (fits : w.stop ≤ size) :
    put base size m w = .ok (blit m (base + w.offset) (ofList w.data) 0 w.data.length) :=
  if_pos fits

theorem put_frame (done : put base size m w = .ok m') :
    Frame (base + w.offset) w.data.length m m' := by
  unfold put at done
  split at done
  · cases done
    exact blit_frame _ _ _ _ _
  · cases done

theorem put_within (done : put base size m w = .ok m') : w.stop ≤ size := by
  unfold put at done
  split at done
  · assumption
  · cases done

theorem put_data (done : put base size m w = .ok m') :
    bytes m' (base + w.offset) w.data.length = w.data := by
  unfold put at done
  split at done
  · cases done
    exact bytes_blit_ofList _ _ _
  · cases done

theorem putAll_cons (done : putAll base size m (w :: ws) = .ok m') :
    ∃ m₁, put base size m w = .ok m₁ ∧ putAll base size m₁ ws = .ok m' := by
  rw [putAll, List.foldlM_cons] at done
  cases first : put base size m w with
  | error fault =>
      rw [first] at done
      cases done
  | ok m₁ =>
      rw [first] at done
      exact ⟨m₁, rfl, done⟩

/-- Stores that fit succeed. -/
theorem putAll_ok (base : Nat) (m : Mem) (ws : List Write) (fits : ∀ w ∈ ws, w.stop ≤ size) :
    ∃ m', putAll base size m ws = .ok m' := by
  induction ws generalizing m with
  | nil => exact ⟨m, rfl⟩
  | cons w ws ih =>
      have first := put_ok base m (fits w List.mem_cons_self)
      obtain ⟨m', rest⟩ := ih (blit m (base + w.offset) (ofList w.data) 0 w.data.length)
        fun v member => fits v (List.mem_cons_of_mem w member)
      refine ⟨m', ?_⟩
      rw [putAll, List.foldlM_cons, first]
      exact rest

/-- A cell that no store covers keeps its value. -/
theorem putAll_other (done : putAll base size m ws = .ok m') (x : Nat)
    (outside : ∀ w ∈ ws, x < base + w.offset ∨ base + w.stop ≤ x) : m' x = m x := by
  induction ws generalizing m with
  | nil =>
      cases done
      rfl
  | cons w ws ih =>
      obtain ⟨m₁, first, rest⟩ := putAll_cons done
      rw [ih rest fun v member => outside v (List.mem_cons_of_mem w member)]
      have here := outside w List.mem_cons_self
      rw [Write.stop, ← Nat.add_assoc] at here
      exact put_frame first x here

theorem putAll_frame (done : putAll base size m ws = .ok m') : Frame base size m m' := by
  induction ws generalizing m with
  | nil =>
      cases done
      exact Frame.refl _ _ _
  | cons w ws ih =>
      obtain ⟨m₁, first, rest⟩ := putAll_cons done
      have within := put_within first
      rw [Write.stop] at within
      exact ((put_frame first).mono (Nat.le_add_right _ _) (by omega)).trans (ih rest)

theorem putAll_agree (done : putAll base size m ws = .ok m') (apart : ∀ v ∈ ws, v.Apart w) :
    Agree (base + w.offset) w.data.length m m' := by
  intro x lower upper
  apply putAll_other done
  intro v member
  have clear := apart v member
  rw [Write.Apart, Write.stop, Write.stop] at clear
  rw [Write.stop]
  omega

/-- What a store wrote is there at the end if no later store covers any of it. -/
theorem putAll_data (done : putAll base size m ws = .ok m') (i : Nat) (here : ws[i]? = some w)
    (apart : ∀ v ∈ ws.drop (i + 1), v.Apart w) :
    bytes m' (base + w.offset) w.data.length = w.data := by
  induction ws generalizing m i with
  | nil => cases here
  | cons v ws ih =>
      obtain ⟨m₁, first, rest⟩ := putAll_cons done
      cases i with
      | succ i => exact ih rest i here apart
      | zero =>
          obtain rfl : v = w := Option.some.inj here
          rw [bytes_congr (putAll_agree rest apart), put_data first]

/-- The same for one cell of a store, of which later stores may cover others. -/
theorem putAll_cell (done : putAll base size m ws = .ok m') (i : Nat) (here : ws[i]? = some w)
    (k : Nat) (inside : k < w.data.length)
    (later : ∀ v ∈ ws.drop (i + 1), w.offset + k < v.offset ∨ v.stop ≤ w.offset + k) :
    m' (base + w.offset + k) = ofList w.data k := by
  induction ws generalizing m i with
  | nil => cases here
  | cons v ws ih =>
      obtain ⟨m₁, first, rest⟩ := putAll_cons done
      cases i with
      | succ i => exact ih rest i here later
      | zero =>
          obtain rfl : v = w := Option.some.inj here
          rw [putAll_other rest]
          · rw [put_ok base m (put_within first)] at first
            cases first
            rw [blit_inside _ _ _ _ _ _ inside, Nat.zero_add]
          · intro u member
            have clear := later u member
            omega

end FrogOS.BoundedAccess
