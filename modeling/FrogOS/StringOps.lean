import FrogOS.BoundedAccess

set_option autoImplicit false

namespace FrogOS.StringOps

open ByteMemory BoundedAccess

/-- The object an instruction works on: `size` cells of the memory from `base` on. -/
structure Object where
  base : Nat
  size : Nat

namespace Object

/-- The `n` cells from `address` on belong to the object. -/
def Holds (o : Object) (address n : Nat) : Prop :=
  o.base ≤ address ∧ address + n ≤ o.base + o.size

instance (o : Object) (address n : Nat) : Decidable (o.Holds address n) :=
  inferInstanceAs (Decidable (_ ∧ _))

def load8 (o : Object) (m : Mem) (address : Nat) : Except Fault UInt8 :=
  if o.Holds address 1 then .ok (m address) else .error .outOfBounds

def store8 (o : Object) (m : Mem) (address : Nat) (value : UInt8) : Except Fault Mem :=
  if o.Holds address 1 then .ok (ByteMemory.store8 m address value) else .error .outOfBounds

def store16 (o : Object) (m : Mem) (address : Nat) (value : UInt16) : Except Fault Mem :=
  if o.Holds address 2 then .ok (ByteMemory.store16 m address value) else .error .outOfBounds

/-- `cld; rep movsb`: `n` bytes, one at a time, at rising addresses. -/
def repMovsb (o : Object) : Nat → Nat → Nat → Mem → Except Fault Mem
  | 0, _, _, m => .ok m
  | n + 1, dst, src, m => do
      let value ← o.load8 m src
      let stored ← o.store8 m dst value
      o.repMovsb n (dst + 1) (src + 1) stored

/-- `cld; rep stosw`: `n` 16-bit cells at rising addresses. -/
def repStosw (o : Object) (value : UInt16) : Nat → Nat → Mem → Except Fault Mem
  | 0, _, m => .ok m
  | n + 1, dst, m => do
      let stored ← o.store16 m dst value
      o.repStosw value n (dst + 2) stored

variable {o : Object} {n k dst src address : Nat} {m m' : Mem}

theorem Holds.part (whole : o.Holds address n) {start : Nat} (lower : address ≤ start)
    (upper : start + k ≤ address + n) : o.Holds start k := by
  have inside := And.intro whole.1 whole.2
  constructor <;> omega

theorem load8_ok (inside : o.Holds address 1) : o.load8 m address = .ok (m address) :=
  if_pos inside

theorem store8_ok (inside : o.Holds address 1) (value : UInt8) :
    o.store8 m address value = .ok (ByteMemory.store8 m address value) :=
  if_pos inside

theorem store16_ok (inside : o.Holds address 2) (value : UInt16) :
    o.store16 m address value = .ok (ByteMemory.store16 m address value) :=
  if_pos inside

/-- One byte more of a copy to lower addresses: the cells still to be read are untouched. -/
theorem blit_succ (m : Mem) (n : Nat) (forward : dst ≤ src) :
    blit (ByteMemory.store8 m dst (m src)) (dst + 1) (ByteMemory.store8 m dst (m src)) (src + 1) n =
      blit m dst m src (n + 1) := by
  funext x
  by_cases first : x = dst
  · have absent : ¬ (dst + 1 ≤ x ∧ x < dst + 1 + n) := by omega
    have present : dst ≤ x ∧ x < dst + (n + 1) := by omega
    simp only [blit, absent, present, and_self, ↓reduceIte]
    rw [first, store8_same, Nat.sub_self, Nat.add_zero]
  · by_cases later : dst + 1 ≤ x ∧ x < dst + 1 + n
    · have present : dst ≤ x ∧ x < dst + (n + 1) := by omega
      have position : src + 1 + (x - (dst + 1)) = src + (x - dst) := by omega
      have unread : src + (x - dst) ≠ dst := by omega
      simp only [blit, later, present, and_self, ↓reduceIte]
      rw [position, store8_other _ _ _ _ unread]
    · have absent : ¬ (dst ≤ x ∧ x < dst + (n + 1)) := by omega
      simp only [blit, later, absent, ↓reduceIte]
      exact store8_other _ _ _ _ first

/-- A forward copy to lower addresses moves what the memory held before it, also
where the two ranges overlap. -/
theorem repMovsb_ok (source : o.Holds src n) (target : o.Holds dst n) (forward : dst ≤ src) :
    o.repMovsb n dst src m = .ok (blit m dst m src n) := by
  induction n generalizing dst src m with
  | zero =>
      have nothing : blit m dst m src 0 = m := by
        funext x
        have absent : ¬ (dst ≤ x ∧ x < dst + 0) := by omega
        simp only [blit, absent, ↓reduceIte]
      rw [nothing]
      rfl
  | succ n ih =>
      have reads : o.Holds src 1 := source.part (Nat.le_refl _) (by omega)
      have writes : o.Holds dst 1 := target.part (Nat.le_refl _) (by omega)
      have sourceRest : o.Holds (src + 1) n := source.part (by omega) (by omega)
      have targetRest : o.Holds (dst + 1) n := target.part (by omega) (by omega)
      rw [repMovsb, load8_ok reads, ok_bind, store8_ok writes, ok_bind,
        ih sourceRest targetRest (Nat.succ_le_succ forward), blit_succ m n forward]

/-- The loop stores its value in each of the cells and changes no other. -/
theorem repStosw_ok (m : Mem) (value : UInt16) (target : o.Holds dst (2 * n)) :
    ∃ m', o.repStosw value n dst m = .ok m' ∧ Frame dst (2 * n) m m' ∧
      ∀ i, i < n → load16 m' (dst + 2 * i) = value := by
  induction n generalizing dst m with
  | zero =>
      refine ⟨m, rfl, Frame.refl _ _ _, ?_⟩
      intro i absent
      exact absurd absent (Nat.not_lt_zero i)
  | succ n ih =>
      have here : o.Holds dst 2 := target.part (Nat.le_refl _) (by omega)
      have rest : o.Holds (dst + 2) (2 * n) := target.part (by omega) (by omega)
      obtain ⟨m', done, frame, filled⟩ := ih (ByteMemory.store16 m dst value) rest
      refine ⟨m', ?_, ?_, ?_⟩
      · rw [repStosw, store16_ok here, ok_bind]
        exact done
      · have first := store16_frame m dst value
        exact (first.mono (Nat.le_refl _) (by omega)).trans (frame.mono (by omega) (by omega))
      · intro i inside
        cases i with
        | zero =>
            have kept : Agree dst 2 (ByteMemory.store16 m dst value) m' :=
              frame.agree (Or.inl (Nat.le_refl _))
            show load16 m' dst = value
            rw [load16_congr kept, load16_store16]
        | succ i =>
            have position : dst + 2 * (i + 1) = dst + 2 + 2 * i := by omega
            rw [position]
            exact filled i (by omega)

/-- What a copy leaves in a 16-bit cell of its target. -/
theorem load16_blit {i : Nat} (inside : 2 * i + 2 ≤ n) :
    load16 (blit m dst m src n) (dst + 2 * i) = load16 m (src + 2 * i) := by
  unfold load16
  rw [Nat.add_assoc dst, blit_inside _ _ _ _ _ _ (by omega), blit_inside _ _ _ _ _ _ (by omega),
    Nat.add_assoc src]

end Object

/-- `cld; repe cmpsb`: `n` pairs of bytes at rising addresses as long as they are equal. Without a
pair the zero flag stays as it was. -/
def repeCmpsb (s1 s2 : Block) : Nat → Nat → Bool → Except Fault Bool
  | 0, _, zf => .ok zf
  | n + 1, i, _ => do
      let first ← s1.read8 i
      let second ← s2.read8 i
      if first = second then repeCmpsb s1 s2 n (i + 1) true else .ok false

/-- With the zero flag set beforehand the compare leaves it set if and only if all pairs are
equal. -/
theorem repeCmpsb_ok {s1 s2 : Block} {n i : Nat} (first : i + n ≤ s1.size)
    (second : i + n ≤ s2.size) :
    repeCmpsb s1 s2 n i true =
      .ok (decide (∀ j, j < n → s1.byte (i + j) = s2.byte (i + j))) := by
  induction n generalizing i with
  | zero => simp [repeCmpsb]
  | succ n ih =>
      rw [repeCmpsb, Block.read8_ok (by omega), ok_bind, Block.read8_ok (by omega), ok_bind]
      by_cases same : s1.byte i = s2.byte i
      · rw [if_pos same, ih (by omega) (by omega)]
        congr 1
        apply decide_eq_decide.mpr
        constructor
        · intro rest j inside
          cases j with
          | zero => exact same
          | succ j =>
              have later := rest j (Nat.lt_of_succ_lt_succ inside)
              rwa [Nat.add_assoc, Nat.add_comm 1 j] at later
        · intro all j inside
          have later := all (j + 1) (Nat.succ_lt_succ inside)
          rwa [Nat.add_assoc, Nat.add_comm 1 j]
      · rw [if_neg same]
        congr 1
        symm
        apply decide_eq_false
        intro all
        exact same (all 0 (Nat.succ_pos n))

end FrogOS.StringOps
