import FrogOS.ByteMemory
import FrogOS.LinkedChain
import FrogOS.Tiling

set_option autoImplicit false

namespace FrogOS

open ByteMemory LinkedChain Tiling

/-- What memory.c works on: the memory and its one global. A `memhdr` at `p`
keeps its size in the bytes `p .. p + 3` and its link in `p + 4 .. p + 7`. -/
structure Heap where
  mem : Mem
  highMem : UInt32

/-- `0xC0C00000`, where the pages that boot.S maps for the kernel end. -/
def arenaEnd : UInt32 := 0xC0C00000

/-- The mask is built from `size - 1` after promotion, so it has 32 bits. -/
def roundUp (addr : UInt32) (size : UInt16) : UInt32 :=
  (addr + (size.toUInt32 - 1)) &&& ~~~(size.toUInt32 - 1)

namespace Heap

def size (h : Heap) (p : UInt32) : UInt32 := load32 h.mem p.toNat

def next (h : Heap) (p : UInt32) : UInt32 := load32 h.mem (p.toNat + 4)

def setSize (h : Heap) (p value : UInt32) : Heap :=
  { h with mem := store32 h.mem p.toNat value }

def setNext (h : Heap) (p value : UInt32) : Heap :=
  { h with mem := store32 h.mem (p.toNat + 4) value }

end Heap

/-- `kernelEnd` is the address the linker gives the symbol of that name. -/
def initMem (kernelEnd : UInt32) (m : Mem) : Heap :=
  let h : Heap := { mem := m, highMem := roundUp kernelEnd 16 }
  let h := h.setSize h.highMem (arenaEnd - h.highMem)
  h.setNext h.highMem 0

/-- The branch of `alloc` that leaves `lost` bytes in front of the block. -/
def carveInside (h : Heap) (size mem lost : UInt32) : UInt32 × Heap :=
  let newMem := mem + lost + size
  let h := h.setNext newMem (h.next mem)
  let h := h.setSize newMem (h.size mem - (lost + size))
  let h := h.setSize mem lost
  let h := h.setNext mem newMem
  (mem + lost, h)

/-- The other branch: it carves at `mem`, but returns and moves `high_mem`. -/
def carveFront (h : Heap) (size mem : UInt32) : UInt32 × Heap :=
  let newMem := mem + size
  let h := h.setNext newMem (h.next mem)
  let h := h.setSize newMem (h.size mem - size)
  (h.highMem, { h with highMem := newMem })

/-- Bytes from a chunk's header to the next multiple of `align`. -/
def lost (mem : UInt32) (align : UInt16) : UInt32 := roundUp mem align - mem

def carve (h : Heap) (size : UInt32) (align : UInt16) (mem : UInt32) : UInt32 × Heap :=
  if lost mem align ≥ 16 then carveInside h size mem (lost mem align)
  else carveFront h size mem

/-- The loop of `alloc`; `none` when `fuel` iterations do not end it. -/
def allocLoop : Nat → UInt32 → UInt16 → UInt32 → Heap → Option (UInt32 × Heap)
  | 0, _, _, _, _ => none
  | fuel + 1, size, align, mem, h =>
      if mem = 0 then some (0, h)
      else if h.size mem ≥ size then
        if h.size mem - lost mem align > size then some (carve h size align mem)
        else allocLoop fuel size align (h.next mem) h
      else allocLoop fuel size align (h.next mem) h

/-- One more than the number of 16-byte units in the address space: a list of
distinct 16-aligned headers has fewer nodes. -/
def allocFuel : Nat := 2 ^ 28 + 1

/-- `none` stands for a call that never returns. -/
def alloc (size : UInt32) (align : UInt16) (h : Heap) : Option (UInt32 × Heap) :=
  allocLoop allocFuel (roundUp size 16) align h.highMem h

/-- A power of two that the 16-bit parameter can hold. -/
def PowerOfTwo (align : UInt16) : Prop := ∃ k ≤ 15, align.toNat = 2 ^ k

theorem and_not_mask (x k : Nat) (hx : x < 2 ^ 32) (hk : k ≤ 32) :
    x &&& (2 ^ 32 - 1 - (2 ^ k - 1)) = x / 2 ^ k * 2 ^ k := by
  have positive := Nat.two_pow_pos k
  have fits : 2 ^ k ≤ 2 ^ 32 := Nat.pow_le_pow_right (by decide) hk
  have mask : 2 ^ 32 - 1 - (2 ^ k - 1) = 2 ^ 32 - ((2 ^ k - 1) + 1) := by omega
  rw [mask, ← Nat.shiftLeft_eq, ← Nat.shiftRight_eq_div_pow]
  apply Nat.eq_of_testBit_eq
  intro i
  rw [Nat.testBit_and, Nat.testBit_two_pow_sub_succ (by omega), Nat.testBit_two_pow_sub_one,
    Nat.testBit_shiftLeft, Nat.testBit_shiftRight]
  by_cases low : i < k
  · have below : ¬ k ≤ i := Nat.not_le_of_lt low
    simp [low, below]
  · have above : k ≤ i := Nat.le_of_not_lt low
    have same : k + (i - k) = i := Nat.add_sub_cancel' above
    by_cases small : i < 32
    · simp [low, above, small, same]
    · have zero : x.testBit i = false :=
        Nat.testBit_lt_two_pow (Nat.lt_of_lt_of_le hx
          (Nat.pow_le_pow_right (by decide) (Nat.le_of_not_lt small)))
      simp [small, same, zero]

theorem roundUp_toNat (addr : UInt32) (size : UInt16) (k : Nat) (small : k ≤ 15)
    (power : size.toNat = 2 ^ k) :
    (roundUp addr size).toNat = (addr.toNat + (2 ^ k - 1)) % 2 ^ 32 / 2 ^ k * 2 ^ k := by
  have positive := Nat.two_pow_pos k
  have fits : 2 ^ k ≤ 2 ^ 15 := Nat.pow_le_pow_right (by decide) small
  have minus : (size.toUInt32 - 1).toNat = 2 ^ k - 1 := by
    rw [UInt32.toNat_sub, UInt16.toNat_toUInt32, power]
    change (2 ^ 32 - 1 + 2 ^ k) % 2 ^ 32 = _
    omega
  rw [roundUp, UInt32.toNat_and, UInt32.toNat_not, UInt32.toNat_add, minus]
  exact and_not_mask _ k (Nat.mod_lt _ (by decide)) (by omega)

/-- Rounding to 16 below the top of the address space. -/
theorem roundUp_16 (addr : UInt32) (room : addr.toNat + 15 < 2 ^ 32) :
    (roundUp addr 16).toNat = (addr.toNat + 15) / 16 * 16 := by
  have value := roundUp_toNat addr 16 4 (by decide) rfl
  rw [Nat.mod_eq_of_lt (by omega)] at value
  exact value

/-- The next multiple of a power of two, as far from an aligned header as the
alignment allows and again a multiple of 16 away from it. -/
theorem lost_spec (mem : UInt32) (align : UInt16) (power : PowerOfTwo align)
    (aligned : mem.toNat % 16 = 0) (room : mem.toNat + 2 ^ 15 ≤ 2 ^ 32) :
    (lost mem align).toNat % 16 = 0 ∧ align.toNat ∣ mem.toNat + (lost mem align).toNat ∧
      mem.toNat + (lost mem align).toNat < 2 ^ 32 := by
  obtain ⟨k, small, value⟩ := power
  have positive := Nat.two_pow_pos k
  have fits : 2 ^ k ≤ 2 ^ 15 := Nat.pow_le_pow_right (by decide) small
  have up := roundUp_toNat mem align k small value
  rw [Nat.mod_eq_of_lt (by omega)] at up
  have parts := Nat.div_add_mod (mem.toNat + (2 ^ k - 1)) (2 ^ k)
  have below := Nat.mod_lt (mem.toNat + (2 ^ k - 1)) positive
  rw [Nat.mul_comm] at parts
  have bound := (roundUp mem align).toNat_lt
  have distance : mem.toNat + (lost mem align).toNat = (roundUp mem align).toNat := by
    rw [lost, UInt32.toNat_sub]
    omega
  refine ⟨?_, ?_, by omega⟩
  · by_cases fine : k ≤ 4
    · -- Every power of two up to 16 divides the header's address already.
      obtain ⟨units, split⟩ := Nat.dvd_of_mod_eq_zero aligned
      have divides : 2 ^ k ∣ mem.toNat := by
        rw [split]
        exact Nat.dvd_trans (Nat.pow_dvd_pow 2 fine) (Nat.dvd_mul_right 16 units)
      obtain ⟨c, factor⟩ := divides
      have quotient : (mem.toNat + (2 ^ k - 1)) / 2 ^ k = c := by
        rw [factor, Nat.mul_add_div positive, Nat.div_eq_of_lt (by omega), Nat.add_zero]
      have same : (roundUp mem align).toNat = mem.toNat := by
        rw [up, quotient, factor, Nat.mul_comm]
      omega
    · have coarse : 16 ∣ 2 ^ k := Nat.pow_dvd_pow 2 (show 4 ≤ k by omega)
      have whole : 16 ∣ (roundUp mem align).toNat := by
        rw [up]
        exact Nat.dvd_trans coarse (Nat.dvd_mul_left _ _)
      omega
  · rw [distance, value, up]
    exact Nat.dvd_mul_left _ _

namespace Heap

/-- Headers at distinct multiples of 16 do not overlap. -/
theorem size_setSize (h : Heap) (p q value : UInt32) (hp : p.toNat % 16 = 0)
    (hq : q.toNat % 16 = 0) : (h.setSize p value).size q = if q = p then value else h.size q := by
  split
  · rename_i same
    rw [same]
    exact load32_store32 _ _ _
  · rename_i other
    have apart : q.toNat ≠ p.toNat := fun same => other (UInt32.toNat_inj.mp same)
    exact load32_frame (store32_frame _ _ _) (by omega)

theorem next_setNext (h : Heap) (p q value : UInt32) (hp : p.toNat % 16 = 0)
    (hq : q.toNat % 16 = 0) : (h.setNext p value).next q = if q = p then value else h.next q := by
  split
  · rename_i same
    rw [same]
    exact load32_store32 _ _ _
  · rename_i other
    have apart : q.toNat ≠ p.toNat := fun same => other (UInt32.toNat_inj.mp same)
    exact load32_frame (store32_frame _ _ _) (by omega)

theorem next_setSize (h : Heap) (p q value : UInt32) (hp : p.toNat % 16 = 0)
    (hq : q.toNat % 16 = 0) : (h.setSize p value).next q = h.next q :=
  load32_frame (store32_frame _ _ _) (by omega)

theorem size_setNext (h : Heap) (p q value : UInt32) (hp : p.toNat % 16 = 0)
    (hq : q.toNat % 16 = 0) : (h.setNext p value).size q = h.size q :=
  load32_frame (store32_frame _ _ _) (by omega)

/-- The addresses a chunk's header claims. -/
def span (h : Heap) (p : UInt32) : Span := ⟨p.toNat, (h.size p).toNat⟩

/-- The free list, header by header. -/
def FreeList (h : Heap) (free : List UInt32) : Prop := Chain h.next 0 h.highMem free

/-- The two tests of the loop; `size` is already rounded. -/
def Fits (h : Heap) (size : UInt32) (align : UInt16) (p : UInt32) : Prop :=
  size ≤ h.size p ∧ size < h.size p - lost p align

instance (h : Heap) (size : UInt32) (align : UInt16) (p : UInt32) :
    Decidable (h.Fits size align p) := inferInstanceAs (Decidable (_ ∧ _))

end Heap

theorem allocLoop_null (fuel : Nat) (size : UInt32) (align : UInt16) (h : Heap) :
    allocLoop (fuel + 1) size align 0 h = some (0, h) := by
  simp only [allocLoop, ↓reduceIte]

theorem allocLoop_fits (fuel : Nat) (size : UInt32) (align : UInt16) (h : Heap) (mem : UInt32)
    (nonnull : mem ≠ 0) (fits : h.Fits size align mem) :
    allocLoop (fuel + 1) size align mem h = some (carve h size align mem) := by
  simp only [allocLoop, nonnull, ge_iff_le, fits.1, gt_iff_lt, fits.2, ↓reduceIte]

theorem allocLoop_skips (fuel : Nat) (size : UInt32) (align : UInt16) (h : Heap) (mem : UInt32)
    (nonnull : mem ≠ 0) (full : ¬ h.Fits size align mem) :
    allocLoop (fuel + 1) size align mem h = allocLoop fuel size align (h.next mem) h := by
  simp only [allocLoop, nonnull, ge_iff_le, gt_iff_lt, ↓reduceIte]
  split
  · split
    · rename_i large larger
      exact absurd ⟨large, larger⟩ full
    · rfl
  · rfl

/-- First fit: over a finite list the loop carves the first chunk that passes
both tests, or returns null with nothing changed. -/
theorem allocLoop_first_fit (size : UInt32) (align : UInt16) (h : Heap) (free : List UInt32)
    (fuel : Nat) (enough : free.length < fuel) (mem : UInt32) (chain : Chain h.next 0 mem free) :
    ((∀ p ∈ free, ¬ h.Fits size align p) ∧ allocLoop fuel size align mem h = some (0, h)) ∨
    ∃ before p after, free = before ++ p :: after ∧ (∀ q ∈ before, ¬ h.Fits size align q) ∧
      h.Fits size align p ∧ allocLoop fuel size align mem h = some (carve h size align p) := by
  induction free generalizing fuel mem with
  | nil =>
      obtain rfl : mem = 0 := chain
      cases fuel with
      | zero => exact absurd enough (Nat.not_lt_zero _)
      | succ fuel => exact Or.inl ⟨by simp, allocLoop_null fuel size align h⟩
  | cons p free ih =>
      obtain ⟨rfl, nonnull, rest⟩ := chain
      cases fuel with
      | zero => exact absurd enough (Nat.not_lt_zero _)
      | succ fuel =>
          by_cases fits : h.Fits size align mem
          · exact Or.inr ⟨[], mem, free, rfl, by simp, fits,
              allocLoop_fits fuel size align h mem nonnull fits⟩
          · rw [allocLoop_skips fuel size align h mem nonnull fits]
            have short : free.length < fuel := by
              simp only [List.length_cons] at enough
              omega
            rcases ih fuel short (h.next mem) rest with
              ⟨none, result⟩ | ⟨before, p, after, split, none, found, result⟩
            · refine Or.inl ⟨?_, result⟩
              intro q member
              rcases List.mem_cons.mp member with rfl | inside
              · exact fits
              · exact none q inside
            · refine Or.inr ⟨mem :: before, p, after, by rw [split]; rfl, ?_, found, result⟩
              intro q member
              rcases List.mem_cons.mp member with rfl | inside
              · exact fits
              · exact none q inside

end FrogOS
