import FrogOS.ByteMemory
import FrogOS.OwnedRing
import FrogOS.Paging

set_option autoImplicit false

namespace FrogOS

open ByteMemory

def pcnet32BufferSize : Nat := 1600

/-- The bytes of a descriptor that are ever used: 0–3, 4–5, 7 and 8–9 of its 16. -/
structure Descriptor where
  addr : UInt32
  bcnt : UInt16
  status : UInt8
  mcnt : UInt16
deriving DecidableEq, Repr

/-- One of the two rings of a card: descriptors, buffers, the driver's position and the packet
counter of the device. The memory is the kernel's view; the ring's part of it are `count` buffers
from `buffers` on. -/
structure Pcnet32Ring where
  des : Nat → Descriptor
  buffers : UInt32
  ptr : Nat
  count : Nat
  packets : UInt32
  mem : Mem

namespace Pcnet32Ring

/-- `buffers + idx * PCNET32_BUFFER_SIZE` in 32 bits. -/
def slot (r : Pcnet32Ring) (idx : Nat) : UInt32 :=
  r.buffers + UInt32.ofNat (idx * pcnet32BufferSize)

def setDe (r : Pcnet32Ring) (idx : Nat) (d : Descriptor) : Pcnet32Ring :=
  { r with des := fun k => if k = idx then d else r.des k }

end Pcnet32Ring

/-- The OWN bit: set while the descriptor belongs to the card. -/
def Descriptor.Owned (d : Descriptor) : Prop := d.status &&& 0x80 ≠ 0

instance (d : Descriptor) : Decidable d.Owned := inferInstanceAs (Decidable (_ ≠ _))

def pcnet32Driverowns (r : Pcnet32Ring) (idx : Nat) : Prop := (r.des idx).status &&& 0x80 = 0

instance (r : Pcnet32Ring) (idx : Nat) : Decidable (pcnet32Driverowns r idx) :=
  inferInstanceAs (Decidable (_ = _))

/-- The two's complement length field, with the four bits the card wants to be ones. -/
def lengthField (len : UInt16) : UInt16 := ((-len) &&& 0xfff) ||| 0xf000

/-- The same for either ring; only a receive descriptor is given to the card at once. -/
def pcnet32InitializeDe (physaddr : UInt32 → Option UInt32) (r : Pcnet32Ring) (idx : Nat)
    (isTx : Bool) : Option Pcnet32Ring := do
  let addr ← physaddr (r.slot idx)
  let status := if isTx then 0 else 0x80
  return r.setDe idx { addr, bcnt := lengthField 1600, status, mcnt := 0 }

/-- The loops of `probe_pcnet32` over the descriptors of a ring. -/
def initializeRing (physaddr : UInt32 → Option UInt32) (isTx : Bool) (r : Pcnet32Ring) :
    Option Pcnet32Ring :=
  (List.range r.count).foldlM (fun r idx => pcnet32InitializeDe physaddr r idx isTx) r

/-- The receive ring of `probe_pcnet32`. What `alloc` returned, and what the descriptors and the
memory held before, is given. -/
def probeRx (physaddr : UInt32 → Option UInt32) (rxBuffers : UInt32) (rdes : Nat → Descriptor)
    (m : Mem) : Option Pcnet32Ring :=
  let count := 2 ^ 6
  initializeRing physaddr false
    { des := rdes, buffers := rxBuffers, ptr := 0, count, packets := 0
      mem := fill m rxBuffers.toNat (count * pcnet32BufferSize) 0 }

/-- The kernel address at which a byte the card addresses can be seen. -/
def dmaAddress (physical : UInt32) : Nat := physical.toNat + 0xC0000000

/-- What a card takes a length field to mean. -/
def fieldLength (bcnt : UInt16) : Nat := 4096 - (bcnt &&& 0xfff).toNat

/-- The card's last step on a descriptor: it clears OWN. -/
def Pcnet32Ring.cardRelease (r : Pcnet32Ring) (idx : Nat) : Pcnet32Ring :=
  r.setDe idx { r.des idx with status := (r.des idx).status &&& 0x7f }

/-- A block of `count` buffers inside the arena of `alloc`. -/
structure BufferArea (buffers : UInt32) (count : Nat) : Prop where
  lower : 0xC0000000 ≤ buffers.toNat
  upper : buffers.toNat + count * pcnet32BufferSize ≤ 0xC0C00000

/-- The descriptors point at the ring's own buffers, as far as the card can tell. -/
structure Wired (r : Pcnet32Ring) (count : Nat) : Prop where
  size : r.count = count
  area : BufferArea r.buffers count
  points : ∀ k, k < count → dmaAddress (r.des k).addr = (r.slot k).toNat

namespace Pcnet32Ring

@[simp] theorem setDe_same (r : Pcnet32Ring) (idx : Nat) (d : Descriptor) :
    (r.setDe idx d).des idx = d := by
  simp only [setDe, ↓reduceIte]

theorem setDe_other (r : Pcnet32Ring) (idx k : Nat) (d : Descriptor) (other : k ≠ idx) :
    (r.setDe idx d).des k = r.des k := by
  simp only [setDe, other, ↓reduceIte]

end Pcnet32Ring

theorem BufferArea.slot_toNat {r : Pcnet32Ring} {count : Nat} (area : BufferArea r.buffers count)
    {k : Nat} (inside : k < count) : (r.slot k).toNat = r.buffers.toNat + k * 1600 := by
  have upper := area.upper
  unfold pcnet32BufferSize at upper
  rw [Pcnet32Ring.slot, UInt32.toNat_add, UInt32.toNat_ofNat', pcnet32BufferSize]
  omega

theorem fieldLength_lengthField (len : UInt16) (positive : 1 ≤ len.toNat)
    (small : len.toNat < 4096) : fieldLength (lengthField len) = len.toNat := by
  have low : (lengthField len &&& 0xfff).toNat = (-len).toNat % 2 ^ 12 := by
    rw [lengthField, UInt16.toNat_and, UInt16.toNat_or, UInt16.toNat_and]
    change (((-len).toNat &&& (2 ^ 12 - 1)) ||| 0xf000) &&& (2 ^ 12 - 1) = _
    rw [Nat.and_or_distrib_right, Nat.and_assoc, Nat.and_self, Nat.and_two_pow_sub_one_eq_mod]
    exact Nat.or_zero _
  have width : UInt16.size = 65536 := rfl
  rw [fieldLength, low, UInt16.toNat_neg, width]
  omega

theorem and_or_distrib (x y z : UInt8) : (x ||| y) &&& z = (x &&& z) ||| (y &&& z) := by
  apply UInt8.toNat_inj.mp
  simp only [UInt8.toNat_and, UInt8.toNat_or, Nat.and_or_distrib_right]

/-- STP and ENP leave the OWN bit alone. -/
theorem owned_mark (status : UInt8) : (status ||| 0x3) &&& 0x80 = status &&& 0x80 := by
  rw [and_or_distrib]
  exact UInt8.or_zero

theorem owned_give (status : UInt8) : (status ||| 0x80) &&& 0x80 ≠ 0 := by
  rw [and_or_distrib]
  intro clear
  exact absurd (UInt8.or_eq_zero_iff.mp clear).2 (by decide)

theorem owned_clear (status : UInt8) : (status &&& 0x7f) &&& 0x80 = 0 := by
  rw [UInt8.and_assoc]
  exact UInt8.and_zero

/-- Nothing but descriptor and buffer `k` differ, and the descriptor still points at the buffer. -/
structure SameBut (k : Nat) (r r' : Pcnet32Ring) : Prop where
  buffers : r'.buffers = r.buffers
  count : r'.count = r.count
  ptr : r'.ptr = r.ptr
  others : ∀ i, i ≠ k → r'.des i = r.des i
  addr : (r'.des k).addr = (r.des k).addr
  memory : Frame (r.slot k).toNat 1600 r.mem r'.mem

section SameBut

variable {r r' : Pcnet32Ring} {k i count : Nat}

theorem sameBut_setDe (r : Pcnet32Ring) (k : Nat) (d : Descriptor) (addr : d.addr = (r.des k).addr) :
    SameBut k r (r.setDe k d) := by
  refine ⟨rfl, rfl, rfl, fun i other => Pcnet32Ring.setDe_other r k i d other, ?_, Frame.refl _ _ _⟩
  rw [Pcnet32Ring.setDe_same, addr]

theorem sameBut_cardRelease (r : Pcnet32Ring) (k : Nat) : SameBut k r (r.cardRelease k) :=
  sameBut_setDe r k _ rfl

theorem SameBut.slot (same : SameBut k r r') (i : Nat) : r'.slot i = r.slot i := by
  unfold Pcnet32Ring.slot
  rw [same.buffers]

theorem SameBut.wired (same : SameBut k r r') (wired : Wired r count) : Wired r' count := by
  refine ⟨same.count.trans wired.size, by rw [same.buffers]; exact wired.area, ?_⟩
  intro i inside
  rw [same.slot i, ← wired.points i inside]
  by_cases here : i = k
  · rw [here, same.addr]
  · rw [same.others i here]

/-- Different buffers of a ring share no byte. -/
theorem BufferArea.apart (area : BufferArea r.buffers count) (insideK : k < count)
    (insideI : i < count) (other : i ≠ k) :
    (r.slot i).toNat + 1600 ≤ (r.slot k).toNat ∨ (r.slot k).toNat + 1600 ≤ (r.slot i).toNat := by
  rw [area.slot_toNat insideK, area.slot_toNat insideI]
  omega

theorem SameBut.agree (same : SameBut k r r') (area : BufferArea r.buffers count)
    (insideK : k < count) (insideI : i < count) (other : i ≠ k) :
    Agree (r.slot i).toNat 1600 r.mem r'.mem :=
  same.memory.agree (area.apart insideK insideI other)

theorem SameBut.bcnt (same : SameBut k r r') (kept : (r'.des k).bcnt = (r.des k).bcnt) (i : Nat) :
    (r'.des i).bcnt = (r.des i).bcnt := by
  by_cases here : i = k
  · rw [here]
    exact kept
  · rw [same.others i here]

/-- A descriptor has one owner. -/
theorem ne_of_owners (mine : pcnet32Driverowns r i) (owned : (r.des k).Owned) : i ≠ k := by
  intro here
  rw [here] at mine
  exact owned mine

theorem not_owned : ¬ (r.des k).Owned ↔ pcnet32Driverowns r k :=
  Decidable.not_not

theorem driverowns_congr (same : r'.des k = r.des k) :
    pcnet32Driverowns r' k ↔ pcnet32Driverowns r k := by
  unfold pcnet32Driverowns
  rw [same]

end SameBut

/-- The descriptor `pcnet32_initialize_de` leaves at `idx` when the tables map the arena. -/
def freshDe (r : Pcnet32Ring) (isTx : Bool) (idx : Nat) : Descriptor :=
  { addr := r.slot idx - 0xC0000000, bcnt := lengthField 1600
    status := if isTx then 0 else 0x80, mcnt := 0 }

theorem inKernel_slot {r : Pcnet32Ring} {count k : Nat} (area : BufferArea r.buffers count)
    (inside : k < count) : InKernel (r.slot k) := by
  have lower := area.lower
  have upper := area.upper
  unfold pcnet32BufferSize at upper
  rw [InKernel, area.slot_toNat inside]
  omega

theorem initializeRing_eq {physaddr : UInt32 → Option UInt32}
    (maps : ∀ v, InKernel v → physaddr v = some (v - 0xC0000000)) (isTx : Bool)
    (r : Pcnet32Ring) (area : BufferArea r.buffers r.count) :
    initializeRing physaddr isTx r =
      some { r with des := fun k => if k < r.count then freshDe r isTx k else r.des k } := by
  have upTo : ∀ n ≤ r.count,
      (List.range n).foldlM (fun r idx => pcnet32InitializeDe physaddr r idx isTx) r =
        some { r with des := fun k => if k < n then freshDe r isTx k else r.des k } := by
    intro n
    induction n with
    | zero =>
        intro _
        simp only [List.range_zero, List.foldlM_nil, Nat.not_lt_zero, ↓reduceIte, Option.pure_def]
    | succ n ih =>
        intro inside
        rw [List.range_succ, List.foldlM_append, ih (Nat.le_of_succ_le inside)]
        simp only [List.foldlM_cons, List.foldlM_nil, pcnet32InitializeDe, Pcnet32Ring.slot,
          Option.bind_eq_bind, Option.bind_some, Option.pure_def]
        have mapped := maps (r.slot n) (inKernel_slot area inside)
        rw [Pcnet32Ring.slot] at mapped
        rw [mapped, Option.bind_some, Option.bind_some, Pcnet32Ring.setDe]
        refine congrArg some (congrArg (fun des => { r with des }) (funext fun k => ?_))
        by_cases last : k = n
        · simp only [last, freshDe, Pcnet32Ring.slot, Nat.lt_succ_self, ↓reduceIte]
        · simp only [last, show (k < n + 1 ↔ k < n) by omega, ↓reduceIte]
  exact upTo r.count (Nat.le_refl _)

theorem dmaAddress_sub {v : UInt32} (inside : InKernel v) :
    dmaAddress (v - 0xC0000000) = v.toNat := by
  have offset : (0xC0000000 : UInt32).toNat = 0xC0000000 := by decide
  have ordered : (0xC0000000 : UInt32) ≤ v :=
    UInt32.le_iff_toNat_le.mpr (by rw [offset]; exact inside.1)
  rw [dmaAddress, UInt32.toNat_sub_of_le _ _ ordered, offset]
  exact Nat.sub_add_cancel inside.1

/-- The ring after `probe_pcnet32`: every descriptor fresh, everything else as it was set up. -/
theorem initializeRing_wired (physaddr : UInt32 → Option UInt32)
    (maps : ∀ v, InKernel v → physaddr v = some (v - 0xC0000000)) (isTx : Bool)
    (r : Pcnet32Ring) (area : BufferArea r.buffers r.count) :
    ∃ des, initializeRing physaddr isTx r = some { r with des } ∧ Wired { r with des } r.count ∧
      ∀ k, k < r.count → des k = freshDe r isTx k := by
  refine ⟨_, initializeRing_eq maps isTx r area, ⟨rfl, area, ?_⟩, ?_⟩
  · intro k inside
    simp only [inside, ↓reduceIte, freshDe]
    exact dmaAddress_sub (inKernel_slot area inside)
  · intro k inside
    simp only [inside, ↓reduceIte]

section Boot

variable (bss : BootBss) (ram : Ram)

/-- `get_physaddr` over the tables of boot.S. -/
def bootPhysaddr : UInt32 → Option UInt32 := getPhysaddr (bootTables bss ram) (bootCr3 bss)

theorem probeRx_ready {rxBuffers : UInt32} (rdes : Nat → Descriptor) (m : Mem)
    (area : BufferArea rxBuffers (2 ^ 6)) :
    ∃ r, probeRx (bootPhysaddr bss ram) rxBuffers rdes m = some r ∧ Wired r (2 ^ 6) ∧ r.ptr = 0 ∧
      r.packets = 0 ∧ (∀ k, k < 2 ^ 6 → r.des k = freshDe r false k) ∧
      ∀ k, k < 2 ^ 6 → ∀ i, i < 1600 → r.mem ((r.slot k).toNat + i) = 0 := by
  obtain ⟨des, ends, wired, fresh⟩ := initializeRing_wired
    (bootPhysaddr bss ram) (fun v inside => getPhysaddr_kernel bss ram inside) false
    { des := rdes, buffers := rxBuffers, ptr := 0, count := 2 ^ 6, packets := 0
      mem := fill m rxBuffers.toNat (2 ^ 6 * pcnet32BufferSize) 0 } area
  refine ⟨_, ends, wired, rfl, rfl, fresh, ?_⟩
  intro k inside i small
  rw [wired.area.slot_toNat inside]
  change fill m rxBuffers.toNat (2 ^ 6 * pcnet32BufferSize) 0 (rxBuffers.toNat + k * 1600 + i) = 0
  apply fill_inside
  · omega
  · unfold pcnet32BufferSize
    omega

end Boot

end FrogOS
