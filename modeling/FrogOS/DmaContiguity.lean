import FrogOS.HeapBump
import FrogOS.PagingAgreement
import FrogOS.Pcnet32

set_option autoImplicit false

namespace FrogOS

open ByteMemory LinkedChain

/-- A block `alloc` returned, with the size it was asked for. -/
structure DmaBlock where
  start : UInt32
  size : UInt32
deriving DecidableEq, Repr

/-- The heap after any sequence of unaligned calls of `alloc`, with the blocks returned. Between
two calls anything may be written but the header of the chunk that is left. -/
inductive BlockRun (kernelEnd : UInt32) : Heap → List DmaBlock → Prop
  | start (m : Mem) : BlockRun kernelEnd (initMem kernelEnd m) []
  | alloc {h h' : Heap} {blocks : List DmaBlock} {size ret : UInt32}
      (run : BlockRun kernelEnd h blocks) (positive : 1 ≤ size.toNat)
      (bounded : size.toNat ≤ 0xC00000) (returns : alloc size 1 h = some (ret, h')) :
      BlockRun kernelEnd h' (if ret = 0 then blocks else ⟨ret, size⟩ :: blocks)
  | write {h : Heap} {blocks : List DmaBlock} {mem : Mem} (run : BlockRun kernelEnd h blocks)
      (kept : Agree h.highMem.toNat 8 h.mem mem) : BlockRun kernelEnd { h with mem } blocks

/-- What a kernel that ends within the last 16 bytes below the arena's end leaves: a chunk of
size 0 at that end. -/
structure Exhausted (h : Heap) : Prop where
  head : h.highMem = arenaEnd
  size : h.size arenaEnd = 0
  last : h.next arenaEnd = 0

section Exhausted

variable {h : Heap}

theorem Exhausted.congr (none : Exhausted h) {mem : Mem}
    (kept : Agree h.highMem.toNat 8 h.mem mem) : Exhausted { h with mem } := by
  rw [none.head] at kept
  have size : ({ h with mem } : Heap).size arenaEnd = h.size arenaEnd :=
    load32_congr fun x lower upper => kept x lower (by omega)
  have next : ({ h with mem } : Heap).next arenaEnd = h.next arenaEnd :=
    load32_congr fun x lower upper => kept x (by omega) (by omega)
  exact ⟨none.head, by rw [size, none.size], by rw [next, none.last]⟩

theorem alloc_exhausted (none : Exhausted h) (size : UInt32) (positive : 1 ≤ size.toNat)
    (bounded : size.toNat ≤ 0xC00000) : alloc size 1 h = some (0, h) := by
  have rounded := roundUp_16 size (by omega)
  have list : Chain h.next 0 h.highMem [arenaEnd] := ⟨none.head, by decide, none.last⟩
  have enough : 1 < allocFuel := by decide
  have full : ¬ h.Fits (roundUp size 16) 1 arenaEnd := by
    intro fits
    have small := UInt32.le_iff_toNat_le.mp fits.1
    rw [none.size] at small
    change (roundUp size 16).toNat ≤ 0 at small
    omega
  rcases allocLoop_first_fit (roundUp size 16) 1 h [arenaEnd] allocFuel enough h.highMem list with
    ⟨-, null⟩ | ⟨before, p, after, split, -, fits, -⟩
  · exact null
  · have member : p ∈ [arenaEnd] := by
      rw [split]
      exact List.mem_append_right _ List.mem_cons_self
    rw [List.mem_singleton.mp member] at fits
    exact absurd fits full

theorem initMem_exhausted {kernelEnd : UInt32} (m : Mem)
    (lower : 0xC0C00000 < kernelEnd.toNat + 16) (upper : kernelEnd.toNat ≤ 0xC0C00000) :
    Exhausted (initMem kernelEnd m) := by
  have rounded := roundUp_16 kernelEnd (by omega)
  have edge : arenaEnd.toNat = 0xC0C00000 := rfl
  have top : roundUp kernelEnd 16 = arenaEnd := by
    apply UInt32.toNat_inj.mp
    omega
  have aligned : arenaEnd.toNat % 16 = 0 := rfl
  rw [initMem_eq, top]
  refine ⟨rfl, ?_, ?_⟩
  · rw [Heap.size_setNext _ _ _ _ aligned aligned, Heap.size_setSize _ _ _ _ aligned aligned,
      if_pos rfl, UInt32.sub_self]
  · rw [Heap.next_setNext _ _ _ _ aligned aligned, if_pos rfl]

end Exhausted

/-- A block lies in the pages that boot.S maps and starts at a multiple of 16. -/
structure InArena (block : DmaBlock) : Prop where
  nonempty : 0 < block.size.toNat
  aligned : block.start.toNat % 16 = 0
  lower : 0xC0000000 ≤ block.start.toNat
  upper : block.start.toNat + block.size.toNat ≤ 0xC0C00000

section Run

variable {kernelEnd : UInt32} {h : Heap} {blocks : List DmaBlock}

theorem BlockRun.inv (run : BlockRun kernelEnd h blocks) (lower : 0xC0100000 ≤ kernelEnd.toNat)
    (upper : kernelEnd.toNat ≤ 0xC0C00000) :
    ((∃ top, Bump h top) ∨ Exhausted h) ∧ ∀ block ∈ blocks, InArena block := by
  have edge : arenaEnd.toNat = 0xC0C00000 := rfl
  induction run with
  | start m =>
      refine ⟨?_, fun _ member => absurd member List.not_mem_nil⟩
      by_cases room : kernelEnd.toNat + 16 ≤ arenaEnd.toNat
      · exact Or.inl ⟨_, initMem_bump kernelEnd m ⟨lower, room⟩⟩
      · exact Or.inr (initMem_exhausted m (by omega) upper)
  | @alloc h h' blocks size ret run positive bounded returns ih =>
      obtain ⟨state, inside⟩ := ih
      rcases state with ⟨top, bump⟩ | none
      · rcases alloc_bump bump size positive (by omega) with
          ⟨room, next, called, moved, -⟩ | ⟨-, null⟩
        · obtain ⟨same, rfl⟩ := Prod.mk.inj (Option.some.inj (called.symm.trans returns))
          subst same
          refine ⟨Or.inl ⟨_, moved⟩, ?_⟩
          rw [if_neg bump.nonnull]
          intro block member
          rcases List.mem_cons.mp member with rfl | old
          · have rounded := roundUp_16 size (by omega)
            have bound := bump.upper
            refine ⟨positive, bump.aligned, bump.lower, ?_⟩
            change top.toNat + size.toNat ≤ 0xC0C00000
            omega
          · exact inside block old
        · obtain ⟨same, rfl⟩ := Prod.mk.inj (Option.some.inj (null.symm.trans returns))
          rw [if_pos same.symm]
          exact ⟨Or.inl ⟨top, bump⟩, inside⟩
      · have null := alloc_exhausted none size positive bounded
        obtain ⟨same, rfl⟩ := Prod.mk.inj (Option.some.inj (null.symm.trans returns))
        rw [if_pos same.symm]
        exact ⟨Or.inr none, inside⟩
  | write run kept ih =>
      obtain ⟨state, inside⟩ := ih
      refine ⟨?_, inside⟩
      rcases state with ⟨top, bump⟩ | none
      · rw [bump.head] at kept
        exact Or.inl ⟨top, bump.congr rfl kept⟩
      · exact Or.inr (none.congr kept)

end Run

section Translation

variable (bss : BootBss) (ram : Ram) {block : DmaBlock}

/-- The processor's walk over the tables of boot.S. -/
def bootWalk : UInt32 → Option UInt32 := mmuWalk (bootTables bss ram) (bootCr3 bss)

theorem InArena.byte_toNat (inside : InArena block) {i : Nat} (small : i < block.size.toNat) :
    (block.start + UInt32.ofNat i).toNat = block.start.toNat + i := by
  have upper := inside.upper
  have bound := block.size.toNat_lt
  rw [UInt32.toNat_add, UInt32.toNat_ofNat']
  omega

theorem kernel_sub_toNat {v : UInt32} (inside : InKernel v) :
    (v - 0xC0000000).toNat = v.toNat - 0xC0000000 := by
  have offset : (0xC0000000 : UInt32).toNat = 0xC0000000 := by decide
  have ordered : (0xC0000000 : UInt32) ≤ v :=
    UInt32.le_iff_toNat_le.mpr (by rw [offset]; exact inside.1)
  rw [UInt32.toNat_sub_of_le _ _ ordered, offset]

theorem kernel_sub_add (v i : UInt32) : v - 0xC0000000 + i = v + i - 0xC0000000 := by
  rw [UInt32.sub_eq_add_neg, UInt32.sub_eq_add_neg, UInt32.add_assoc, UInt32.add_assoc,
    UInt32.add_comm (-0xC0000000)]

/-- In the kernel's view the processor and `get_physaddr` find the same byte. -/
theorem translate_kernel {v : UInt32} (inside : InKernel v) :
    bootWalk bss ram v = some (v - 0xC0000000) ∧
      bootPhysaddr bss ram v = some (v - 0xC0000000) := by
  obtain ⟨p, walk, value⟩ := mmuWalk_kernel bss ram inside
  have same : p = v - 0xC0000000 := by
    apply UInt32.toNat_inj.mp
    rw [value, kernel_sub_toNat inside]
  rw [same] at walk
  exact ⟨walk, getPhysaddr_kernel bss ram inside⟩

theorem InArena.inKernel (inside : InArena block) {i : Nat} (small : i < block.size.toNat) :
    InKernel (block.start + UInt32.ofNat i) := by
  have lower := inside.lower
  have upper := inside.upper
  rw [InKernel, inside.byte_toNat small]
  omega

/-- One translation of the block's start serves the whole block: every byte of it is mapped where
counting on from that address leads, for the processor and for `get_physaddr`. -/
def Contiguous (block : DmaBlock) : Prop :=
  ∃ base, bootPhysaddr bss ram block.start = some base ∧ base.toNat % 16 = 0 ∧
    ∀ i, i < block.size.toNat →
      (block.start + UInt32.ofNat i).toNat = block.start.toNat + i ∧
      (base + UInt32.ofNat i).toNat = block.start.toNat + i - 0xC0000000 ∧
      bootWalk bss ram (block.start + UInt32.ofNat i) = some (base + UInt32.ofNat i) ∧
      bootPhysaddr bss ram (block.start + UInt32.ofNat i) = some (base + UInt32.ofNat i)

theorem InArena.contiguous (inside : InArena block) : Contiguous bss ram block := by
  have lower := inside.lower
  have aligned := inside.aligned
  have first := inside.inKernel inside.nonempty
  have zero : block.start + UInt32.ofNat 0 = block.start := UInt32.add_zero _
  rw [zero] at first
  have start := translate_kernel bss ram first
  have value := kernel_sub_toNat first
  refine ⟨_, start.2, by omega, ?_⟩
  intro i small
  have place := inside.inKernel small
  have byte := translate_kernel bss ram place
  have address := inside.byte_toNat small
  have moved := kernel_sub_toNat place
  rw [address] at moved
  rw [kernel_sub_add]
  exact ⟨address, moved, byte⟩

/-- The descriptors of a ring whose buffers fill a block give the card, for every byte of every
buffer, the address the driver's own access to that byte is mapped to. -/
def DescriptorsDenote (r : Pcnet32Ring) (isTx : Bool) : Prop :=
  ∃ r', initializeRing (bootPhysaddr bss ram) isTx r = some r' ∧
    ∀ k, k < r.count → ∀ j, j < pcnet32BufferSize →
      bootWalk bss ram (r.slot k + UInt32.ofNat j) = some ((r'.des k).addr + UInt32.ofNat j)

theorem InArena.denotes (inside : InArena block) (r : Pcnet32Ring) (isTx : Bool)
    (buffers : r.buffers = block.start) (fits : r.count * pcnet32BufferSize ≤ block.size.toNat) :
    DescriptorsDenote bss ram r isTx := by
  have lower := inside.lower
  have upper := inside.upper
  have area : BufferArea r.buffers r.count := by
    rw [buffers]
    exact ⟨lower, by omega⟩
  obtain ⟨des, ends, -, fresh⟩ := initializeRing_wired (bootPhysaddr bss ram)
    (fun v mapped => getPhysaddr_kernel bss ram mapped) isTx r area
  refine ⟨_, ends, ?_⟩
  intro k small j byte
  have slot := area.slot_toNat small
  have room : (k + 1) * pcnet32BufferSize ≤ r.count * pcnet32BufferSize :=
    Nat.mul_le_mul_right _ small
  unfold pcnet32BufferSize at room byte fits
  rw [buffers] at slot
  have address : (r.slot k + UInt32.ofNat j).toNat = (r.slot k).toNat + j := by
    rw [UInt32.toNat_add, UInt32.toNat_ofNat']
    omega
  have place : InKernel (r.slot k + UInt32.ofNat j) := by
    rw [InKernel, address]
    omega
  have same : (des k).addr + UInt32.ofNat j = r.slot k + UInt32.ofNat j - 0xC0000000 := by
    rw [fresh k small]
    exact kernel_sub_add (r.slot k) (UInt32.ofNat j)
  change bootWalk bss ram _ = some ((des k).addr + UInt32.ofNat j)
  rw [same]
  exact (translate_kernel bss ram place).1

/-- Over the tables boot.S leaves, every block any sequence of unaligned calls returns is
physically contiguous at a multiple of 16, so what the driver translates once denotes the whole
block, and the descriptors of a ring denote all of its buffers. -/
theorem alloc_blocks_serve_dma {kernelEnd : UInt32} {h : Heap} {blocks : List DmaBlock}
    (lower : 0xC0100000 ≤ kernelEnd.toNat) (upper : kernelEnd.toNat ≤ 0xC0C00000)
    (run : BlockRun kernelEnd h blocks) :
    ∀ block ∈ blocks, Contiguous bss ram block ∧
      ∀ (r : Pcnet32Ring) (isTx : Bool), r.buffers = block.start →
        r.count * pcnet32BufferSize ≤ block.size.toNat → DescriptorsDenote bss ram r isTx := by
  intro block member
  have inside := (run.inv lower upper).2 block member
  exact ⟨inside.contiguous bss ram, inside.denotes bss ram⟩

/-- The receive buffers, allocated first. -/
theorem receive_buffers_serve_dma :
    Contiguous sampleBss (fun _ => 0) ⟨0xC0140010, 102400⟩ ∧
      ∀ (r : Pcnet32Ring) (isTx : Bool), r.buffers = 0xC0140010 →
        r.count * pcnet32BufferSize ≤ 102400 →
        DescriptorsDenote sampleBss (fun _ => 0) r isTx := by
  have returns : alloc 102400 1 (initMem 0xC0140010 fun _ => 0) =
      some (carveFront (initMem 0xC0140010 fun _ => 0) 102400 0xC0140010) := rfl
  have run := BlockRun.alloc (BlockRun.start (fun _ => 0)) (by decide) (by decide) returns
  have listed : (⟨0xC0140010, 102400⟩ : DmaBlock) ∈
      (if (0xC0140010 : UInt32) = 0 then [] else [⟨0xC0140010, 102400⟩] : List DmaBlock) :=
    List.mem_singleton.mpr rfl
  exact alloc_blocks_serve_dma sampleBss (fun _ => 0) (by decide) (by decide) run _ listed

end Translation

end FrogOS
