import FrogOS.HeapPartition

set_option autoImplicit false

namespace FrogOS

open ByteMemory LinkedChain Tiling

/-- The free list is the one chunk from `top` to the end of the arena. -/
structure Bump (h : Heap) (top : UInt32) : Prop where
  head : h.highMem = top
  aligned : top.toNat % 16 = 0
  lower : 0xC0000000 ≤ top.toNat
  upper : top.toNat < arenaEnd.toNat
  size : (h.size top).toNat = arenaEnd.toNat - top.toNat
  last : h.next top = 0

section Bump

variable {h h' : Heap} {top size : UInt32}

theorem Bump.nonnull (bump : Bump h top) : top ≠ 0 := by
  intro null
  have lower := bump.lower
  rw [null] at lower
  exact absurd lower (by decide)

/-- Nothing but the chunk's header matters. -/
theorem Bump.congr (bump : Bump h top) (head : h'.highMem = h.highMem)
    (same : Agree top.toNat 8 h.mem h'.mem) : Bump h' top := by
  have size : h'.size top = h.size top :=
    load32_congr fun x lower upper => same x lower (by omega)
  have next : h'.next top = h.next top :=
    load32_congr fun x lower upper => same x (by omega) (by omega)
  exact ⟨head.trans bump.head, bump.aligned, bump.lower, bump.upper, by rw [size]; exact bump.size,
    by rw [next]; exact bump.last⟩

theorem initMem_bump (kernelEnd : UInt32) (m : Mem) (placed : Placed kernelEnd) :
    Bump (initMem kernelEnd m) (roundUp kernelEnd 16) := by
  have inv := initMem_inv kernelEnd m placed
  have lower := placed.lower
  have upper := placed.upper
  have top : arenaEnd.toNat = 0xC0C00000 := rfl
  have start := roundUp_16 kernelEnd (by omega)
  obtain ⟨head, -, last⟩ := inv.chain
  have whole := inv.whole
  simp only [List.map_nil, List.nil_append, List.map_cons, total_cons, total_nil,
    Nat.add_zero] at whole
  exact ⟨head, by omega, by omega, by omega, whole, last⟩

theorem roundUp_one (addr : UInt32) : roundUp addr 1 = addr := by
  apply UInt32.toNat_inj.mp
  have bound := addr.toNat_lt
  rw [roundUp_toNat addr 1 0 (by decide) rfl]
  omega

theorem lost_one (mem : UInt32) : lost mem 1 = 0 := by
  rw [lost, roundUp_one, UInt32.sub_self]

theorem carveFront_frame (h : Heap) (s p : UInt32) :
    Frame (p + s).toNat 8 h.mem (carveFront h s p).2.mem := by
  have next : Frame (p + s).toNat 8 h.mem (h.setNext (p + s) (h.next p)).mem :=
    (store32_frame _ _ _).mono (Nat.le_add_right _ _) (by omega)
  exact next.trans ((store32_frame _ _ _).mono (Nat.le_refl _) (by omega))

theorem Bump.fits_iff (bump : Bump h top) :
    h.Fits size 1 top ↔ size.toNat < arenaEnd.toNat - top.toNat := by
  rw [Heap.Fits, lost_one, UInt32.sub_zero, UInt32.le_iff_toNat_le, UInt32.lt_iff_toNat_lt,
    bump.size]
  omega

theorem Bump.carve (bump : Bump h top) (unit : size.toNat % 16 = 0) (positive : 0 < size.toNat)
    (fits : size.toNat < arenaEnd.toNat - top.toNat) :
    Bump (carveFront h size top).2 (top + size) := by
  have edge : arenaEnd.toNat = 0xC0C00000 := rfl
  have lower := bump.lower
  have aligned := bump.aligned
  have whole := bump.size
  have moved : (top + size).toNat = top.toNat + size.toNat := by
    rw [UInt32.toNat_add]
    omega
  have multiple : (top + size).toNat % 16 = 0 := by omega
  refine ⟨rfl, multiple, by omega, by omega, ?_, ?_⟩
  · have ordered : size ≤ h.size top := UInt32.le_iff_toNat_le.mpr (by omega)
    rw [carveFront_size aligned multiple _ multiple, if_pos rfl, UInt32.toNat_sub_of_le _ _ ordered]
    omega
  · rw [carveFront_next multiple _ multiple, if_pos rfl]
    exact bump.last

/-- Without alignment `alloc` either returns the start of the chunk and moves it up by the rounded
size, or returns null and changes nothing. -/
theorem alloc_bump (bump : Bump h top) (size : UInt32) (positive : 1 ≤ size.toNat)
    (bounded : size.toNat ≤ 0xFFFFFFF0) :
    ((roundUp size 16).toNat < arenaEnd.toNat - top.toNat ∧
      ∃ h', alloc size 1 h = some (top, h') ∧ Bump h' (top + roundUp size 16) ∧
        Frame (top + roundUp size 16).toNat 8 h.mem h'.mem) ∨
    (arenaEnd.toNat - top.toNat ≤ (roundUp size 16).toNat ∧ alloc size 1 h = some (0, h)) := by
  have rounded := roundUp_16 size (by omega)
  have list : Chain h.next 0 h.highMem [top] := ⟨bump.head, bump.nonnull, bump.last⟩
  have enough : 1 < allocFuel := by decide
  rcases allocLoop_first_fit (roundUp size 16) 1 h [top] allocFuel enough h.highMem list with
    ⟨full, null⟩ | ⟨before, p, after, split, -, fits, carved⟩
  · have none := full top List.mem_cons_self
    rw [bump.fits_iff] at none
    exact Or.inr ⟨Nat.le_of_not_lt none, null⟩
  · have member : p ∈ [top] := by
      rw [split]
      exact List.mem_append_right _ List.mem_cons_self
    obtain rfl := List.mem_singleton.mp member
    have room := bump.fits_iff.mp fits
    have front : carve h (roundUp size 16) 1 p = (p, (carveFront h (roundUp size 16) p).2) := by
      rw [FrogOS.carve, lost_one, if_neg (by decide)]
      exact Prod.ext bump.head rfl
    refine Or.inl ⟨room, (carveFront h (roundUp size 16) p).2, ?_, ?_, carveFront_frame _ _ _⟩
    · rw [alloc, carved, front]
    · exact bump.carve (by omega) (by omega) room

end Bump

/-- The heap of the running kernel, which never asks for an alignment. Between two calls anything
may be written but the header of the chunk that is left. -/
inductive KernelHeap (kernelEnd : UInt32) : Heap → Prop
  | start (m : Mem) : KernelHeap kernelEnd (initMem kernelEnd m)
  | alloc {h h' : Heap} {size ret : UInt32} (run : KernelHeap kernelEnd h)
      (positive : 1 ≤ size.toNat) (bounded : size.toNat ≤ 0xFFFFFFF0)
      (returns : alloc size 1 h = some (ret, h')) : KernelHeap kernelEnd h'
  | write {h : Heap} {mem : Mem} (run : KernelHeap kernelEnd h)
      (kept : Agree h.highMem.toNat 8 h.mem mem) : KernelHeap kernelEnd { h with mem }

theorem KernelHeap.bump {kernelEnd : UInt32} {h : Heap} (run : KernelHeap kernelEnd h)
    (placed : Placed kernelEnd) : ∃ top, Bump h top := by
  induction run with
  | start m => exact ⟨_, initMem_bump kernelEnd m placed⟩
  | alloc run positive bounded returns ih =>
      obtain ⟨top, bump⟩ := ih
      rcases alloc_bump bump _ positive bounded with ⟨-, h', called, moved, -⟩ | ⟨-, null⟩
      · obtain ⟨-, rfl⟩ := Prod.mk.inj (Option.some.inj (called.symm.trans returns))
        exact ⟨_, moved⟩
      · obtain ⟨-, rfl⟩ := Prod.mk.inj (Option.some.inj (null.symm.trans returns))
        exact ⟨top, bump⟩
  | write run kept ih =>
      obtain ⟨top, bump⟩ := ih
      rw [bump.head] at kept
      exact ⟨top, bump.congr rfl kept⟩

end FrogOS
