import FrogOS.BumpAllocator
import FrogOS.HeapBump

set_option autoImplicit false

namespace FrogOS

open ByteMemory LinkedChain BumpAllocator

/-- What memory.c manages when nobody asks for an alignment. -/
def kernelArena : Arena where
  unit := 16
  limit := 0xC0C00000

/-- A sequence of calls `alloc(size, 1)` after `init_mem`, each with what it returned. In between
anything may be written but the header of the chunk that is left. -/
inductive KernelCalls (kernelEnd : UInt32) : Heap → List (UInt32 × UInt32) → Prop
  | start (m : Mem) : KernelCalls kernelEnd (initMem kernelEnd m) []
  | alloc {h h' : Heap} {calls : List (UInt32 × UInt32)} {size ret : UInt32}
      (run : KernelCalls kernelEnd h calls) (positive : 1 ≤ size.toNat)
      (bounded : size.toNat ≤ 0xFFFFFFF0) (returns : alloc size 1 h = some (ret, h')) :
      KernelCalls kernelEnd h' (calls ++ [(size, ret)])
  | write {h : Heap} {calls : List (UInt32 × UInt32)} {mem : Mem}
      (run : KernelCalls kernelEnd h calls) (kept : Agree h.highMem.toNat 8 h.mem mem) :
      KernelCalls kernelEnd { h with mem } calls

def sizesOf (calls : List (UInt32 × UInt32)) : List Nat := calls.map fun call => call.1.toNat

/-- A null pointer is no block. -/
def blockOf (ret : UInt32) : Option Nat := if ret = 0 then none else some ret.toNat

def blocksOf (calls : List (UInt32 × UInt32)) : List (Option Nat) :=
  calls.map fun call => blockOf call.2

/-- The free list is one chunk at a multiple of 16, up to the end of the arena. -/
structure OneChunk (h : Heap) (top : Nat) : Prop where
  list : ∃ p : UInt32, h.FreeList [p] ∧ p.toNat = top ∧ top + (h.size p).toNat = 0xC0C00000
  aligned : top % 16 = 0

section Calls

variable {kernelEnd size top : UInt32} {h : Heap} {calls : List (UInt32 × UInt32)}

theorem Bump.oneChunk (bump : Bump h top) : OneChunk h top.toNat := by
  have edge : arenaEnd.toNat = 0xC0C00000 := rfl
  have size := bump.size
  have upper := bump.upper
  refine ⟨⟨top, ⟨bump.head, bump.nonnull, bump.last⟩, rfl, ?_⟩, bump.aligned⟩
  omega

/-- A call on the one chunk is a request to the abstract allocator. -/
theorem alloc_simulates (bump : Bump h top) (positive : 1 ≤ size.toNat)
    (bounded : size.toNat ≤ 0xFFFFFFF0) :
    ∃ ret h' top', alloc size 1 h = some (ret, h') ∧ Bump h' top' ∧
      (blockOf ret, top'.toNat) = kernelArena.alloc top.toNat size.toNat ∧
      (kernelArena.Fits top.toNat size.toNat → ret = top) ∧
      (¬ kernelArena.Fits top.toNat size.toNat → ret = 0 ∧ h' = h) := by
  have edge : arenaEnd.toNat = 0xC0C00000 := rfl
  have upper := bump.upper
  have rounded : (roundUp size 16).toNat = kernelArena.rounded size.toNat :=
    roundUp_16 size (by omega)
  have fits : kernelArena.Fits top.toNat size.toNat ↔
      (roundUp size 16).toNat < arenaEnd.toNat - top.toNat := by
    rw [rounded]
    exact Iff.rfl
  rcases alloc_bump bump size positive bounded with ⟨room, h', called, moved, -⟩ | ⟨full, null⟩
  · have block : blockOf top = some top.toNat := if_neg bump.nonnull
    have next : (top + roundUp size 16).toNat = top.toNat + kernelArena.rounded size.toNat := by
      rw [UInt32.toNat_add, ← rounded]
      omega
    refine ⟨top, h', _, called, moved, ?_, fun _ => rfl, fun small => absurd (fits.mpr room) small⟩
    rw [Arena.alloc, if_pos (fits.mpr room), block, next]
  · have small : ¬ kernelArena.Fits top.toNat size.toNat := by
      rw [fits]
      exact Nat.not_lt.mpr full
    refine ⟨0, h, top, null, bump, ?_, fun room => absurd room small, fun _ => ⟨rfl, rfl⟩⟩
    rw [Arena.alloc, if_neg small]
    rfl

/-- The run of the code is the run of the abstract allocator on the same sizes. -/
theorem KernelCalls.simulates (run : KernelCalls kernelEnd h calls) (placed : Placed kernelEnd) :
    ∃ top, Bump h top ∧
      top.toNat = kernelArena.topAfter (roundUp kernelEnd 16).toNat (sizesOf calls) ∧
      blocksOf calls = kernelArena.blocks (roundUp kernelEnd 16).toNat (sizesOf calls) := by
  induction run with
  | start m => exact ⟨_, initMem_bump kernelEnd m placed, rfl, rfl⟩
  | alloc run positive bounded returns ih =>
      obtain ⟨top, bump, place, blocks⟩ := ih
      obtain ⟨ret, h', top', called, moved, request, -, -⟩ := alloc_simulates bump positive bounded
      obtain ⟨rfl, rfl⟩ := Prod.mk.inj (Option.some.inj (called.symm.trans returns))
      rw [place] at request
      refine ⟨top', moved, ?_, ?_⟩
      · rw [sizesOf, List.map_append, List.map_singleton, Arena.topAfter_snoc]
        exact congrArg Prod.snd request
      · rw [blocksOf, sizesOf, List.map_append, List.map_append, List.map_singleton,
          List.map_singleton, Arena.blocks_snoc]
        have block := congrArg Prod.fst request
        rw [blocksOf, sizesOf] at blocks
        rw [blocks]
        exact congrArg (fun last => _ ++ [last]) block
  | write run kept ih =>
      obtain ⟨top, bump, place, blocks⟩ := ih
      rw [bump.head] at kept
      exact ⟨top, bump.congr rfl kept, place, blocks⟩

end Calls

/-- The next call returns the start of the chunk and moves it up by the size rounded up to 16, or,
where that would leave nothing, fails and changes nothing. -/
def NextCall (h : Heap) (top : Nat) : Prop :=
  ∀ size : UInt32, 1 ≤ size.toNat → size.toNat ≤ 0xFFFFFFF0 →
    ((size.toNat + 15) / 16 * 16 < 0xC0C00000 - top → ∃ ret h', alloc size 1 h = some (ret, h') ∧
      ret ≠ 0 ∧ ret.toNat = top ∧ OneChunk h' (top + (size.toNat + 15) / 16 * 16)) ∧
    (0xC0C00000 - top ≤ (size.toNat + 15) / 16 * 16 → alloc size 1 h = some (0, h))

theorem Bump.nextCall {h : Heap} {start : UInt32} (bump : Bump h start) :
    NextCall h start.toNat := by
  intro size positive bounded
  obtain ⟨ret, h', top', called, moved, request, success, failure⟩ :=
    alloc_simulates bump positive bounded
  constructor
  · intro room
    have fits : kernelArena.Fits start.toNat size.toNat := room
    rw [Arena.alloc, if_pos fits] at request
    have next : top'.toNat = start.toNat + (size.toNat + 15) / 16 * 16 := congrArg Prod.snd request
    have chunk := moved.oneChunk
    rw [next] at chunk
    rw [success fits] at called
    exact ⟨start, h', called, bump.nonnull, rfl, chunk⟩
  · intro full
    obtain ⟨null, same⟩ := failure (Nat.not_lt.mpr full)
    rw [null, same] at called
    exact called

/-- After any sequence of calls there is one chunk, where the abstract allocator has it, the calls
returned its blocks, and the next call does the same. -/
theorem alloc_is_bump_allocator (kernelEnd : UInt32) (placed : Placed kernelEnd) (h : Heap)
    (calls : List (UInt32 × UInt32)) (run : KernelCalls kernelEnd h calls) :
    ∃ top, OneChunk h top ∧
      top = kernelArena.topAfter (roundUp kernelEnd 16).toNat (sizesOf calls) ∧
      blocksOf calls = kernelArena.blocks (roundUp kernelEnd 16).toNat (sizesOf calls) ∧
      NextCall h top := by
  obtain ⟨start, bump, place, blocks⟩ := run.simulates placed
  exact ⟨start.toNat, bump.oneChunk, place, blocks, bump.nextCall⟩

/-- The driver's private data is the first block. -/
theorem first_call_is_bump_allocator :
    ∃ h top, OneChunk h top ∧
      top = kernelArena.topAfter (roundUp 0xC0180000 16).toNat (sizesOf [(96, 0xC0180000)]) ∧
      blocksOf [(96, 0xC0180000)] =
        kernelArena.blocks (roundUp 0xC0180000 16).toNat (sizesOf [(96, 0xC0180000)]) ∧
      NextCall h top := by
  have placed : Placed 0xC0180000 := ⟨by decide, by decide⟩
  have returns : alloc 96 1 (initMem 0xC0180000 fun _ => 0) =
      some (carveFront (initMem 0xC0180000 fun _ => 0) 96 0xC0180000) := rfl
  have run := (KernelCalls.start fun _ => 0).alloc (by decide) (by decide) returns
  exact ⟨_, alloc_is_bump_allocator 0xC0180000 placed _ _ run⟩

end FrogOS
