import FrogOS.NetContainment

set_option autoImplicit false

namespace FrogOS

open ByteMemory BoundedAccess LinkedChain

/-- A frame that is going to be answered finds a descriptor for the answer. -/
def SentOn (s : NetState) (frame : Block) (len : UInt16) : Prop :=
  ArpRequest s.dev frame ∨ EchoRequest frame len → s.pool.HasBuffer →
    pcnet32Driverowns s.tx s.tx.ptr

/-- Every buffer is back: the free list has those of all slabs, and there is at most one slab. -/
structure NoneLost (s : NetState) : Prop where
  held : s.held = []
  free : ∃ free, Chain s.pool.link 0 s.pool.buffers free ∧
    free.Perm (s.slabs.flatMap slabBuffers) ∧ free.length = 32 * s.slabs.length
  slabs : s.slabs.length ≤ 1

theorem newSlabs_length (p : Pool) : (newSlabs alloc p).length ≤ 1 := by
  unfold newSlabs
  split
  · split
    · split <;> simp
    · simp
  · simp

section Step

variable {s s' : NetState} {frame : Block} {len : UInt16} {packet : List UInt8}

theorem NetInv.noneLost (inv : NetInv s) (held : s.held = []) (slabs : s.slabs.length ≤ 1) :
    NoneLost s := by
  obtain ⟨free, top, kernel⟩ := inv.pool
  have count := kernel.pool.count
  have parts := kernel.pool.parts
  rw [held] at count parts
  rw [List.append_nil] at parts
  exact ⟨held, ⟨free, kernel.pool.chain, parts, count⟩, slabs⟩

/-- Another slab is taken only while there is none. -/
theorem NoneLost.slabs_next (kept : NoneLost s) :
    (newSlabs alloc s.pool ++ s.slabs).length ≤ 1 := by
  have new := newSlabs_length s.pool
  have old := kept.slabs
  rw [List.length_append]
  by_cases empty : s.pool.buffers = 0
  · obtain ⟨free, chain, -, count⟩ := kept.free
    rw [empty] at chain
    rw [chain_null.mp chain, List.length_nil] at count
    omega
  · rw [newSlabs, if_neg empty, List.length_nil]
    omega

theorem Answered.noneLost_iff (answered : Answered s packet s') (kept : NoneLost s) :
    NoneLost s' ↔ pcnet32Driverowns s.tx s.tx.ptr := by
  constructor
  · intro kept'
    by_contra full
    obtain ⟨buff, lost, -⟩ := answered.lost full
    have none := kept'.held
    rw [lost] at none
    cases none
  · intro mine
    have held := (answered.returned mine).trans kept.held
    refine answered.inv.noneLost held ?_
    rw [answered.slabs]
    exact kept.slabs_next

/-- Exactly the frames whose answer finds a descriptor leave no buffer behind. -/
theorem frame_noneLost_iff (inv : NetInv s) (slot : frame.size = 1600) (kept : NoneLost s)
    (done : etherProcessFrame s frame len = .ok s') : NoneLost s' ↔ SentOn s frame len := by
  rcases etherProcessFrame_done inv slot done with ⟨rfl, silent⟩ |
    ⟨some, arp, packet, -, answered⟩ |
    ⟨some, echo, packet, -, answered⟩
  · exact ⟨fun _ request some => absurd some (silent request), fun _ => kept⟩
  · rw [answered.noneLost_iff kept]
    exact ⟨fun mine _ _ => mine, fun sent => sent (Or.inl arp) some⟩
  · rw [answered.noneLost_iff kept]
    exact ⟨fun mine _ _ => mine, fun sent => sent (Or.inr echo) some⟩

theorem NetRun.noneLost {kernelEnd : UInt32} {start : NetState} (run : NetRun SentOn start s)
    (first : NetStart kernelEnd start) : NoneLost s := by
  induction run with
  | start =>
      obtain ⟨noSlab, held, -⟩ := first.records
      refine first.inv.noneLost held ?_
      rw [noSlab]
      exact Nat.zero_le 1
  | frame run slot met done ih =>
      exact (frame_noneLost_iff (run.inv first.inv).1 slot ih done).mpr met
  | card run released ih =>
      obtain ⟨idx, -, -, rfl⟩ := released
      exact ⟨ih.held, ih.free, ih.slabs⟩

end Step

/-- In every run in which no answer meets a full ring, every buffer is back after every frame; the
next frame keeps it so exactly if it meets the condition. -/
theorem packet_buffers_return (kernelEnd : UInt32) (start s : NetState)
    (first : NetStart kernelEnd start) (run : NetRun SentOn start s) :
    NoneLost s ∧ ∀ frame len s', frame.size = 1600 → etherProcessFrame s frame len = .ok s' →
      (NoneLost s' ↔ SentOn s frame len) :=
  ⟨run.noneLost first, fun _ _ _ slot done =>
    frame_noneLost_iff (run.inv first.inv).1 slot (run.noneLost first) done⟩

/-- An ARP request and its answer, with an idle ring. -/
theorem arp_buffer_returns :
    ∃ heap s, etherProcessFrame (bootedNet heap 0) (slotOf whoHas) 64 = .ok s ∧ NoneLost s ∧
      ∀ frame len s', frame.size = 1600 → etherProcessFrame s frame len = .ok s' →
        (NoneLost s' ↔ SentOn s frame len) := by
  obtain ⟨heap, s, start, -, done⟩ :=
    bootedNet_processes 0 whoHas 64 (by decide) (by decide)
  have free : (0 : UInt8) &&& 0x80 = 0 := by decide
  exact ⟨heap, s, done, packet_buffers_return 0xC0180000 (bootedNet heap 0) s start
    (.frame .start rfl (fun _ _ => free) done)⟩

/-- With a full ring the buffer of the answer is gone. -/
theorem full_ring_loses_buffer :
    ¬ ∀ kernelEnd start s, NetStart kernelEnd start → NetRun (fun _ _ _ => True) start s →
      NoneLost s := by
  intro claim
  obtain ⟨heap, s, start, some, done⟩ :=
    bootedNet_processes 0x80 whoHas 64 (by decide) (by decide)
  have arp : ArpRequest (bootedNet heap 0x80).dev (slotOf whoHas) := by
    change ArpRequest ⟨[0x52, 0x54, 0x00, 0x12, 0x34, 0x56], rfl, 0x4DC9A8C0⟩ (slotOf whoHas)
    decide
  have full : (0x80 : UInt8) &&& 0x80 ≠ 0 := by decide
  have before := claim 0xC0180000 (bootedNet heap 0x80) _ start .start
  have after := claim 0xC0180000 (bootedNet heap 0x80) s start (.frame .start rfl trivial done)
  exact full ((frame_noneLost_iff start.inv rfl before done).mp after (Or.inl arp) some)

end FrogOS
