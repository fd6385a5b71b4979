import FrogOS.NetEcho

set_option autoImplicit false

namespace FrogOS

open ByteMemory BoundedAccess

/-- What the processing of an IPv4 frame has handed to `tx_packet`. -/
def ipv4Replies (frame : Block) (s s' : NetState) : List (List UInt8) :=
  if ntohs (load16 frame.byte 12) = 0x0800 then s'.handed.drop s.handed.length else []

/-- The states that frames lead to among other users of the pool, who take buffers, write, send and
free them, and the replies to IPv4 frames on the way. A call that leaves its buffers ends it. -/
inductive NetHistory (start : NetState) : NetState → List (List UInt8) → Prop
  | start : NetHistory start start []
  | frame {s s' : NetState} {replies : List (List UInt8)} {frame : Block} {len : UInt16}
      (history : NetHistory start s replies) (slot : frame.size = 1600)
      (done : etherProcessFrame s frame len = .ok s') :
      NetHistory start s' (replies ++ ipv4Replies frame s s')
  | card {s s' : NetState} {replies : List (List UInt8)} (history : NetHistory start s replies)
      (released : TxCard s s') : NetHistory start s' replies
  | alloc {s : NetState} {replies : List (List UInt8)} {ret : UInt32} {pool : Pool}
      (history : NetHistory start s replies) (returns : netAlloc alloc s.pool = some (ret, pool)) :
      NetHistory start { s with
        pool, slabs := newSlabs alloc s.pool ++ s.slabs
        held := if ret = 0 then s.held else ret :: s.held } replies
  | write {s : NetState} {replies : List (List UInt8)} {buff : UInt32} {mem : Mem}
      (history : NetHistory start s replies) (outstanding : buff ∈ s.held)
      (within : Frame buff.toNat 2000 s.pool.heap.mem mem) :
      NetHistory start { s with pool := { s.pool with heap := { s.pool.heap with mem } } } replies
  | send {s s' : NetState} {replies : List (List UInt8)} {buff len : UInt32}
      (history : NetHistory start s replies) (outstanding : buff ∈ s.held)
      (done : etherSendframe s buff len = .ok s') : NetHistory start s' replies
  | free {s : NetState} {replies : List (List UInt8)} {buff : UInt32}
      (history : NetHistory start s replies) (outstanding : buff ∈ s.held) :
      NetHistory start { s with pool := netFree s.pool buff, held := s.held.erase buff } replies

section Steps

variable {s s' : NetState} {frame : Block} {len : UInt16}

/-- A packet that is taken brings its buffer back, one that is refused leaves it with its holder. -/
theorem etherSendframe_inv {buff len : UInt32} (inv : NetInv s) (outstanding : buff ∈ s.held)
    (done : etherSendframe s buff len = .ok s') : NetInv s' := by
  rw [etherSendframe] at done
  split at done
  · cases done
    exact ⟨inv.pool, inv.wired, inv.ptr⟩
  · rename_i tx sent
    split at done
    · rename_i fits
      cases done
      have mine : pcnet32Driverowns s.tx s.tx.ptr := by
        apply Classical.byContradiction
        intro full
        change pcnet32TxPacket s.tx _ = _ at sent
        rw [pcnet32TxPacket_full full] at sent
        cases sent
      obtain ⟨free, top, kernel⟩ := inv.pool
      have short : (bytes s.pool.heap.mem buff.toNat len.toUInt16.toNat).length ≤ 1600 := by
        rw [bytes_length]
        exact fits
      obtain ⟨taken, same, wired, ptr⟩ := pcnet32TxPacket_taken inv.wired short mine
      cases sent.symm.trans same
      exact ⟨⟨_, _, kernel.freed outstanding⟩, wired, ptr⟩
    · cases done

theorem NetHistory.inv {start : NetState} {replies : List (List UInt8)}
    (history : NetHistory start s replies) (first : NetInv start) : NetInv s := by
  induction history with
  | start => exact first
  | frame history slot done ih => exact (etherProcessFrame_inv ih slot done).1
  | card history released ih => exact released.inv ih
  | alloc history returns ih =>
      obtain ⟨free, top, kernel⟩ := ih.pool
      rcases kernel.allocated with ⟨-, null, none⟩ | ⟨-, _, _, rest, top', taken, nonnull, next⟩
      · cases returns.symm.trans null
        rw [none, List.nil_append, if_pos rfl]
        exact ⟨⟨free, top, kernel⟩, ih.wired, ih.ptr⟩
      · cases returns.symm.trans taken
        rw [if_neg nonnull]
        exact ⟨⟨rest, top', next⟩, ih.wired, ih.ptr⟩
  | write history outstanding within ih =>
      obtain ⟨free, top, kernel⟩ := ih.pool
      exact ⟨⟨free, top, kernel.write outstanding within⟩, ih.wired, ih.ptr⟩
  | send history outstanding done ih => exact etherSendframe_inv ih outstanding done
  | free history outstanding ih =>
      obtain ⟨free, top, kernel⟩ := ih.pool
      exact ⟨⟨_, top, kernel.freed outstanding⟩, ih.wired, ih.ptr⟩

/-- An IPv4 frame gets a reply with a good header or none. -/
theorem ipv4Replies_plain (inv : NetInv s) (slot : frame.size = 1600)
    (done : etherProcessFrame s frame len = .ok s') :
    ∀ packet ∈ ipv4Replies frame s s', PlainHeader packet := by
  intro packet member
  rw [ipv4Replies] at member
  split at member
  · rename_i ip
    rcases etherProcessFrame_done inv slot done with ⟨rfl, -⟩ | ⟨-, arp, -⟩ | ⟨some, echo, -⟩
    · rw [List.drop_length] at member
      exact absurd member List.not_mem_nil
    · exact absurd (arp.1.symm.trans ip) (by decide)
    · obtain ⟨-, sent, reply, answered⟩ := echo_answered inv slot echo some done
      rw [answered.handed, List.drop_left, List.mem_singleton] at member
      rw [member]
      exact reply.header
  · exact absurd member List.not_mem_nil

end Steps

/-- No earlier use of a buffer shows in a later reply: the fields of the IPv4 header that nobody
writes are zero, and its checksum is right. -/
theorem echo_headers_well_formed (kernelEnd : UInt32) (start s : NetState)
    (replies : List (List UInt8)) (first : NetStart kernelEnd start)
    (history : NetHistory start s replies) : ∀ packet ∈ replies, PlainHeader packet := by
  induction history with
  | start => exact fun packet member => absurd member List.not_mem_nil
  | frame history slot done ih =>
      intro packet member
      rcases List.mem_append.mp member with old | new
      · exact ih packet old
      · exact ipv4Replies_plain (history.inv first.inv) slot done packet new
  | card | alloc | write | send | free =>
      rename_i ih
      exact ih

/-- The reply to the first frame. -/
theorem first_echo_header_well_formed :
    ∃ heap s packet, etherProcessFrame (bootedNet heap 0) (slotOf broadcastPing) 46 = .ok s ∧
      s.handed = [packet] ∧ PlainHeader packet := by
  obtain ⟨heap, s, start, some, done⟩ :=
    bootedNet_processes 0 broadcastPing 46 (by decide) (by decide)
  have echo : EchoRequest (slotOf broadcastPing) 46 := by decide
  obtain ⟨-, packet, -, answered⟩ := echo_answered start.inv rfl echo some done
  refine ⟨heap, s, packet, done, answered.handed, ?_⟩
  apply echo_headers_well_formed 0xC0180000 (bootedNet heap 0) s _ start (.frame .start rfl done)
  rw [List.nil_append, ipv4Replies, if_pos echo.1, answered.handed]
  exact List.mem_singleton_self packet

end FrogOS
