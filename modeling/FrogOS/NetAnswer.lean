import FrogOS.NetReply

set_option autoImplicit false

namespace FrogOS

open ByteMemory BoundedAccess

/-- What holds of the pool and of the transmit ring between two frames. -/
structure NetInv (s : NetState) : Prop where
  pool : ∃ free top, KernelPool s.pool s.slabs s.held free top
  wired : Wired s.tx (2 ^ 4)
  ptr : s.tx.ptr < 2 ^ 4

section Transmit

variable {r r' : Pcnet32Ring} {packet : List UInt8}

theorem pcnet32TxPacket_full (full : ¬ pcnet32Driverowns r r.ptr) :
    pcnet32TxPacket r packet = none := if_pos full

/-- With a descriptor of its own the driver takes the packet, and the ring stays wired. -/
theorem pcnet32TxPacket_taken (wired : Wired r (2 ^ 4)) (fits : packet.length ≤ 1600)
    (mine : pcnet32Driverowns r r.ptr) :
    ∃ r', pcnet32TxPacket r packet = some r' ∧ Wired r' (2 ^ 4) ∧ r'.ptr < 2 ^ 4 := by
  have copied := (sameBut_txCopy r packet fits).wired wired
  have marked := (sameBut_txMark _).wired copied
  have measured := (sameBut_txLength _ (UInt16.ofNat packet.length)).wired marked
  have given := (sameBut_txGive _).wired ((sameBut_txCount _).wired measured)
  refine ⟨_, if_neg (not_not_intro mine), ⟨given.size, given.area, given.points⟩, ?_⟩
  have size := wired.size
  change (if r.count ≤ (r.ptr + 1) % 2 ^ 16 then 0 else (r.ptr + 1) % 2 ^ 16) < 2 ^ 4
  split <;> omega

end Transmit

/-- The state before the first frame: the heap as the boot has left it, no packet buffer yet, and a
transmit ring of which any part may still be full. -/
structure NetStart (kernelEnd : UInt32) (s : NetState) : Prop where
  placed : Placed kernelEnd
  heap : KernelHeap kernelEnd s.pool.heap
  empty : s.pool.buffers = 0
  wired : Wired s.tx (2 ^ 4)
  ptr : s.tx.ptr < 2 ^ 4
  records : s.slabs = [] ∧ s.held = [] ∧ s.handed = []

theorem NetStart.inv {kernelEnd : UInt32} {s : NetState} (start : NetStart kernelEnd s) :
    NetInv s := by
  obtain ⟨top, bump⟩ := start.heap.bump start.placed
  obtain ⟨noSlab, noBuffer, -⟩ := start.records
  have pool := kernelPool_start bump
  refine ⟨⟨[], top, ?_⟩, start.wired, start.ptr⟩
  rw [noSlab, noBuffer]
  rw [← start.empty] at pool
  exact pool

/-- A receive slot with a frame in it and nothing behind. -/
def slotOf (frame : List UInt8) : Block := { size := pcnet32BufferSize, byte := ofList frame }

/-- Somebody asks for 192.168.201.77. -/
def whoHas : List UInt8 :=
  [0xff, 0xff, 0xff, 0xff, 0xff, 0xff, 0x52, 0x54, 0x00, 0xaa, 0xbb, 0xcc, 0x08, 0x06,
    0x00, 0x01, 0x08, 0x00, 0x06, 0x04, 0x00, 0x01, 0x52, 0x54, 0x00, 0xaa, 0xbb, 0xcc,
    0xc0, 0xa8, 0xc9, 0x01, 0x00, 0x00, 0x00, 0x00, 0x00, 0x00, 0xc0, 0xa8, 0xc9, 0x4d]

/-- cmain.c's device behind a transmit ring of which all descriptors have one status. -/
def bootedNet (heap : Heap) (status : UInt8) : NetState :=
  let ring : Pcnet32Ring :=
    { des := fun _ => ⟨0, lengthField 1600, status, 0⟩, buffers := 0xC0199000, ptr := 0
      count := 2 ^ 4, packets := 0, mem := fun _ => 0 }
  { dev := ⟨[0x52, 0x54, 0x00, 0x12, 0x34, 0x56], rfl, 0x4DC9A8C0⟩
    pool := { heap, buffers := 0 }
    tx := { ring with des := fun k => { ring.des k with addr := ring.slot k - 0xC0000000 } }
    slabs := [], held := [], handed := [] }

theorem bootedNet_start {heap : Heap} (run : KernelHeap 0xC0180000 heap) (status : UInt8) :
    NetStart 0xC0180000 (bootedNet heap status) := by
  have area : BufferArea 0xC0199000 (2 ^ 4) := ⟨by decide, by decide⟩
  have first : 0 < 2 ^ 4 := by decide
  refine ⟨⟨by decide, by decide⟩, run, rfl, ⟨rfl, area, ?_⟩, first, rfl, rfl, rfl⟩
  exact fun k inside => dmaAddress_sub (inKernel_slot area inside)

/-- The buffers of the two rings come first, and then there is room for a slab. -/
theorem bootedNet_heap : ∃ heap, KernelHeap 0xC0180000 heap ∧
    ∀ status, (bootedNet heap status).pool.HasBuffer := by
  have start := initMem_bump 0xC0180000 (fun _ => 0) ⟨by decide, by decide⟩
  have top : roundUp 0xC0180000 16 = 0xC0180000 := by decide
  rw [top] at start
  rcases alloc_bump start 102400 (by decide) (by decide) with ⟨-, rx, gotRx, moved, -⟩ | ⟨full, -⟩
  · rcases alloc_bump moved 25600 (by decide) (by decide) with ⟨-, tx, gotTx, left, -⟩ | ⟨full, -⟩
    · have run := (KernelHeap.start fun _ => 0).alloc (by decide) (by decide) gotRx
      refine ⟨tx, run.alloc (by decide) (by decide) gotTx, fun status => Or.inr ?_⟩
      have size := left.size
      rw [← left.head] at size
      refine Nat.lt_of_lt_of_eq ?_ size.symm
      rw [left.head]
      decide
    · exact absurd full (by decide)
  · exact absurd full (by decide)

/-- Meanwhile the card gives a transmit descriptor back. -/
def TxCard (s s' : NetState) : Prop :=
  ∃ idx < 2 ^ 4, (s.tx.des idx).Owned ∧ s' = { s with tx := s.tx.cardRelease idx }

theorem TxCard.inv {s s' : NetState} (released : TxCard s s') (inv : NetInv s) : NetInv s' := by
  obtain ⟨idx, -, -, rfl⟩ := released
  exact ⟨inv.pool, (sameBut_cardRelease s.tx idx).wired inv.wired, inv.ptr⟩

/-- What the answer to a frame does: one packet goes to `tx_packet`, and only a full transmit ring
keeps its buffer from coming back. -/
structure Answered (s : NetState) (packet : List UInt8) (s' : NetState) : Prop where
  dev : s'.dev = s.dev
  fits : packet.length ≤ 1600
  handed : s'.handed = s.handed ++ [packet]
  slabs : s'.slabs = newSlabs alloc s.pool ++ s.slabs
  inv : NetInv s'
  returned : pcnet32Driverowns s.tx s.tx.ptr → s'.held = s.held
  lost : ¬ pcnet32Driverowns s.tx s.tx.ptr → ∃ buff, s'.held = buff :: s.held ∧ s'.tx = s.tx

/-- What holds of all packets so far goes on to hold exactly if it holds of the new one. -/
theorem Answered.handed_iff {s s' : NetState} {packet : List UInt8} {good : List UInt8 → Prop}
    (answered : Answered s packet s') (before : ∀ other ∈ s.handed, good other) :
    (∀ other ∈ s'.handed, good other) ↔ good packet := by
  rw [answered.handed]
  constructor
  · exact fun all => all packet (List.mem_append_right _ List.mem_cons_self)
  · intro new other member
    rcases List.mem_append.mp member with old | last
    · exact before other old
    · rw [List.mem_singleton.mp last]
      exact new

section Reply

variable {s : NetState} {build : UInt32 → Mem → Except Fault Mem} {len : UInt32}
  {good : List UInt8 → Prop}

theorem reply_none (inv : NetInv s) (none : ¬ s.pool.HasBuffer) : reply s build len = .ok s := by
  obtain ⟨free, top, kernel⟩ := inv.pool
  rcases kernel.allocated with ⟨-, null, noSlab⟩ | ⟨some, -⟩
  · rw [reply, null]
    simp only [↓reduceIte, noSlab, List.nil_append]
  · exact absurd some none

/-- With a buffer a reply is built and sent, into the ring or into nowhere. -/
theorem reply_clean (inv : NetInv s) (some : s.pool.HasBuffer)
    (builds : BuildsClean build len.toNat good) (fits : len.toNat ≤ 1600) :
    ∃ packet s', reply s build len = .ok s' ∧ good packet ∧ Answered s packet s' := by
  obtain ⟨free, top, kernel⟩ := inv.pool
  rcases kernel.allocated with ⟨none, -⟩ | ⟨-, buff, pool, rest, top', taken, nonnull, holding⟩
  · exact absurd some none
  obtain ⟨mem, built, within, packet⟩ := builds buff pool.heap.mem
    (kernel.pool.taken_clean kernel.fresh taken nonnull)
  have written := holding.write List.mem_cons_self within
  have short : (len.toUInt16).toNat = len.toNat := by
    rw [UInt32.toNat_toUInt16]
    omega
  have length : (bytes mem buff.toNat len.toNat).length ≤ 1600 := by
    rw [bytes_length]
    exact fits
  refine ⟨bytes mem buff.toNat len.toNat, ?_⟩
  rw [reply, taken]
  simp only [nonnull, ↓reduceIte, built, ok_bind, etherSendframe, short]
  by_cases mine : pcnet32Driverowns s.tx s.tx.ptr
  · obtain ⟨tx, sent, wired, ptr⟩ := pcnet32TxPacket_taken inv.wired length mine
    rw [sent]
    simp only [pcnet32BufferSize, fits, ↓reduceIte, List.erase_cons_head]
    have freed := written.freed List.mem_cons_self
    rw [List.erase_cons_head] at freed
    exact ⟨_, rfl, packet, rfl, length, rfl, rfl, ⟨⟨_, _, freed⟩, wired, ptr⟩, fun _ => rfl,
      fun full => absurd mine full⟩
  · rw [pcnet32TxPacket_full mine]
    exact ⟨_, rfl, packet, rfl, length, rfl, rfl, ⟨⟨_, _, written⟩, inv.wired, inv.ptr⟩,
      fun free => absurd free mine, fun _ => ⟨buff, rfl, rfl⟩⟩

theorem reply_some (inv : NetInv s) (some : s.pool.HasBuffer)
    (builds : Builds build len.toNat good) (fits : len.toNat ≤ 1600) :
    ∃ packet s', reply s build len = .ok s' ∧ good packet ∧ Answered s packet s' :=
  reply_clean inv some (fun buff m _ => builds buff m) fits

/-- Where a reply went out, its builder had succeeded. -/
theorem reply_built {s' : NetState} (inv : NetInv s) (some : s.pool.HasBuffer)
    (done : reply s build len = .ok s') : ∃ buff m m', build buff m = .ok m' := by
  obtain ⟨free, top, kernel⟩ := inv.pool
  rcases kernel.allocated with ⟨none, -⟩ | ⟨-, buff, pool, rest, top', taken, nonnull, -⟩
  · exact absurd some none
  · rw [reply, taken] at done
    simp only [nonnull, ↓reduceIte] at done
    obtain ⟨mem, built, -⟩ := bind_eq_ok.mp done
    exact ⟨buff, _, mem, built⟩

end Reply

section Requests

variable {frame : Block} {len : UInt16}

/-- The length that `ether_process_frame` passes on. -/
def ipLength (len : UInt16) : UInt32 := len.toUInt32 - 14 - 4

/-- The length of an ICMP message, as `ipv4_process_packet` passes it on. -/
def echoLength (frame : Block) (len : UInt16) : UInt32 := ipLength len - headerBytes (frame.byte 14)

def ArpRequest (dev : NetDev) (frame : Block) : Prop :=
  ntohs (load16 frame.byte 12) = 0x0806 ∧ arpForUs dev frame = .ok true

def EchoRequest (frame : Block) (len : UInt16) : Prop :=
  ntohs (load16 frame.byte 12) = 0x0800 ∧ ipv4Accepts frame (ipLength len) = .ok true ∧
    frame.byte 23 = 1 ∧ frame.byte 34 = 8

instance (dev : NetDev) : Decidable (ArpRequest dev frame) := inferInstanceAs (Decidable (_ ∧ _))

instance : Decidable (EchoRequest frame len) := inferInstanceAs (Decidable (_ ∧ _))

theorem arpProcessPacket_eq (s : NetState) (slot : frame.size = 1600) :
    arpProcessPacket s frame =
      if arpForUs s.dev frame = .ok true then reply s (arpReply s.dev frame) (14 + 28)
      else .ok s := by
  obtain ⟨forUs, tested⟩ := arpForUs_ok s.dev slot
  rw [arpProcessPacket, tested, ok_bind]
  cases forUs with
  | false => rfl
  | true => rfl

theorem ipv4ProcessPacket_eq (s : NetState) (l : UInt32) (slot : frame.size = 1600) :
    ipv4ProcessPacket s frame l =
      if ipv4Accepts frame l = .ok true ∧ frame.byte 23 = 1 ∧ frame.byte 34 = 8 then
        reply s (icmpReply frame (l - headerBytes (frame.byte 14)))
          (l - headerBytes (frame.byte 14) + 20 + 14)
      else .ok s := by
  obtain ⟨accepted, checked⟩ := ipv4Accepts_ok l slot
  rw [ipv4ProcessPacket, checked, ok_bind]
  cases accepted with
  | false => rfl
  | true =>
      simp only [↓reduceIte, Block.read8_ok (show 23 + 1 ≤ frame.size by omega), ok_bind, true_and]
      by_cases icmp : frame.byte 23 = 1
      · simp only [icmp, ↓reduceIte, Block.read8_ok (show 14 + 1 ≤ frame.size by omega), ok_bind,
          icmpProcessPacket, Block.read8_ok (show 34 + 1 ≤ frame.size by omega), true_and]
        rfl
      · simp only [icmp, ↓reduceIte, false_and]
        rfl

/-- Only the two kinds of request have an effect. -/
theorem etherProcessFrame_cases (s : NetState) (len : UInt16) (slot : frame.size = 1600) :
    (ArpRequest s.dev frame ∧
        etherProcessFrame s frame len = reply s (arpReply s.dev frame) (14 + 28)) ∨
      (EchoRequest frame len ∧ etherProcessFrame s frame len =
        reply s (icmpReply frame (echoLength frame len)) (echoLength frame len + 20 + 14)) ∨
      (¬ ArpRequest s.dev frame ∧ ¬ EchoRequest frame len ∧
        etherProcessFrame s frame len = .ok s) := by
  unfold ArpRequest EchoRequest echoLength ipLength
  rw [etherProcessFrame, Block.read16_ok (by omega), ok_bind]
  by_cases small : ntohs (load16 frame.byte 12) < 1536
  · have notIp : ntohs (load16 frame.byte 12) ≠ 0x0800 := by
      intro ip
      rw [ip] at small
      exact absurd small (by decide)
    have notArp : ntohs (load16 frame.byte 12) ≠ 0x0806 := by
      intro arp
      rw [arp] at small
      exact absurd small (by decide)
    exact Or.inr (Or.inr ⟨fun arp => notArp arp.1, fun ip => notIp ip.1, if_pos small⟩)
  rw [if_neg small]
  by_cases ip : ntohs (load16 frame.byte 12) = 0x0800
  · rw [if_pos ip, ipv4ProcessPacket_eq s _ slot, ip]
    by_cases request : ipv4Accepts frame (len.toUInt32 - 14 - 4) = .ok true ∧ frame.byte 23 = 1 ∧
        frame.byte 34 = 8
    · exact Or.inr (Or.inl ⟨⟨rfl, request⟩, if_pos request⟩)
    · exact Or.inr (Or.inr ⟨fun arp => absurd arp.1 (by decide), fun echo => request echo.2,
        if_neg request⟩)
  rw [if_neg ip]
  by_cases arp : ntohs (load16 frame.byte 12) = 0x0806
  · rw [if_pos arp, arpProcessPacket_eq s slot]
    by_cases request : arpForUs s.dev frame = .ok true
    · exact Or.inl ⟨⟨arp, request⟩, if_pos request⟩
    · exact Or.inr (Or.inr ⟨fun both => request both.2, fun echo => ip echo.1, if_neg request⟩)
  rw [if_neg arp]
  refine Or.inr (Or.inr ⟨fun both => arp both.1, fun echo => ip echo.1, ?_⟩)
  split
  · rw [Block.readBytes_ok (by omega), ok_bind, Block.readBytes_ok (by omega)]
    rfl
  · rfl

variable {s s' : NetState}

theorem arp_builds (dev : NetDev) (slot : frame.size = 1600) :
    Builds (arpReply dev frame) (14 + 28 : UInt32).toNat (ArpAnswer dev frame) :=
  arpReply_builds dev slot

/-- The size of the reply to an echo request, which is the request's without what is behind it. -/
theorem echo_size (fits : 34 + (echoLength frame len).toNat ≤ 1600) :
    (echoLength frame len + 20 + 14).toNat = 34 + (echoLength frame len).toNat := by
  have ip : (20 : UInt32).toNat = 20 := rfl
  have ether : (14 : UInt32).toNat = 14 := rfl
  rw [UInt32.toNat_add, UInt32.toNat_add, ip, ether]
  omega

theorem echo_builds (slot : frame.size = 1600) (fits : 34 + (echoLength frame len).toNat ≤ 1600) :
    Builds (icmpReply frame (echoLength frame len)) (echoLength frame len + 20 + 14).toNat
      (EchoAnswer frame) := by
  rw [echo_size fits]
  exact icmpReply_builds slot fits

/-- What a call that returns has done: nothing, or it has answered one of the two requests. -/
theorem etherProcessFrame_done (inv : NetInv s) (slot : frame.size = 1600)
    (done : etherProcessFrame s frame len = .ok s') :
    (s' = s ∧ (ArpRequest s.dev frame ∨ EchoRequest frame len → ¬ s.pool.HasBuffer)) ∨
      (s.pool.HasBuffer ∧ ArpRequest s.dev frame ∧
        ∃ packet, ArpAnswer s.dev frame packet ∧ Answered s packet s') ∨
      (s.pool.HasBuffer ∧ EchoRequest frame len ∧
        ∃ packet, EchoAnswer frame packet ∧ Answered s packet s') := by
  have nothing (same : etherProcessFrame s frame len = .ok s) : s' = s :=
    Except.ok.inj (done.symm.trans same)
  rcases etherProcessFrame_cases s len slot with ⟨arp, same⟩ | ⟨echo, same⟩ |
    ⟨notArp, notEcho, same⟩
  · by_cases some : s.pool.HasBuffer
    · obtain ⟨packet, t, sent, made, answered⟩ :=
        reply_some inv some (arp_builds s.dev slot) (by decide)
      rw [same, sent] at done
      rw [← Except.ok.inj done]
      exact Or.inr (Or.inl ⟨some, arp, packet, made, answered⟩)
    · exact Or.inl ⟨nothing (same.trans (reply_none inv some)), fun _ => some⟩
  · by_cases some : s.pool.HasBuffer
    · rw [same] at done
      obtain ⟨buff, m, m', built⟩ := reply_built inv some done
      have fits := icmpReply_fits slot built
      obtain ⟨packet, t, sent, made, answered⟩ :=
        reply_some inv some (echo_builds slot fits) (by rw [echo_size fits]; exact fits)
      rw [sent] at done
      rw [← Except.ok.inj done]
      exact Or.inr (Or.inr ⟨some, echo, packet, made, answered⟩)
    · exact Or.inl ⟨nothing (same.trans (reply_none inv some)), fun _ => some⟩
  · exact Or.inl ⟨nothing same, fun either => absurd either (not_or.mpr ⟨notArp, notEcho⟩)⟩

end Requests

/-- The states that frames of any content lead to, each of which meets a condition, while the card
takes packets at any time. A call that leaves its buffers ends the run. -/
inductive NetRun (meets : NetState → Block → UInt16 → Prop) (start : NetState) : NetState → Prop
  | start : NetRun meets start start
  | frame {s s' : NetState} {frame : Block} {len : UInt16} (run : NetRun meets start s)
      (slot : frame.size = 1600) (met : meets s frame len)
      (done : etherProcessFrame s frame len = .ok s') : NetRun meets start s'
  | card {s s' : NetState} (run : NetRun meets start s) (released : TxCard s s') :
      NetRun meets start s'

theorem etherProcessFrame_inv {s s' : NetState} {frame : Block} {len : UInt16} (inv : NetInv s)
    (slot : frame.size = 1600) (done : etherProcessFrame s frame len = .ok s') :
    NetInv s' ∧ s'.dev = s.dev := by
  rcases etherProcessFrame_done inv slot done with ⟨rfl, -⟩ | ⟨-, -, _, -, answered⟩ |
    ⟨-, -, _, -, answered⟩
  · exact ⟨inv, rfl⟩
  · exact ⟨answered.inv, answered.dev⟩
  · exact ⟨answered.inv, answered.dev⟩

theorem NetRun.inv {meets : NetState → Block → UInt16 → Prop} {start s : NetState}
    (run : NetRun meets start s) (first : NetInv start) : NetInv s ∧ s.dev = start.dev := by
  induction run with
  | start => exact ⟨first, rfl⟩
  | frame run slot met done ih =>
      obtain ⟨inv, dev⟩ := etherProcessFrame_inv ih.1 slot done
      exact ⟨inv, dev.trans ih.2⟩
  | card run released ih =>
      obtain ⟨idx, -, -, rfl⟩ := id released
      exact ⟨released.inv ih.1, ih.2⟩

/-- What every frame that meets the condition keeps holds of all packets of a run. -/
theorem NetRun.handed {meets : NetState → Block → UInt16 → Prop} {good : List UInt8 → Prop}
    {start s : NetState} (run : NetRun meets start s) (first : NetInv start)
    (records : start.handed = [])
    (kept : ∀ s s' frame len, NetInv s → s.dev = start.dev → frame.size = 1600 →
      meets s frame len → etherProcessFrame s frame len = .ok s' →
      (∀ packet ∈ s.handed, good packet) → ∀ packet ∈ s'.handed, good packet) :
    ∀ packet ∈ s.handed, good packet := by
  induction run with
  | start =>
      rw [records]
      exact fun packet member => absurd member List.not_mem_nil
  | frame run slot met done ih =>
      obtain ⟨inv, dev⟩ := run.inv first
      exact kept _ _ _ _ inv dev slot met done ih
  | card run released ih =>
      obtain ⟨idx, -, -, rfl⟩ := released
      exact ih

end FrogOS
