import FrogOS.NetAnswer
import FrogOS.Pcnet32Receive

set_option autoImplicit false

namespace FrogOS

open ByteMemory BoundedAccess

section Frame

variable {s : NetState} {frame : Block} {len : UInt16}

/-- From 18 bytes on the length that `ether_process_frame` passes on has not wrapped. -/
theorem ipLength_toNat (long : 18 ≤ len.toNat) : (ipLength len).toNat = len.toNat - 18 := by
  have bound := len.toNat_lt
  have ether : (14 : UInt32).toNat = 14 := rfl
  have trailer : (4 : UInt32).toNat = 4 := rfl
  rw [ipLength, UInt32.toNat_sub, UInt32.toNat_sub, UInt16.toNat_toUInt32, ether, trailer]
  omega

theorem echoLength_toNat (slot : frame.size = 1600) (long : 18 ≤ len.toNat)
    (accepted : ipv4Accepts frame (ipLength len) = .ok true) :
    20 ≤ (headerBytes (frame.byte 14)).toNat ∧
      (headerBytes (frame.byte 14)).toNat ≤ len.toNat - 18 ∧
      (echoLength frame len).toNat = len.toNat - 18 - (headerBytes (frame.byte 14)).toNat := by
  obtain ⟨least, most⟩ := ipv4Accepts_bounds slot accepted
  have rest : (echoLength frame len).toNat =
      (ipLength len).toNat - (headerBytes (frame.byte 14)).toNat :=
    UInt32.toNat_sub_of_le _ _ (UInt32.le_iff_toNat_le.mpr most)
  rw [ipLength_toNat long] at most rest
  exact ⟨least, most, rest⟩

/-- The length the handlers go by has wrapped for a frame below 18 bytes, but what they find behind
such a frame is no ICMP. -/
theorem echo_contained (slot : frame.size = 1600) (fits : len.toNat ≤ 1600)
    (zero : ∀ i, len.toNat ≤ i → i < 1600 → frame.byte i = 0) (echo : EchoRequest frame len) :
    34 + (echoLength frame len).toNat ≤ 1600 := by
  obtain ⟨-, accepted, icmp, -⟩ := echo
  have long : 24 ≤ len.toNat := by
    by_contra short
    rw [zero 23 (by omega) (by decide)] at icmp
    exact absurd icmp (by decide)
  obtain ⟨least, -, rest⟩ := echoLength_toNat slot (by omega) accepted
  omega

/-- The handlers return where an echo request that they answer is no longer than its slot. -/
theorem etherProcessFrame_ok (inv : NetInv s) (slot : frame.size = 1600)
    (room : EchoRequest frame len → 34 + (echoLength frame len).toNat ≤ 1600) :
    ∃ s', etherProcessFrame s frame len = .ok s' := by
  rcases etherProcessFrame_cases s len slot with ⟨arp, same⟩ | ⟨echo, same⟩ | ⟨-, -, same⟩
  · by_cases some : s.pool.HasBuffer
    · obtain ⟨packet, s', sent, -⟩ := reply_some inv some (arp_builds s.dev slot) (by decide)
      exact ⟨s', same.trans sent⟩
    · exact ⟨s, same.trans (reply_none inv some)⟩
  · have fits := room echo
    by_cases some : s.pool.HasBuffer
    · obtain ⟨packet, s', sent, -⟩ :=
        reply_some inv some (echo_builds slot fits) (by rw [echo_size fits]; exact fits)
      exact ⟨s', same.trans sent⟩
    · exact ⟨s, same.trans (reply_none inv some)⟩
  · exact ⟨s, same⟩

/-- A frame with nothing behind it in its slot is processed without leaving an object. -/
theorem etherProcessFrame_contained (inv : NetInv s) (slot : frame.size = 1600)
    (fits : len.toNat ≤ 1600) (zero : ∀ i, len.toNat ≤ i → i < 1600 → frame.byte i = 0) :
    ∃ s', etherProcessFrame s frame len = .ok s' :=
  etherProcessFrame_ok inv slot (echo_contained slot fits zero)

/-- So is a frame of at least 18 bytes, whatever is behind it. -/
theorem etherProcessFrame_long (inv : NetInv s) (slot : frame.size = 1600) (long : 18 ≤ len.toNat)
    (fits : len.toNat ≤ 1600) : ∃ s', etherProcessFrame s frame len = .ok s' := by
  apply etherProcessFrame_ok inv slot
  intro echo
  obtain ⟨least, -, rest⟩ := echoLength_toNat slot long echo.2.1
  omega

theorem slotOf_contained (inv : NetInv s) (content : List UInt8) (len : UInt16)
    (whole : content.length ≤ len.toNat) (fits : len.toNat ≤ 1600) :
    ∃ s', etherProcessFrame s (slotOf content) len = .ok s' :=
  etherProcessFrame_contained inv rfl fits
    fun i behind _ => ofList_behind content i (Nat.le_trans whole behind)

/-- After the boot the first frame is processed, and there is a buffer to answer it from. -/
theorem bootedNet_processes (status : UInt8) (content : List UInt8) (len : UInt16)
    (whole : content.length ≤ len.toNat) (fits : len.toNat ≤ 1600) :
    ∃ heap s, NetStart 0xC0180000 (bootedNet heap status) ∧
      (bootedNet heap status).pool.HasBuffer ∧
      etherProcessFrame (bootedNet heap status) (slotOf content) len = .ok s := by
  obtain ⟨heap, run, some⟩ := bootedNet_heap
  have start := bootedNet_start run status
  obtain ⟨s, done⟩ := slotOf_contained start.inv content len whole fits
  exact ⟨heap, s, start, some status, done⟩

/-- The buffers and packets that the handlers leave behind. -/
structure NetContained (s : NetState) : Prop where
  inv : NetInv s
  packets : ∀ packet ∈ s.handed, packet.length ≤ pcnet32BufferSize

theorem NetContained.processed {s' : NetState} (contained : NetContained s)
    (slot : frame.size = 1600) (done : etherProcessFrame s frame len = .ok s') :
    NetContained s' := by
  have snoc {packet : List UInt8} (answered : Answered s packet s') : NetContained s' :=
    ⟨answered.inv, (answered.handed_iff contained.packets).mpr answered.fits⟩
  rcases etherProcessFrame_done contained.inv slot done with ⟨rfl, -⟩ | ⟨-, -, _, -, answered⟩ |
    ⟨-, -, _, -, answered⟩
  · exact contained
  · exact snoc answered
  · exact snoc answered

end Frame

section System

variable {σ ε : Type} {process : σ → Block → UInt16 → Except ε σ} {outside : σ → σ → Prop}
  {ring : Pcnet32Ring} {net : σ} {s t : RxSystem σ}

/-- Only the processing of a frame changes the state of the layers above. -/
theorem rxNext_net {action : RxAction} (step : rxNext process s action = some t) :
    t.net = s.net ∨ ∃ i de mcnt, s.call = some (.process i de mcnt) ∧
      process s.net (s.ring.received de) mcnt = .ok t.net := by
  cases action with
  | call =>
      simp only [rxNext] at step
      split at step
      · cases step
        exact Or.inl rfl
      · cases step
  | driver =>
      obtain ⟨point, running, stepped⟩ := Option.bind_eq_some_iff.mp step
      cases point with
      | process i de mcnt =>
          simp only [rxDriver] at stepped
          split at stepped
          · cases stepped
          · rename_i net processed
            cases stepped
            exact Or.inr ⟨i, de, mcnt, running, processed⟩
      | test i de =>
          simp only [rxDriver] at stepped
          split at stepped <;> cases stepped <;> exact Or.inl rfl
      | enter | count | length | clear | give | advance | leave =>
          cases stepped
          exact Or.inl rfl
  | fill frame =>
      simp only [rxNext] at step
      split at step
      · cases step
        exact Or.inl rfl
      · cases step
  | release =>
      obtain ⟨frame, -, rfl⟩ := Option.map_eq_some_iff.mp step
      exact Or.inl rfl

/-- What the processing of a frame and the outside keep holds in every state. -/
theorem RxReachable.above {Inv : σ → Prop} (reached : RxReachable process outside ring net s)
    (start : Inv net)
    (processed : ∀ s s' frame len, frame.size = 1600 → Inv s → process s frame len = .ok s' →
      Inv s')
    (others : ∀ s s', Inv s → outside s s' → Inv s') : Inv s.net := by
  induction reached with
  | start => exact start
  | next reached step ih =>
      rcases rxNext_net step with same | ⟨i, de, mcnt, -, done⟩
      · rw [same]
        exact ih
      · exact processed _ _ _ _ rfl ih done
  | other reached changed ih => exact others _ _ ih changed

end System

/-- Nothing leaves its object: the frame its receive slot, the `memset` behind it the slot, the
reply its buffer, the packet its transmit slot. -/
structure Contained (s : RxSystem NetState) : Prop where
  processed : ∀ i de mcnt, s.call = some (.process i de mcnt) →
    de < s.ring.count ∧ ∃ net, etherProcessFrame s.net (s.ring.received de) mcnt = .ok net
  cleared : ∀ i de mcnt, s.call = some (.clear i de mcnt) →
    de < s.ring.count ∧ mcnt.toNat ≤ pcnet32BufferSize
  position : s.net.tx.ptr < s.net.tx.count
  packets : ∀ packet ∈ s.net.handed, packet.length ≤ pcnet32BufferSize

theorem RxInv.contained {s : RxSystem NetState} {returned : Nat} (inv : RxInv s returned)
    (net : NetContained s.net) : Contained s := by
  have size := inv.shared.wired.size
  have place : returned % 2 ^ 6 < s.ring.count := by
    rw [size]
    exact Nat.mod_lt _ (by decide)
  have progress := inv.progress
  refine ⟨?_, ?_, ?_, net.packets⟩
  · intro i de mcnt running
    obtain ⟨frame, -, holds, number, -⟩ := inv.passed running
    rw [running] at progress
    refine ⟨by rw [progress.2.1]; exact place, ?_⟩
    refine etherProcessFrame_contained net.inv rfl (by rw [number]; exact holds.fits) ?_
    intro x behind inside
    change s.ring.mem ((s.ring.slot de).toNat + x) = 0
    rw [holds.content x inside, ofList_behind _ _ (by omega)]
  · intro i de mcnt running
    rw [running] at progress
    exact ⟨by rw [progress.2.1]; exact place, progress.2.2.2.1⟩
  · rw [net.inv.wired.size]
    exact net.inv.ptr

/-- From the rings that `probe_pcnet32` sets up, frames of any content and of 0 to 1600 bytes are
received, answered and sent inside the objects they belong to, whatever came before them. -/
theorem receive_to_transmit_contained (bss : BootBss) (ram : Ram) (rxBuffers : UInt32)
    (rdes : Nat → Descriptor) (m : Mem) (area : BufferArea rxBuffers (2 ^ 6)) (kernelEnd : UInt32)
    (net : NetState) (start : NetStart kernelEnd net) :
    ∃ ring, probeRx (bootPhysaddr bss ram) rxBuffers rdes m = some ring ∧
      ∀ s, RxReachable etherProcessFrame TxCard ring net s → Contained s := by
  obtain ⟨ring, probed, wired, first, packets, fresh, clean⟩ := probeRx_ready bss ram rdes m area
  refine ⟨ring, probed, fun s reached => ?_⟩
  obtain ⟨returned, inv⟩ := reached.inv wired first packets fresh clean
  have none : ∀ packet ∈ net.handed, packet.length ≤ pcnet32BufferSize := by
    rw [start.records.2.2]
    exact fun packet member => absurd member List.not_mem_nil
  refine inv.contained (reached.above ⟨start.inv, none⟩ ?_ ?_)
  · exact fun s s' frame len slot contained done => contained.processed slot done
  · intro s s' contained released
    obtain ⟨idx, -, -, rfl⟩ := id released
    exact ⟨released.inv contained.inv, contained.packets⟩

/-- The device of cmain.c with an idle transmit ring. -/
theorem receive_to_transmit_contained_at :
    ∃ heap ring, probeRx (bootPhysaddr ⟨0x200000, rfl, by decide, by decide⟩ fun _ => 0) 0xC0180000
        (fun _ => ⟨0, 0, 0, 0⟩) (fun _ => 0) = some ring ∧
      ∀ s, RxReachable etherProcessFrame TxCard ring (bootedNet heap 0) s → Contained s := by
  obtain ⟨heap, run, -⟩ := bootedNet_heap
  exact ⟨heap, receive_to_transmit_contained ⟨0x200000, rfl, by decide, by decide⟩ (fun _ => 0)
    0xC0180000 _ _ ⟨by decide, by decide⟩ 0xC0180000 (bootedNet heap 0) (bootedNet_start run 0)⟩

end FrogOS
