import FrogOS.NetContainment

set_option autoImplicit false

namespace FrogOS

open ByteMemory BoundedAccess

/-- The sender's protocol address: where ARP has it, or where IPv4 has it. -/
def senderField (packet : List UInt8) : List UInt8 :=
  if (packet.drop 12).take 2 = le16 (htons 0x0806) then (packet.drop 28).take 4
  else (packet.drop 26).take 4

/-- The packet says that it comes from the device. -/
def OwnIdentity (dev : NetDev) (packet : List UInt8) : Prop :=
  (packet.drop 6).take 6 = dev.hwAddr ∧ senderField packet = le32 dev.ipv4Addr

/-- An echo request that is going to be answered is addressed to the device. -/
def Addressed (s : NetState) (frame : Block) (len : UInt16) : Prop :=
  EchoRequest frame len → s.pool.HasBuffer →
    bytes frame.byte 0 6 = s.dev.hwAddr ∧ load32 frame.byte 30 = s.dev.ipv4Addr

section Packets

variable {dev : NetDev} {frame : Block} {packet : List UInt8}

/-- ARP answers only requests for the device's own address. -/
theorem arpForUs_target (slot : frame.size = 1600) (accepted : arpForUs dev frame = .ok true) :
    load32 frame.byte 38 = dev.ipv4Addr := by
  unfold arpForUs at accepted
  simp (disch := omega) only [Block.read16_ok, Block.read8_ok, Block.read32_ok, bind, Except.bind]
    at accepted
  repeat' split at accepted
  all_goals first
    | exact of_decide_eq_true (Except.ok.inj accepted)
    | cases accepted

theorem arp_identity (slot : frame.size = 1600) (arp : ArpRequest dev frame)
    (made : ArpAnswer dev frame packet) : OwnIdentity dev packet := by
  obtain ⟨source, type, sender⟩ := made
  refine ⟨source, ?_⟩
  rw [senderField, if_pos type, sender, arpForUs_target slot arp.2]

theorem echo_identity_iff (made : EchoAnswer frame packet) :
    OwnIdentity dev packet ↔
      bytes frame.byte 0 6 = dev.hwAddr ∧ load32 frame.byte 30 = dev.ipv4Addr := by
  obtain ⟨source, type, sender⟩ := made
  have other : le16 (htons 0x0800) ≠ le16 (htons 0x0806) := by decide
  rw [OwnIdentity, senderField, type, if_neg other, source, sender]
  exact and_congr_right fun _ => ⟨le32_inj, congrArg le32⟩

end Packets

section Step

variable {s s' : NetState} {frame : Block} {len : UInt16}

/-- Exactly the frames that are addressed rightly lead to packets with the device's identity. -/
theorem frame_identity_iff (inv : NetInv s) (slot : frame.size = 1600)
    (done : etherProcessFrame s frame len = .ok s')
    (before : ∀ packet ∈ s.handed, OwnIdentity s.dev packet) :
    (∀ packet ∈ s'.handed, OwnIdentity s.dev packet) ↔ Addressed s frame len := by
  rcases etherProcessFrame_done inv slot done with ⟨rfl, silent⟩ |
    ⟨-, arp, packet, made, answered⟩ |
    ⟨some, echo, packet, made, answered⟩
  · exact ⟨fun _ echo some => absurd some (silent (Or.inr echo)), fun _ => before⟩
  · rw [answered.handed_iff before]
    refine ⟨fun _ echo => ?_, fun _ => arp_identity slot arp made⟩
    exact absurd (arp.1.symm.trans echo.1) (by decide)
  · rw [answered.handed_iff before, echo_identity_iff made]
    exact ⟨fun right _ _ => right, fun right => right echo some⟩

/-- An echo request for another address gets no answer. -/
theorem other_echo_silent (inv : NetInv s) (slot : frame.size = 1600)
    (done : etherProcessFrame s frame len = .ok s') (addressed : Addressed s frame len)
    (echo : EchoRequest frame len) (other : load32 frame.byte 30 ≠ s.dev.ipv4Addr) :
    s'.handed = s.handed := by
  have none : ¬ s.pool.HasBuffer := fun some => other (addressed echo some).2
  rcases etherProcessFrame_done inv slot done with ⟨rfl, -⟩ | ⟨some, -⟩ | ⟨some, -⟩
  · rfl
  · exact absurd some none
  · exact absurd some none

theorem NetRun.identity {start : NetState} (run : NetRun Addressed start s) (first : NetInv start)
    (records : start.handed = []) : ∀ packet ∈ s.handed, OwnIdentity start.dev packet := by
  refine run.handed first records ?_
  intro s s' frame len inv dev slot met done before
  rw [← dev] at before ⊢
  exact (frame_identity_iff inv slot done before).mpr met

end Step

/-- In every run in which the echo requests that get an answer are addressed to the device, the
device speaks only for itself; the next frame keeps it so exactly if it meets the condition. -/
theorem own_identity_on_the_wire (kernelEnd : UInt32) (start s : NetState)
    (first : NetStart kernelEnd start) (run : NetRun Addressed start s) :
    (∀ packet ∈ s.handed, OwnIdentity start.dev packet) ∧
      ∀ frame len s', frame.size = 1600 → etherProcessFrame s frame len = .ok s' →
        ((∀ packet ∈ s'.handed, OwnIdentity start.dev packet) ↔ Addressed s frame len) ∧
        (Addressed s frame len → EchoRequest frame len →
          load32 frame.byte 30 ≠ start.dev.ipv4Addr → s'.handed = s.handed) := by
  obtain ⟨inv, dev⟩ := run.inv first.inv
  have own := run.identity first.inv first.records.2.2
  rw [← dev] at own ⊢
  refine ⟨own, fun frame len s' slot done => ⟨frame_identity_iff inv slot done own, ?_⟩⟩
  exact fun addressed echo other => other_echo_silent inv slot done addressed echo other

/-- An ARP request and its answer. -/
theorem own_identity_in_arp :
    ∃ heap s, etherProcessFrame (bootedNet heap 0) (slotOf whoHas) 64 = .ok s ∧
      (∀ packet ∈ s.handed, OwnIdentity (bootedNet heap 0).dev packet) ∧
      ∀ frame len s', frame.size = 1600 → etherProcessFrame s frame len = .ok s' →
        ((∀ packet ∈ s'.handed, OwnIdentity (bootedNet heap 0).dev packet) ↔
          Addressed s frame len) ∧
        (Addressed s frame len → EchoRequest frame len →
          load32 frame.byte 30 ≠ (bootedNet heap 0).dev.ipv4Addr → s'.handed = s.handed) := by
  obtain ⟨heap, s, start, -, done⟩ :=
    bootedNet_processes 0 whoHas 64 (by decide) (by decide)
  have short : ¬ EchoRequest (slotOf whoHas) 64 := by decide
  exact ⟨heap, s, done, own_identity_on_the_wire 0xC0180000 (bootedNet heap 0) s start
    (.frame .start rfl (fun echo => absurd echo short) done)⟩

/-- An echo request to the broadcast addresses of the network of cmain.c. -/
def broadcastPing : List UInt8 :=
  [0xff, 0xff, 0xff, 0xff, 0xff, 0xff, 0x52, 0x54, 0x00, 0xaa, 0xbb, 0xcc, 0x08, 0x00,
    0x45, 0x00, 0x00, 0x1c, 0x00, 0x00, 0x00, 0x00, 0x40, 0x01, 0x66, 0x8f,
    0xc0, 0xa8, 0xc9, 0x01, 0xc0, 0xa8, 0xc9, 0xff, 0x08, 0x00, 0xf7, 0xff]

/-- The answer has the broadcast address as its source. -/
theorem broadcast_ping_forges_source :
    ¬ ∀ kernelEnd start s, NetStart kernelEnd start → NetRun (fun _ _ _ => True) start s →
      ∀ packet ∈ s.handed, OwnIdentity start.dev packet := by
  intro claim
  obtain ⟨heap, s, start, some, done⟩ :=
    bootedNet_processes 0 broadcastPing 46 (by decide) (by decide)
  have echo : EchoRequest (slotOf broadcastPing) 46 := by decide
  have own := claim 0xC0180000 (bootedNet heap 0) s start (.frame .start rfl trivial done)
  have addressed := (frame_identity_iff start.inv rfl done (by rintro _ ⟨⟩)).mp own echo some
  have other : bytes (slotOf broadcastPing).byte 0 6 ≠ [0x52, 0x54, 0x00, 0x12, 0x34, 0x56] := by
    decide
  exact absurd addressed.1 other

end FrogOS
