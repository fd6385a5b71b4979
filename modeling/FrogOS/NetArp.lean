import FrogOS.NetFidelity

set_option autoImplicit false

namespace FrogOS

open ByteMemory BoundedAccess

/-- The frame carries an ARP packet. -/
def CarriesArp (frame : Block) : Prop := ntohs (load16 frame.byte 12) = 0x0806

/-- An ARP request over Ethernet for the device's IPv4 address. -/
structure AsksFor (dev : NetDev) (frame : Block) : Prop where
  htype : ntohs (load16 frame.byte 14) = 1
  ptype : ntohs (load16 frame.byte 16) = 0x0800
  hlen : frame.byte 18 = 6
  plen : frame.byte 19 = 4
  oper : ntohs (load16 frame.byte 20) = 1
  tpa : load32 frame.byte 38 = dev.ipv4Addr

/-- The sender addresses of an ARP packet. -/
def arpSha (frame : Block) : List UInt8 := bytes frame.byte 22 6

def arpSpa (frame : Block) : UInt32 := load32 frame.byte 28

/-- The Ethernet source of the frame. -/
def etherSrc (frame : Block) : List UInt8 := bytes frame.byte 6 6

/-- A reply of the device that has `tha` as its target hardware address. -/
structure ArpReplyTo (dev : NetDev) (frame : Block) (tha : List UInt8) (packet : List UInt8) :
    Prop where
  oper : (packet.drop 20).take 2 = le16 (htons 2)
  sha : (packet.drop 22).take 6 = dev.hwAddr
  spa : (packet.drop 28).take 4 = le32 dev.ipv4Addr
  target : (packet.drop 32).take 6 = tha
  tpa : (packet.drop 38).take 4 = le32 (arpSpa frame)

section Answers

variable {dev : NetDev} {s s' : NetState} {frame : Block} {len : UInt16}

theorem arpForUs_iff (slot : frame.size = 1600) :
    arpForUs dev frame = .ok true ↔ AsksFor dev frame := by
  unfold arpForUs
  simp (disch := omega) only [Block.read16_ok, Block.read8_ok, Block.read32_ok, bind, Except.bind]
  constructor
  · intro accepted
    split at accepted
    · cases accepted
    split at accepted
    · cases accepted
    split at accepted
    · cases accepted
    split at accepted
    · cases accepted
    split at accepted
    · cases accepted
    rename_i htype ptype hlen plen oper
    exact ⟨Decidable.not_not.mp htype, Decidable.not_not.mp ptype, Decidable.not_not.mp hlen,
      Decidable.not_not.mp plen, Decidable.not_not.mp oper,
      of_decide_eq_true (Except.ok.inj accepted)⟩
  · intro asks
    simp [asks.htype, asks.ptype, asks.hlen, asks.plen, asks.oper, asks.tpa, pure, Except.pure]

/-- `arp_process_packet` takes the target hardware address from the Ethernet header. -/
theorem arpReply_replies (slot : frame.size = 1600) (mine : load32 frame.byte 38 = dev.ipv4Addr) :
    Builds (arpReply dev frame) 42 (ArpReplyTo dev frame (etherSrc frame)) := by
  intro buff m
  have six := dev.hwLength
  have source : (bytes frame.byte 6 6).length = 6 := bytes_length _ _ _
  obtain ⟨m', done⟩ := putAll_ok buff.toNat m _ (arpWrites_fit dev (bytes frame.byte 6 6)
    (load32 frame.byte 28) (load32 frame.byte 38) source)
  refine ⟨m', ?_, putAll_frame done, ?_, ?_, ?_, ?_, ?_⟩
  · unfold arpReply
    simp (disch := omega) only [Block.readBytes_ok, Block.read32_ok, bind, Except.bind]
    exact done
  · exact field_of_write 42 done 7 rfl
      (by simp [arpWrites, Write.Apart, Write.stop, six, source]) (by simp [Write.stop])
  · have field := field_of_write 42 done 8 rfl
      (by simp [arpWrites, Write.Apart, Write.stop, six, source]) (by simp [Write.stop, six])
    simpa only [six] using field
  · rw [← mine]
    exact field_of_write 42 done 9 rfl
      (by simp [arpWrites, Write.Apart, Write.stop, source]) (by simp [Write.stop])
  · have field := field_of_write 42 done 10 rfl
      (by simp [arpWrites, Write.Apart, Write.stop, source]) (by simp [Write.stop, source])
    simpa only [source, etherSrc] using field
  · exact field_of_write 42 done 11 rfl (by simp [arpWrites]) (by simp [Write.stop])

theorem arp_replies (slot : frame.size = 1600) (asks : AsksFor dev frame) :
    Builds (arpReply dev frame) (14 + 28 : UInt32).toNat
      (ArpReplyTo dev frame (etherSrc frame)) :=
  arpReply_replies slot asks.tpa

/-- What comes of an ARP packet: one reply, or nothing is sent. -/
theorem arp_done (inv : NetInv s) (slot : frame.size = 1600) (arp : CarriesArp frame)
    (done : etherProcessFrame s frame len = .ok s') :
    ((AsksFor s.dev frame ∧ s.pool.HasBuffer) ∧
        ∃ packet, ArpReplyTo s.dev frame (etherSrc frame) packet ∧
          s'.handed = s.handed ++ [packet]) ∨
      (¬ (AsksFor s.dev frame ∧ s.pool.HasBuffer) ∧ s'.handed = s.handed) := by
  have returns {t : NetState} (same : etherProcessFrame s frame len = .ok t) : s' = t :=
    Except.ok.inj (done.symm.trans same)
  rcases etherProcessFrame_cases s len slot with ⟨request, same⟩ | ⟨echo, -⟩ | ⟨other, -, same⟩
  · have asks := (arpForUs_iff slot).mp request.2
    by_cases buffer : s.pool.HasBuffer
    · obtain ⟨packet, t, sent, replies, answered⟩ :=
        reply_some inv buffer (arp_replies slot asks) (by decide)
      refine Or.inl ⟨⟨asks, buffer⟩, packet, replies, ?_⟩
      rw [returns (same.trans sent)]
      exact answered.handed
    · refine Or.inr ⟨fun both => buffer both.2, ?_⟩
      rw [returns (same.trans (reply_none inv buffer))]
  · exact absurd (arp.symm.trans echo.1) (by decide)
  · refine Or.inr ⟨fun both => other ⟨arp, (arpForUs_iff slot).mpr both.1⟩, ?_⟩
    rw [returns same]

end Answers

/-- Exactly the requests for the device are answered if there is a buffer, by one reply each that
goes to the sender that the request names. -/
def FollowsRfc826 (s : NetState) (frame : Block) (s' : NetState) : Prop :=
  (AsksFor s.dev frame ∧ s.pool.HasBuffer →
      ∃ packet, ArpReplyTo s.dev frame (arpSha frame) packet ∧ s'.handed = s.handed ++ [packet]) ∧
    (¬ (AsksFor s.dev frame ∧ s.pool.HasBuffer) → s'.handed = s.handed)

/-- A request that is going to be answered has come from its sender directly. -/
def FromSender (s : NetState) (frame : Block) : Prop :=
  AsksFor s.dev frame → s.pool.HasBuffer → etherSrc frame = arpSha frame

theorem followsRfc826_iff {s s' : NetState} {frame : Block} {len : UInt16} (inv : NetInv s)
    (slot : frame.size = 1600) (arp : CarriesArp frame)
    (done : etherProcessFrame s frame len = .ok s') :
    FollowsRfc826 s frame s' ↔ FromSender s frame := by
  rcases arp_done inv slot arp done with ⟨both, packet, replies, handed⟩ | ⟨none, handed⟩
  · constructor
    · intro follows _ _
      obtain ⟨other, right, last⟩ := follows.1 both
      rw [handed] at last
      rw [handed_last last] at right
      exact replies.target.symm.trans right.target
    · intro direct
      refine ⟨fun _ => ⟨packet, ?_, handed⟩, fun none => absurd both none⟩
      rw [← direct both.1 both.2]
      exact replies
  · exact ⟨fun _ asks buffer => absurd ⟨asks, buffer⟩ none,
      fun _ => ⟨fun both => absurd both none, fun _ => handed⟩⟩

/-- Every ARP packet is processed, and exactly those that reach the device from the sender they name
are answered as RFC 826 asks for. -/
theorem arp_follows_rfc826_iff (kernelEnd : UInt32) (start s : NetState) (frame : Block)
    (len : UInt16) (first : NetStart kernelEnd start) (run : NetRun (fun _ _ _ => True) start s)
    (slot : frame.size = 1600) (arp : CarriesArp frame) :
    ∃ s', etherProcessFrame s frame len = .ok s' ∧
      (FollowsRfc826 s frame s' ↔ FromSender s frame) := by
  have inv := (run.inv first.inv).1
  have notIp : ¬ EchoRequest frame len := fun echo => absurd (arp.symm.trans echo.1) (by decide)
  obtain ⟨s', done⟩ := etherProcessFrame_ok inv slot fun echo => absurd echo notIp
  exact ⟨s', done, followsRfc826_iff inv slot arp done⟩

/-- On one network the two source addresses are the same. -/
theorem who_has_follows_rfc826 :
    ∃ heap s', etherProcessFrame (bootedNet heap 0) (slotOf whoHas) 64 = .ok s' ∧
      FollowsRfc826 (bootedNet heap 0) (slotOf whoHas) s' := by
  obtain ⟨heap, run, -⟩ := bootedNet_heap
  obtain ⟨s', done, exactly⟩ := arp_follows_rfc826_iff 0xC0180000 (bootedNet heap 0) _
    (slotOf whoHas) 64 (bootedNet_start run 0) .start rfl (by unfold CarriesArp; decide)
  exact ⟨heap, s', done, exactly.mpr fun _ _ => by decide⟩

/-- The same question, which a bridge of its own address has passed on. -/
def relayedWhoHas : List UInt8 :=
  [0xff, 0xff, 0xff, 0xff, 0xff, 0xff, 0x52, 0x54, 0x00, 0xdd, 0xee, 0xff, 0x08, 0x06,
    0x00, 0x01, 0x08, 0x00, 0x06, 0x04, 0x00, 0x01, 0x52, 0x54, 0x00, 0xaa, 0xbb, 0xcc,
    0xc0, 0xa8, 0xc9, 0x01, 0x00, 0x00, 0x00, 0x00, 0x00, 0x00, 0xc0, 0xa8, 0xc9, 0x4d]

/-- The reply names the bridge. -/
theorem relayed_request_names_relay :
    ¬ ∀ kernelEnd start s frame len, NetStart kernelEnd start →
      NetRun (fun _ _ _ => True) start s → frame.size = 1600 → CarriesArp frame →
      ∀ s', etherProcessFrame s frame len = .ok s' → FollowsRfc826 s frame s' := by
  intro claim
  obtain ⟨heap, s', start, buffer, done⟩ :=
    bootedNet_processes 0 relayedWhoHas 64 (by decide) (by decide)
  have arp : CarriesArp (slotOf relayedWhoHas) := by unfold CarriesArp; decide
  have follows := claim 0xC0180000 (bootedNet heap 0) _ _ 64 start .start rfl arp s' done
  have asks : AsksFor ⟨[0x52, 0x54, 0x00, 0x12, 0x34, 0x56], rfl, 0x4DC9A8C0⟩
      (slotOf relayedWhoHas) := (arpForUs_iff rfl).mp (by decide)
  have direct := (followsRfc826_iff start.inv rfl arp done).mp follows asks buffer
  exact absurd direct (by decide)

end FrogOS
