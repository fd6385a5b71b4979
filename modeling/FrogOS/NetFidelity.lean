import FrogOS.NetEcho

set_option autoImplicit false

namespace FrogOS

open ByteMemory BoundedAccess

/-- The frame carries an IPv4 packet that passes the checks of `ipv4_process_packet`. -/
def Ipv4Accepted (frame : Block) (len : UInt16) : Prop :=
  ntohs (load16 frame.byte 12) = 0x0800 ∧ ipv4Accepts frame (ipLength len) = .ok true

instance (frame : Block) (len : UInt16) : Decidable (Ipv4Accepted frame len) :=
  inferInstanceAs (Decidable (_ ∧ _))

/-- Where the header length puts the payload of the IP packet. -/
def payloadAt (frame : Block) : Nat := 14 + (headerBytes (frame.byte 14)).toNat

/-- The ICMP message of the packet equals the bytes from `start` on, its type and checksum apart. -/
def CopiesMessage (source : Mem) (start : Nat) (packet : List UInt8) : Prop :=
  ∀ i, 34 + i < packet.length → i ≠ 0 → i ≠ 2 → i ≠ 3 →
    ofList packet (34 + i) = source (start + i)

section Answers

variable {s s' : NetState} {frame : Block} {len : UInt16}

/-- What comes of an accepted packet: an echo reply, or nothing is sent. -/
theorem accepted_done (inv : NetInv s) (slot : frame.size = 1600)
    (accepted : Ipv4Accepted frame len) (done : etherProcessFrame s frame len = .ok s') :
    ((frame.byte 23 = 1 ∧ frame.byte 34 = 8 ∧ s.pool.HasBuffer) ∧
        ∃ packet, EchoReply frame (echoLength frame len).toNat packet ∧
          s'.handed = s.handed ++ [packet]) ∨
      (¬ (frame.byte 23 = 1 ∧ frame.byte 34 = 8 ∧ s.pool.HasBuffer) ∧ s'.handed = s.handed) := by
  rcases etherProcessFrame_done inv slot done with ⟨rfl, silent⟩ | ⟨-, arp, -⟩ | ⟨some, echo, -⟩
  · refine Or.inr ⟨fun ⟨icmp, type, buffer⟩ => ?_, rfl⟩
    exact silent (Or.inr ⟨accepted.1, accepted.2, icmp, type⟩) buffer
  · exact absurd (arp.1.symm.trans accepted.1) (by decide)
  · obtain ⟨-, packet, reply, answered⟩ := echo_answered inv slot echo some done
    exact Or.inl ⟨⟨echo.2.2.1, echo.2.2.2, some⟩, packet, reply, answered.handed⟩

theorem handed_last {packets : List (List UInt8)} {packet other : List UInt8}
    (same : packets ++ [packet] = packets ++ [other]) : other = packet :=
  (List.singleton_inj.mp (List.append_cancel_left same)).symm

theorem handed_none {packets : List (List UInt8)} {packet : List UInt8} :
    packets ≠ packets ++ [packet] := by
  intro same
  have lengths := congrArg List.length same
  rw [List.length_append, List.length_singleton] at lengths
  omega

end Answers

section Options

/-- An accepted packet is answered if an ICMP echo request is where its header ends, and the answer
repeats what is there. -/
def AnswersPayload (s : NetState) (frame : Block) (s' : NetState) : Prop :=
  ((∃ packet, s'.handed = s.handed ++ [packet]) ↔
      frame.byte 23 = 1 ∧ frame.byte (payloadAt frame) = 8 ∧ s.pool.HasBuffer) ∧
    ∀ packet, s'.handed = s.handed ++ [packet] →
      CopiesMessage frame.byte (payloadAt frame) packet

/-- The bytes that `icmp_process_packet` takes for the message, those behind a header of 20 bytes,
are no others than the message's. -/
def PayloadAgrees (s : NetState) (frame : Block) (len : UInt16) : Prop :=
  frame.byte 23 = 1 → s.pool.HasBuffer →
    (frame.byte 34 = 8 ↔ frame.byte (payloadAt frame) = 8) ∧
      (frame.byte 34 = 8 → ∀ i, i < (echoLength frame len).toNat → i ≠ 0 → i ≠ 2 → i ≠ 3 →
        frame.byte (34 + i) = frame.byte (payloadAt frame + i))

variable {s s' : NetState} {frame : Block} {len : UInt16}

theorem payloadAt_plain (plain : frame.byte 14 &&& 0xf = 5) : payloadAt frame = 34 := by
  rw [payloadAt, headerBytes, plain]
  rfl

/-- Without options the two places are one. -/
theorem payloadAgrees_plain (plain : frame.byte 14 &&& 0xf = 5) : PayloadAgrees s frame len := by
  intro _ _
  rw [payloadAt_plain plain]
  exact ⟨Iff.rfl, fun _ _ _ _ _ _ => rfl⟩

theorem answersPayload_iff (inv : NetInv s) (slot : frame.size = 1600)
    (accepted : Ipv4Accepted frame len) (done : etherProcessFrame s frame len = .ok s') :
    AnswersPayload s frame s' ↔ PayloadAgrees s frame len := by
  rcases accepted_done inv slot accepted done with ⟨⟨icmp, type, some⟩, packet, reply, handed⟩ |
    ⟨silent, handed⟩
  · have sent : ∃ packet, s'.handed = s.handed ++ [packet] := ⟨packet, handed⟩
    constructor
    · intro ⟨decision, copies⟩ _ _
      refine ⟨⟨fun _ => (decision.mp sent).2.1, fun _ => type⟩, fun _ i inside t low high => ?_⟩
      have length := reply.length
      rw [← reply.message i inside t low high]
      exact copies packet handed i (by omega) t low high
    · intro agrees
      obtain ⟨types, bytes⟩ := agrees icmp some
      refine ⟨⟨fun _ => ⟨icmp, types.mp type, some⟩, fun _ => sent⟩, ?_⟩
      intro other last i inside t low high
      rw [handed] at last
      rw [handed_last last] at inside ⊢
      have short : i < (echoLength frame len).toNat := by
        have length := reply.length
        omega
      rw [reply.message i short t low high]
      exact bytes type i short t low high
  · have none : ∀ packet, s'.handed ≠ s.handed ++ [packet] := by
      rw [handed]
      exact fun packet => handed_none
    constructor
    · intro ⟨decision, _⟩ icmp some
      have other : frame.byte 34 ≠ 8 := fun type => silent ⟨icmp, type, some⟩
      refine ⟨⟨fun type => absurd type other, fun type => ?_⟩, fun type => absurd type other⟩
      obtain ⟨packet, sent⟩ := decision.mpr ⟨icmp, type, some⟩
      exact absurd sent (none packet)
    · intro agrees
      refine ⟨⟨fun ⟨packet, sent⟩ => absurd sent (none packet), fun ⟨icmp, type, buffer⟩ => ?_⟩,
        fun packet sent => absurd sent (none packet)⟩
      exact absurd ⟨icmp, (agrees icmp buffer).1.mpr type, buffer⟩ silent

end Options

/-- Exactly where the bytes at the fixed offset agree with those behind the header, accepted packets
are answered as they should be; without options that is always so. -/
theorem accepted_answers_payload_iff (kernelEnd : UInt32) (start s : NetState) (frame : Block)
    (len : UInt16) (first : NetStart kernelEnd start) (run : NetRun (fun _ _ _ => True) start s)
    (slot : frame.size = 1600) (accepted : Ipv4Accepted frame len) :
    (∀ s', etherProcessFrame s frame len = .ok s' →
        (AnswersPayload s frame s' ↔ PayloadAgrees s frame len)) ∧
      (18 ≤ len.toNat → len.toNat ≤ 1600 → ∃ s', etherProcessFrame s frame len = .ok s') ∧
      (frame.byte 14 &&& 0xf = 5 → PayloadAgrees s frame len) := by
  have inv := (run.inv first.inv).1
  refine ⟨fun s' done => answersPayload_iff inv slot accepted done, ?_, payloadAgrees_plain⟩
  exact fun long fits => etherProcessFrame_long inv slot long fits

/-- An echo request to the device behind the options NOP, NOP, NOP, EOL. -/
def optionsPing : List UInt8 :=
  [0x52, 0x54, 0x00, 0x12, 0x34, 0x56, 0x52, 0x54, 0x00, 0xaa, 0xbb, 0xcc, 0x08, 0x00,
    0x46, 0x00, 0x00, 0x20, 0x00, 0x00, 0x00, 0x00, 0x40, 0x01, 0x64, 0x3c,
    0xc0, 0xa8, 0xc9, 0x01, 0xc0, 0xa8, 0xc9, 0x4d, 0x01, 0x01, 0x01, 0x00,
    0x08, 0x00, 0xe5, 0xca, 0x12, 0x34, 0x00, 0x01]

/-- Of two first frames the ping without options is answered, the one with options is not. -/
theorem only_plain_ping_answered :
    ∃ heap s' t', etherProcessFrame (bootedNet heap 0) (slotOf broadcastPing) 46 = .ok s' ∧
      AnswersPayload (bootedNet heap 0) (slotOf broadcastPing) s' ∧
      etherProcessFrame (bootedNet heap 0) (slotOf optionsPing) 64 = .ok t' ∧
      ¬ AnswersPayload (bootedNet heap 0) (slotOf optionsPing) t' := by
  obtain ⟨heap, t', start, some, processed⟩ :=
    bootedNet_processes 0 optionsPing 64 (by decide) (by decide)
  obtain ⟨exactly, returns, plain⟩ := accepted_answers_payload_iff 0xC0180000 (bootedNet heap 0) _
    (slotOf broadcastPing) 46 start .start rfl (by decide)
  obtain ⟨s', done⟩ := returns (by decide) (by decide)
  have options := accepted_answers_payload_iff 0xC0180000 (bootedNet heap 0) _
    (slotOf optionsPing) 64 start .start rfl (by decide)
  refine ⟨heap, s', t', done, (exactly s' done).mpr (plain (by decide)), processed, ?_⟩
  rw [options.1 t' processed]
  intro agrees
  have type := (agrees (by decide) some).1.mpr (by decide)
  exact absurd type (by decide)

/-- It gets no answer. -/
theorem options_ping_unanswered :
    ¬ ∀ kernelEnd start s frame len, NetStart kernelEnd start →
      NetRun (fun _ _ _ => True) start s → frame.size = 1600 → Ipv4Accepted frame len →
      ∀ s', etherProcessFrame s frame len = .ok s' → AnswersPayload s frame s' := by
  intro claim
  obtain ⟨heap, s', start, some, done⟩ :=
    bootedNet_processes 0 optionsPing 64 (by decide) (by decide)
  have accepted : Ipv4Accepted (slotOf optionsPing) 64 := by decide
  have answers := claim 0xC0180000 (bootedNet heap 0) _ _ 64 start .start rfl accepted s' done
  have agrees := (answersPayload_iff start.inv rfl accepted done).mp answers
  have type := (agrees (by decide) some).1.mpr (by decide)
  exact absurd type (by decide)

section Padding

/-- The total length field. -/
def totLen (frame : Block) : Nat := (ntohs (load16 frame.byte 16)).toNat

/-- An echo request without options and not fragmented, in a frame that may be longer than the
packet. -/
structure PaddedRequest (frame : Block) (len : UInt16) : Prop where
  echo : EchoRequest frame len
  plain : frame.byte 14 &&& 0xf = 5
  unfragmented : ntohs (load16 frame.byte 20) &&& 0x3fff = 0
  least : 28 ≤ totLen frame
  most : totLen frame ≤ 1500
  room : totLen frame + 18 ≤ len.toNat

/-- The reply is as long as the packet of the request and repeats its message. -/
def AnswersPacket (s : NetState) (frame : Block) (s' : NetState) : Prop :=
  ∀ packet, s'.handed = s.handed ++ [packet] →
    (ntohs (load16 (ofList packet) 16)).toNat = totLen frame ∧
      packet.length = 34 + (totLen frame - 20) ∧ CopiesMessage frame.byte 34 packet

variable {s s' : NetState} {frame : Block} {len : UInt16}

theorem htons_toNat (hs : UInt16) : (htons hs).toNat = hs.toNat % 256 * 256 + hs.toNat / 256 := by
  have bound := hs.toNat_lt
  have left : (hs <<< 8).toNat = 2 ^ 8 * (hs.toNat % 2 ^ 8) := by
    rw [UInt16.toNat_shiftLeft, Nat.shiftLeft_eq]
    change hs.toNat * 2 ^ 8 % 2 ^ 16 = _
    omega
  have right : (hs >>> 8).toNat = hs.toNat / 2 ^ 8 := by
    rw [UInt16.toNat_shiftRight, Nat.shiftRight_eq_div_pow]
    rfl
  rw [htons, UInt16.toNat_or, left, right, ← Nat.two_pow_add_eq_or_of_lt (by omega)]
  omega

theorem ntohs_htons (hs : UInt16) : ntohs (htons hs) = hs := by
  have bound := hs.toNat_lt
  apply UInt16.toNat_inj.mp
  rw [ntohs, htons_toNat, htons_toNat]
  omega

/-- The reply goes by the length of the frame. -/
theorem answersPacket_iff (inv : NetInv s) (slot : frame.size = 1600)
    (request : PaddedRequest frame len) (done : etherProcessFrame s frame len = .ok s') :
    AnswersPacket s frame s' ↔ (s.pool.HasBuffer → len.toNat = totLen frame + 18) := by
  have least := request.least
  have room := request.room
  have bound := len.toNat_lt
  have header : (headerBytes (frame.byte 14)).toNat = 20 := by
    rw [headerBytes, request.plain]
    rfl
  obtain ⟨-, -, rest⟩ := echoLength_toNat slot (by omega) request.echo.2.1
  rw [header] at rest
  have accepted : Ipv4Accepted frame len := ⟨request.echo.1, request.echo.2.1⟩
  rcases accepted_done inv slot accepted done with ⟨⟨icmp, type, some⟩, packet, reply, handed⟩ |
    ⟨silent, handed⟩
  · have length := reply.length
    constructor
    · intro answers _
      have same := (answers packet handed).2.1
      omega
    · intro unpadded other last
      have exact' := unpadded some
      rw [handed] at last
      rw [handed_last last]
      refine ⟨?_, by omega, fun i inside t low high => reply.message i (by omega) t low high⟩
      rw [reply.totLen, ntohs_htons, UInt16.toNat_ofNat']
      omega
  · constructor
    · exact fun _ buffer => absurd ⟨request.echo.2.2.1, request.echo.2.2.2, buffer⟩ silent
    · intro _ packet sent
      rw [handed] at sent
      exact absurd sent handed_none

end Padding

/-- Exactly the echo requests without padding are answered by their own length, if they are answered
at all. -/
theorem padding_returned_iff (kernelEnd : UInt32) (start s : NetState) (frame : Block)
    (len : UInt16) (first : NetStart kernelEnd start) (run : NetRun (fun _ _ _ => True) start s)
    (slot : frame.size = 1600) (request : PaddedRequest frame len) :
    (∀ s', etherProcessFrame s frame len = .ok s' →
        (AnswersPacket s frame s' ↔ (s.pool.HasBuffer → len.toNat = totLen frame + 18))) ∧
      (len.toNat ≤ 1600 → ∃ s', etherProcessFrame s frame len = .ok s') := by
  have inv := (run.inv first.inv).1
  have room := request.room
  refine ⟨fun s' done => answersPacket_iff inv slot request done, fun fits => ?_⟩
  exact etherProcessFrame_long inv slot (by omega) fits

/-- An echo request to the device with no data. -/
def shortPing : List UInt8 :=
  [0x52, 0x54, 0x00, 0x12, 0x34, 0x56, 0x52, 0x54, 0x00, 0xaa, 0xbb, 0xcc, 0x08, 0x00,
    0x45, 0x00, 0x00, 0x1c, 0x00, 0x00, 0x00, 0x00, 0x40, 0x01, 0x67, 0x41,
    0xc0, 0xa8, 0xc9, 0x01, 0xc0, 0xa8, 0xc9, 0x4d, 0x08, 0x00, 0xe5, 0xca, 0x12, 0x34, 0x00, 0x01]

theorem shortPing_request (len : UInt16) (room : 46 ≤ len.toNat)
    (echo : EchoRequest (slotOf shortPing) len) : PaddedRequest (slotOf shortPing) len :=
  ⟨echo, by decide, by decide, by decide, by decide, room⟩

/-- In a frame that ends with it. -/
theorem short_ping_answers_packet :
    ∃ heap s', etherProcessFrame (bootedNet heap 0) (slotOf shortPing) 46 = .ok s' ∧
      AnswersPacket (bootedNet heap 0) (slotOf shortPing) s' := by
  obtain ⟨heap, run, -⟩ := bootedNet_heap
  obtain ⟨exactly, returns⟩ := padding_returned_iff 0xC0180000 (bootedNet heap 0) _
    (slotOf shortPing) 46 (bootedNet_start run 0) .start rfl
    (shortPing_request 46 (by decide) (by decide))
  obtain ⟨s', done⟩ := returns (by decide)
  exact ⟨heap, s', done, (exactly s' done).mpr fun _ => by decide⟩

/-- In the shortest frame of Ethernet the padding comes back. -/
theorem minimal_frame_returns_padding :
    ¬ ∀ kernelEnd start s frame len, NetStart kernelEnd start →
      NetRun (fun _ _ _ => True) start s → frame.size = 1600 → PaddedRequest frame len →
      ∀ s', etherProcessFrame s frame len = .ok s' → AnswersPacket s frame s' := by
  intro claim
  obtain ⟨heap, s', start, some, done⟩ :=
    bootedNet_processes 0 shortPing 64 (by decide) (by decide)
  have request := shortPing_request 64 (by decide) (by decide)
  have answers := claim 0xC0180000 (bootedNet heap 0) _ _ 64 start .start rfl request s' done
  have unpadded := (answersPacket_iff start.inv rfl request done).mp answers some
  exact absurd unpadded (by decide)

section Whole

/-- An echo reply has the whole ICMP header, and its checksum verifies. -/
def WholeReply (packet : List UInt8) : Prop :=
  (packet.drop 12).take 2 = le16 (htons 0x0800) →
    42 ≤ packet.length ∧ ipCksum 0 (packetBlock packet) 34 (packet.length - 34) = .ok 0

/-- An echo request that is going to be answered has the whole ICMP header. -/
def WholeRequest (s : NetState) (frame : Block) (len : UInt16) : Prop :=
  EchoRequest frame len → s.pool.HasBuffer → 8 ≤ (echoLength frame len).toNat

variable {s s' : NetState} {frame : Block} {len : UInt16}

/-- Exactly the frames whose message is whole lead to whole replies. -/
theorem frame_whole_iff (inv : NetInv s) (slot : frame.size = 1600)
    (done : etherProcessFrame s frame len = .ok s')
    (before : ∀ packet ∈ s.handed, WholeReply packet) :
    (∀ packet ∈ s'.handed, WholeReply packet) ↔ WholeRequest s frame len := by
  rcases etherProcessFrame_done inv slot done with ⟨rfl, silent⟩ |
    ⟨-, arp, packet, made, answered⟩ |
    ⟨some, echo, -⟩
  · exact ⟨fun _ echo some => absurd some (silent (Or.inr echo)), fun _ => before⟩
  · rw [answered.handed_iff before]
    refine ⟨fun _ echo => absurd (arp.1.symm.trans echo.1) (by decide), fun _ type => ?_⟩
    exact absurd (made.2.1.symm.trans type) (by decide)
  · obtain ⟨-, packet, reply, answered⟩ := echo_answered inv slot echo some done
    have length := reply.length
    rw [answered.handed_iff before]
    constructor
    · intro whole _ _
      have least := (whole reply.ethertype).1
      omega
    · intro whole _
      have least := whole echo some
      refine ⟨by omega, ?_⟩
      rw [length, Nat.add_sub_cancel_left]
      exact reply.cksum (by omega)

theorem NetRun.whole {start : NetState} (run : NetRun WholeRequest start s) (first : NetInv start)
    (records : start.handed = []) : ∀ packet ∈ s.handed, WholeReply packet :=
  run.handed first records fun _ _ _ _ inv _ slot met done before =>
    (frame_whole_iff inv slot done before).mpr met

end Whole

/-- In every run in which the echo requests that get an answer have the whole ICMP header, so have
the replies, and they verify; the next frame keeps it so exactly if it meets the condition. -/
theorem whole_messages_answered (kernelEnd : UInt32) (start s : NetState)
    (first : NetStart kernelEnd start) (run : NetRun WholeRequest start s) :
    (∀ packet ∈ s.handed, WholeReply packet) ∧
      ∀ frame len s', frame.size = 1600 → etherProcessFrame s frame len = .ok s' →
        ((∀ packet ∈ s'.handed, WholeReply packet) ↔ WholeRequest s frame len) := by
  have whole := run.whole first.inv first.records.2.2
  refine ⟨whole, fun frame len s' slot done => ?_⟩
  exact frame_whole_iff (run.inv first.inv).1 slot done whole

/-- A ping and its answer. -/
theorem whole_ping_answered :
    ∃ heap s, etherProcessFrame (bootedNet heap 0) (slotOf shortPing) 46 = .ok s ∧
      (∀ packet ∈ s.handed, WholeReply packet) ∧
      ∀ frame len s', frame.size = 1600 → etherProcessFrame s frame len = .ok s' →
        ((∀ packet ∈ s'.handed, WholeReply packet) ↔ WholeRequest s frame len) := by
  obtain ⟨heap, s, start, -, done⟩ :=
    bootedNet_processes 0 shortPing 46 (by decide) (by decide)
  have eight : 8 ≤ (echoLength (slotOf shortPing) 46).toNat := by decide
  exact ⟨heap, s, done, whole_messages_answered 0xC0180000 (bootedNet heap 0) s start
    (.frame .start rfl (fun _ _ => eight) done)⟩

/-- The shortest frame of Ethernet with 24 bytes of options, the first of which is an 8. -/
def cutPing : List UInt8 :=
  [0x52, 0x54, 0x00, 0x12, 0x34, 0x56, 0x52, 0x54, 0x00, 0xaa, 0xbb, 0xcc, 0x08, 0x00,
    0x4b, 0x00, 0x00, 0x2e, 0x00, 0x00, 0x00, 0x00, 0x40, 0x01, 0x59, 0x2f,
    0xc0, 0xa8, 0xc9, 0x01, 0xc0, 0xa8, 0xc9, 0x4d, 0x08, 0x00, 0x00, 0x00, 0x00, 0x00, 0x00, 0x00,
    0x00, 0x00, 0x00, 0x00, 0x00, 0x00, 0x00, 0x00, 0x00, 0x00, 0x00, 0x00, 0x00, 0x00, 0x00, 0x00,
    0x11, 0x22]

/-- The answer to it has two bytes of a message. -/
theorem cut_ping_answered :
    ¬ ∀ kernelEnd start s, NetStart kernelEnd start → NetRun (fun _ _ _ => True) start s →
      ∀ packet ∈ s.handed, WholeReply packet := by
  intro claim
  obtain ⟨heap, s, start, some, done⟩ :=
    bootedNet_processes 0 cutPing 64 (by decide) (by decide)
  have echo : EchoRequest (slotOf cutPing) 64 := by decide
  have whole := claim 0xC0180000 (bootedNet heap 0) s start (.frame .start rfl trivial done)
  have eight := (frame_whole_iff start.inv rfl done (by rintro _ ⟨⟩)).mp whole echo some
  exact absurd eight (by decide)

end FrogOS
