import FrogOS.OnesComplement
import FrogOS.NetIdentity

set_option autoImplicit false

namespace FrogOS

open ByteMemory BoundedAccess OnesComplement

section Checksum

variable {b : Block} {buff len : Nat}

theorem foldCarry_folds (rounds : Nat) (sum : UInt32)
    (settled : (foldCarry rounds sum).toNat < 2 ^ 16) :
    Folds 16 sum.toNat (foldCarry rounds sum).toNat := by
  induction rounds generalizing sum with
  | zero => exact Folds.of_small settled
  | succ rounds ih =>
      rw [foldCarry] at settled ⊢
      split at settled
      · rename_i clear
        rw [if_pos clear]
        exact Folds.of_small settled
      · rename_i carry
        rw [if_neg carry]
        have rest := ih _ settled
        rw [foldCarry_round] at rest
        exact rest.endAround

theorem cksumLoop_sum (buff len : Nat) (sum : UInt32) (inside : buff + len ≤ b.size)
    (room : sum.toNat + wordSum b.byte buff len < 2 ^ 32) :
    ∃ total, cksumLoop b buff len sum = .ok total ∧
      total.toNat = sum.toNat + wordSum b.byte buff len := by
  induction buff, len, sum using cksumLoop.induct with
  | case1 buff len sum ih =>
      rw [wordSum] at room ⊢
      have word : (sum + (load16 b.byte buff).toUInt32).toNat =
          sum.toNat + (load16 b.byte buff).toNat := by
        rw [UInt32.toNat_add, UInt16.toNat_toUInt32]
        omega
      obtain ⟨total, rest, value⟩ := ih (load16 b.byte buff) (by omega) (by omega)
      refine ⟨total, ?_, by omega⟩
      rw [cksumLoop, Block.read16_ok (by omega)]
      exact rest
  | case2 buff sum =>
      rw [wordSum] at room ⊢
      refine ⟨sum + (b.byte buff).toUInt32, ?_, ?_⟩
      · rw [cksumLoop, Block.read8_ok inside]
        rfl
      · rw [UInt32.toNat_add, UInt8.toNat_toUInt32]
        omega
  | case3 buff sum => exact ⟨sum, rfl, rfl⟩

/-- `ip_cksum` is the complement of the one's complement sum. -/
theorem ipCksum_folds (prev : UInt16) (inside : buff + len ≤ b.size) (short : len ≤ 131072) :
    ∃ r, Folds 16 (prev.toNat + wordSum b.byte buff len) r ∧
      ipCksum prev b buff len = .ok (UInt16.ofNat (65535 - r)) := by
  have bound := wordSum_le b.byte buff len
  have first := prev.toNat_lt
  obtain ⟨total, ends, value⟩ := cksumLoop_sum buff len prev.toUInt32 inside
    (by rw [UInt16.toNat_toUInt32]; omega)
  rw [UInt16.toNat_toUInt32] at value
  have settled := foldCarry_done total
  have folds := foldCarry_folds 3 total settled
  rw [value] at folds
  refine ⟨_, folds, ?_⟩
  rw [ipCksum, ends]
  apply congrArg Except.ok
  apply UInt16.toNat_inj.mp
  have mask : (~~~(foldCarry 3 total) &&& (0xffff : UInt32)).toNat =
      (2 ^ 32 - 1 - (foldCarry 3 total).toNat) % 2 ^ 16 := by
    rw [UInt32.toNat_and, UInt32.toNat_not]
    exact Nat.and_two_pow_sub_one_eq_mod _ 16
  rw [UInt32.toNat_toUInt16, mask, UInt16.toNat_ofNat']
  omega

theorem ipCksum_verifies (inside : buff + len ≤ b.size) (short : len ≤ 131072)
    (negative : Folds 16 (wordSum b.byte buff len) 65535) : ipCksum 0 b buff len = .ok 0 := by
  obtain ⟨r, folds, computed⟩ := ipCksum_folds 0 inside short
  rw [show (0 : UInt16).toNat = 0 from rfl, Nat.zero_add] at folds
  rw [computed, folds.unique negative]
  rfl

end Checksum

/-- A packet as the bytes that go out. -/
def packetBlock (packet : List UInt8) : Block := { size := packet.length, byte := ofList packet }

/-- An IPv4 header without options that verifies, not fragmented and of no special service. -/
structure PlainHeader (packet : List UInt8) : Prop where
  version : ofList packet 14 = 0x45
  tos : ofList packet 15 = 0
  fragOff : load16 (ofList packet) 20 = 0
  check : ipCksum 0 (packetBlock packet) 14 20 = .ok 0

/-- The reply to an echo request with `len` bytes behind byte 34 of its frame. -/
structure EchoReply (frame : Block) (len : Nat) (packet : List UInt8) : Prop where
  length : packet.length = 34 + len
  header : PlainHeader packet
  ethertype : (packet.drop 12).take 2 = le16 (htons 0x0800)
  totLen : load16 (ofList packet) 16 = htons (UInt16.ofNat (20 + len))
  type : 0 < len → ofList packet 34 = 0
  message : ∀ i, i < len → i ≠ 0 → i ≠ 2 → i ≠ 3 → ofList packet (34 + i) = frame.byte (34 + i)
  cksum : 4 ≤ len → ipCksum 0 (packetBlock packet) 34 len = .ok 0

section Cells

/-- A checksum computed while its field was clear and then stored there makes its range sum up to
the negative zero. -/
theorem checked_word {m m' : Mem} {base size address len : Nat} {cksum : UInt16} (k : Nat)
    (field : 2 * k + 2 ≤ len) (inside : address + len ≤ size) (short : len ≤ 131072)
    (computed : ipCksum 0 (window m base size) address len = .ok cksum)
    (clear : load16 m (base + address + 2 * k) = 0)
    (stored : load16 m' (base + address + 2 * k) = cksum)
    (same : ∀ x, base + address ≤ x → x < base + address + len →
      x < base + address + 2 * k ∨ base + address + 2 * k + 2 ≤ x → m' x = m x) :
    Folds 16 (wordSum m' (base + address) len) 65535 := by
  obtain ⟨r, folds, result⟩ := ipCksum_folds (b := window m base size) 0 inside short
  have small := folds.small
  have sum := wordSum_shift m base address len
  change wordSum (window m base size).byte address len = _ at sum
  rw [show (0 : UInt16).toNat = 0 from rfl, Nat.zero_add, sum] at folds
  rw [computed] at result
  have total := wordSum_word k field same
  rw [clear, stored, Except.ok.inj result, UInt16.toNat_ofNat',
    Nat.mod_eq_of_lt (show 65535 - r < 2 ^ 16 by omega)] at total
  change wordSum m' (base + address) len + 0 = _ at total
  rw [Nat.add_zero] at total
  rw [total]
  exact folds.complement

/-- What verifies in memory verifies in the packet. -/
theorem packet_verifies {m : Mem} {base n address len : Nat} (inside : address + len ≤ n)
    (short : len ≤ 131072) (negative : Folds 16 (wordSum m (base + address) len) 65535) :
    ipCksum 0 (packetBlock (bytes m base n)) address len = .ok 0 := by
  apply ipCksum_verifies
  · rw [packetBlock, bytes_length]
    exact inside
  · exact short
  · have same : wordSum (ofList (bytes m base n)) address len =
        wordSum (fun i => m (base + i)) address len :=
      wordSum_congr fun x _ upper => ofList_bytes m base n x (by omega)
    rw [packetBlock, same, wordSum_shift]
    exact negative

end Cells

section Stages

variable {frame : Block} {len buff : UInt32} {m m₁ m₂ m₃ m₄ m' : Mem} {check cksum : UInt16}

/-- The memories that `icmp_process_packet` goes through while it builds a reply. -/
structure EchoStages (frame : Block) (len buff : UInt32) (m m₁ m₂ m₃ m₄ m' : Mem)
    (check cksum : UInt16) : Prop where
  ether : putAll buff.toNat netBufferSize m
    (etherWrites (bytes frame.byte 6 6) (bytes frame.byte 0 6)) = .ok m₁
  version : putVersion buff m₁ = .ok m₂
  ip : putAll buff.toNat netBufferSize m₂ (ipWrites len (load16 frame.byte 18)
    (load32 frame.byte 26) (load32 frame.byte 30)) = .ok m₃
  headed : ipCksum 0 (window m₃ buff.toNat netBufferSize) 14 20 = .ok check
  icmp : putAll buff.toNat netBufferSize m₃ (icmpWrites check (bytes frame.byte 34 len.toNat)) =
    .ok m₄
  summed : ipCksum 0 (window m₄ buff.toNat netBufferSize) 34 len.toNat = .ok cksum
  last : put buff.toNat netBufferSize m₄ ⟨36, le16 cksum⟩ = .ok m'

theorem icmpReply_stages (slot : frame.size = 1600) (built : icmpReply frame len buff m = .ok m') :
    ∃ m₁ m₂ m₃ m₄ check cksum, EchoStages frame len buff m m₁ m₂ m₃ m₄ m' check cksum := by
  have fits := icmpReply_fits slot built
  unfold icmpReply at built
  rw [Block.readBytes_ok (by omega), ok_bind, Block.readBytes_ok (by omega), ok_bind] at built
  obtain ⟨m₁, ether, built⟩ := bind_eq_ok.mp built
  obtain ⟨m₂, version, built⟩ := bind_eq_ok.mp built
  rw [Block.read16_ok (by omega), ok_bind, Block.read32_ok (by omega), ok_bind,
    Block.read32_ok (by omega), ok_bind] at built
  obtain ⟨m₃, ip, built⟩ := bind_eq_ok.mp built
  obtain ⟨check, headed, built⟩ := bind_eq_ok.mp built
  rw [Block.readBytes_ok (by omega), ok_bind] at built
  obtain ⟨m₄, icmp, built⟩ := bind_eq_ok.mp built
  obtain ⟨cksum, summed, last⟩ := bind_eq_ok.mp built
  exact ⟨m₁, m₂, m₃, m₄, check, cksum, ether, version, ip, headed, icmp, summed, last⟩

/-- Each nibble is written without the other, whatever the byte was. -/
theorem putVersion_value (written : putVersion buff m = .ok m') :
    m' (buff.toNat + 14) = 0x45 := by
  have fits (value : UInt8) : (⟨14, [value]⟩ : Write).stop ≤ netBufferSize := by
    simp [Write.stop, netBufferSize]
  have nibbles (v : UInt8) : (((v &&& 0xf0) ||| 5) &&& 0x0f) ||| 0x40 = 0x45 := by
    have table : ∀ n : Fin 256,
        (((UInt8.ofNat n.val &&& 0xf0) ||| 5) &&& 0x0f) ||| 0x40 = 0x45 := by
      decide +kernel
    have this := table ⟨v.toNat, v.toNat_lt⟩
    rw [UInt8.ofNat_toNat] at this
    exact this
  unfold putVersion at written
  simp only [put_ok _ _ (fits _), ok_bind] at written
  rw [← Except.ok.inj written]
  rw [blit_inside _ _ _ _ _ 0 (by simp), blit_inside _ _ _ _ _ 0 (by simp)]
  exact nibbles (m (buff.toNat + 14))

namespace EchoStages

variable (stages : EchoStages frame len buff m m₁ m₂ m₃ m₄ m' check cksum)

include stages

/-- Nobody writes the service, the fragment offset and, before it is computed, the checksum. -/
theorem spared (x : Nat) (field : x = buff.toNat + 15 ∨ x = buff.toNat + 20 ∨
    x = buff.toNat + 21 ∨ x = buff.toNat + 24 ∨ x = buff.toNat + 25) : m₃ x = m x := by
  obtain ⟨_, written, nibbles⟩ := putVersion_ok buff m₁
  rw [stages.version] at written
  cases written
  rw [putAll_other stages.ip, nibbles _ (by omega), putAll_other stages.ether]
  · simp [etherWrites, Write.stop]
    omega
  · simp [ipWrites, Write.stop]
    omega

theorem finished : Frame (buff.toNat + 36) 2 m₄ m' := put_frame stages.last

/-- What follows the header's checksum leaves the header as it is. -/
theorem headerKept (x : Nat) (lower : buff.toNat + 14 ≤ x) (upper : x < buff.toNat + 34)
    (field : x < buff.toNat + 24 ∨ buff.toNat + 26 ≤ x) : m' x = m₃ x := by
  rw [stages.finished _ (by omega), putAll_other stages.icmp]
  simp [icmpWrites, Write.stop]
  omega

theorem first_byte : m' (buff.toNat + 14) = 0x45 := by
  rw [stages.headerKept _ (by omega) (by omega) (by omega), putAll_other stages.ip,
    putVersion_value stages.version]
  simp [ipWrites, Write.stop]

theorem total_length : load16 m' (buff.toNat + 16) = htons (20 + len).toUInt16 := by
  have stored := load16_of_bytes (putAll_data stages.ip 0 rfl
    (by simp [ipWrites, Write.Apart, Write.stop]))
  rw [← stored]
  apply load16_congr
  intro x lower upper
  exact stages.headerKept x (by omega) (by omega) (by omega)

/-- With the field clear the header's checksum is right. -/
theorem header_sum (clear : load16 m (buff.toNat + 24) = 0) :
    Folds 16 (wordSum m' (buff.toNat + 14) 20) 65535 := by
  have buffer : netBufferSize = 2000 := rfl
  apply checked_word 5 (by decide) (by omega) (by decide) stages.headed
  · rw [← clear]
    apply load16_congr
    intro x lower upper
    exact stages.spared x (by omega)
  · have stored := load16_of_bytes (putAll_data stages.icmp 0 rfl
      (by simp [icmpWrites, Write.Apart, Write.stop]))
    rw [← stored]
    apply load16_congr
    intro x lower upper
    exact stages.finished x (by omega)
  · intro x lower upper apart
    exact stages.headerKept x (by omega) (by omega) (by omega)

theorem type_cell : m' (buff.toNat + 34) = 0 := by
  rw [stages.finished _ (by omega)]
  exact putAll_cell stages.icmp 3 rfl 0 (by simp) (by simp [icmpWrites])

/-- Behind the type and apart from the checksum the message is a copy. -/
theorem message_cell (i : Nat) (inside : i < len.toNat) (type : i ≠ 0) (low : i ≠ 2)
    (high : i ≠ 3) : m' (buff.toNat + 34 + i) = frame.byte (34 + i) := by
  rw [stages.finished _ (by omega), putAll_cell stages.icmp 1 rfl i (by simpa using inside)]
  · exact ofList_bytes frame.byte 34 len.toNat i inside
  · simp [icmpWrites, Write.stop]
    omega

theorem message_sum (whole : 4 ≤ len.toNat) (fits : 34 + len.toNat ≤ 1600) :
    Folds 16 (wordSum m' (buff.toNat + 34) len.toNat) 65535 := by
  have buffer : netBufferSize = 2000 := rfl
  apply checked_word 1 (by omega) (by omega) (by omega) stages.summed
  · exact load16_of_bytes (putAll_data stages.icmp 2 rfl
      (by simp [icmpWrites, Write.Apart, Write.stop]))
  · exact load16_of_bytes (put_data stages.last)
  · intro x lower upper apart
    exact stages.finished x (by omega)

end EchoStages

/-- The reply that a clean buffer becomes. -/
theorem EchoStages.reply (stages : EchoStages frame len buff m m₁ m₂ m₃ m₄ m' check cksum)
    (clean : CleanBuffer m buff) (fits : 34 + len.toNat ≤ 1600) (made : EchoAnswer frame
      (bytes m' buff.toNat (34 + len.toNat))) :
    EchoReply frame len.toNat (bytes m' buff.toNat (34 + len.toNat)) := by
  have cell (i : Nat) (inside : i < 34 + len.toNat) :
      ofList (bytes m' buff.toNat (34 + len.toNat)) i = m' (buff.toNat + i) :=
    ofList_bytes _ _ _ i inside
  have word (i : Nat) (inside : i + 2 ≤ 34 + len.toNat) :
      load16 (ofList (bytes m' buff.toNat (34 + len.toNat))) i = load16 m' (buff.toNat + i) := by
    rw [load16, cell i (by omega), cell (i + 1) (by omega)]
    rfl
  have clear (i : Nat) (lower : 4 ≤ i) (upper : i + 2 ≤ 2000) :
      load16 m (buff.toNat + i) = 0 := by
    rw [load16, clean i lower (by omega), Nat.add_assoc, clean (i + 1) (by omega) (by omega)]
    rfl
  have unfragmented : load16 m' (buff.toNat + 20) = 0 := by
    rw [← clear 20 (by decide) (by decide)]
    apply load16_congr
    intro x lower upper
    rw [stages.headerKept x (by omega) (by omega) (by omega)]
    exact stages.spared x (by omega)
  refine ⟨bytes_length _ _ _, ⟨?_, ?_, ?_, ?_⟩, made.2.1, ?_, fun _ => ?_, ?_, fun whole => ?_⟩
  · rw [cell 14 (by omega)]
    exact stages.first_byte
  · rw [cell 15 (by omega), stages.headerKept _ (by omega) (by omega) (by omega),
      stages.spared _ (by omega)]
    exact clean 15 (by decide) (by decide)
  · rw [word 20 (by omega)]
    exact unfragmented
  · exact packet_verifies (by omega) (by decide)
      (stages.header_sum (clear 24 (by decide) (by decide)))
  · rw [word 16 (by omega), stages.total_length]
    congr 1
    apply UInt16.toNat_inj.mp
    rw [UInt32.toNat_toUInt16, UInt32.toNat_add, UInt16.toNat_ofNat',
      show (20 : UInt32).toNat = 20 from rfl]
    omega
  · rw [cell 34 (by omega)]
    exact stages.type_cell
  · intro i inside type low high
    rw [cell (34 + i) (by omega), ← Nat.add_assoc]
    exact stages.message_cell i inside type low high
  · exact packet_verifies (by omega) (by omega) (stages.message_sum whole fits)

end Stages

section Frames

variable {s s' : NetState} {frame : Block} {len : UInt16}

theorem echo_builds_clean (slot : frame.size = 1600)
    (fits : 34 + (echoLength frame len).toNat ≤ 1600) :
    BuildsClean (icmpReply frame (echoLength frame len)) (echoLength frame len + 20 + 14).toNat
      (EchoReply frame (echoLength frame len).toNat) := by
  intro buff m clean
  obtain ⟨m', built, within, answer⟩ := icmpReply_builds slot fits buff m
  obtain ⟨m₁, m₂, m₃, m₄, check, cksum, stages⟩ := icmpReply_stages slot built
  refine ⟨m', built, within, ?_⟩
  rw [echo_size fits]
  exact stages.reply clean fits answer

/-- An echo request with a buffer to answer it from, if the handlers get through it, leads to the
reply. -/
theorem echo_answered (inv : NetInv s) (slot : frame.size = 1600) (echo : EchoRequest frame len)
    (some : s.pool.HasBuffer) (done : etherProcessFrame s frame len = .ok s') :
    34 + (echoLength frame len).toNat ≤ 1600 ∧
      ∃ packet, EchoReply frame (echoLength frame len).toNat packet ∧ Answered s packet s' := by
  rcases etherProcessFrame_cases s len slot with ⟨arp, -⟩ | ⟨-, same⟩ | ⟨-, notEcho, -⟩
  · exact absurd (arp.1.symm.trans echo.1) (by decide)
  · rw [same] at done
    obtain ⟨_, _, _, begun⟩ := reply_built inv some done
    have fits := icmpReply_fits slot begun
    obtain ⟨packet, t, sent, made, answered⟩ :=
      reply_clean inv some (echo_builds_clean slot fits) (by rw [echo_size fits]; exact fits)
    rw [sent] at done
    rw [← Except.ok.inj done]
    exact ⟨fits, packet, made, answered⟩
  · exact absurd echo notEcho

end Frames

end FrogOS
