import FrogOS.Net

set_option autoImplicit false

namespace FrogOS

open ByteMemory BoundedAccess LinkedChain

section Checksum

variable {b : Block}

theorem cksumLoop_ok (buff len : Nat) (sum : UInt32) (inside : buff + len ≤ b.size) :
    ∃ total, cksumLoop b buff len sum = .ok total := by
  induction buff, len, sum using cksumLoop.induct with
  | case1 buff len sum ih =>
      obtain ⟨total, rest⟩ := ih (load16 b.byte buff) (by omega)
      refine ⟨total, ?_⟩
      rw [cksumLoop, Block.read16_ok (by omega)]
      exact rest
  | case2 buff sum =>
      refine ⟨sum + (b.byte buff).toUInt32, ?_⟩
      rw [cksumLoop, Block.read8_ok inside]
      rfl
  | case3 buff sum => exact ⟨sum, rfl⟩

theorem ipCksum_ok (prev : UInt16) (buff len : Nat) (inside : buff + len ≤ b.size) :
    ∃ cksum, ipCksum prev b buff len = .ok cksum := by
  obtain ⟨total, ends⟩ := cksumLoop_ok buff len prev.toUInt32 inside
  exact ⟨_, by rw [ipCksum, ends]; rfl⟩

theorem foldCarry_round (sum : UInt32) :
    ((sum &&& (0xffff : UInt32)) + (sum >>> (16 : UInt32))).toNat =
      sum.toNat % 2 ^ 16 + sum.toNat / 2 ^ 16 := by
  have bound := sum.toNat_lt
  have low : (sum &&& (0xffff : UInt32)).toNat = sum.toNat % 2 ^ 16 := by
    rw [UInt32.toNat_and]
    exact Nat.and_two_pow_sub_one_eq_mod _ 16
  have high : (sum >>> (16 : UInt32)).toNat = sum.toNat / 2 ^ 16 := by
    rw [UInt32.toNat_shiftRight, Nat.shiftRight_eq_div_pow]
    rfl
  rw [UInt32.toNat_add, low, high]
  omega

/-- Two rounds leave nothing in the upper half, and the third sees it. -/
theorem foldCarry_done (sum : UInt32) : (foldCarry 3 sum).toNat < 2 ^ 16 := by
  have settled (x : UInt32) (rounds : Nat) (small : x.toNat < 2 ^ 16) :
      foldCarry rounds x = x := by
    cases rounds with
    | zero => rfl
    | succ rounds =>
        have clear : x >>> 16 = 0 := by
          apply UInt32.toNat_inj.mp
          rw [UInt32.toNat_shiftRight, Nat.shiftRight_eq_div_pow]
          exact Nat.div_eq_of_lt small
        rw [foldCarry, if_pos clear]
  have round (x : UInt32) (rounds : Nat) :
      x.toNat < 2 ^ 16 ∧ foldCarry (rounds + 1) x = x ∨
        ∃ y, foldCarry (rounds + 1) x = foldCarry rounds y ∧
          y.toNat = x.toNat % 2 ^ 16 + x.toNat / 2 ^ 16 := by
    by_cases small : x.toNat < 2 ^ 16
    · exact Or.inl ⟨small, settled x _ small⟩
    · refine Or.inr ⟨_, ?_, foldCarry_round x⟩
      have carry : x >>> 16 ≠ 0 := by
        intro clear
        have value := congrArg UInt32.toNat clear
        rw [UInt32.toNat_shiftRight, Nat.shiftRight_eq_div_pow] at value
        change x.toNat / 2 ^ 16 = 0 at value
        omega
      rw [foldCarry, if_neg carry]
  have bound := sum.toNat_lt
  rcases round sum 2 with ⟨small, same⟩ | ⟨first, next, value⟩
  · rw [same]
    exact small
  · rw [next]
    rcases round first 1 with ⟨small, same⟩ | ⟨second, next, value⟩
    · rw [same]
      exact small
    · rw [next, settled second 1 (by omega)]
      omega

end Checksum

section Tests

variable {frame : Block}

theorem arpForUs_ok (dev : NetDev) (slot : frame.size = 1600) :
    ∃ answer, arpForUs dev frame = .ok answer := by
  unfold arpForUs
  simp (disch := omega) only [Block.read16_ok, Block.read8_ok, Block.read32_ok, bind, Except.bind]
  repeat' split
  all_goals exact ⟨_, rfl⟩

theorem headerBytes_le (first : UInt8) : (headerBytes first).toNat ≤ 60 := by
  have nibble : (first &&& 0xf).toNat ≤ 15 := by
    rw [UInt8.toNat_and]
    exact Nat.and_le_right
  rw [headerBytes, UInt32.toNat_mul, UInt8.toNat_toUInt32]
  change 4 * (first &&& 0xf).toNat % 2 ^ 32 ≤ 60
  omega

theorem ipv4Accepts_ok (len : UInt32) (slot : frame.size = 1600) :
    ∃ answer, ipv4Accepts frame len = .ok answer := by
  have header := headerBytes_le (frame.byte 14)
  obtain ⟨cksum, computed⟩ := ipCksum_ok (b := frame) 0 14 (headerBytes (frame.byte 14)).toNat
    (by omega)
  unfold ipv4Accepts
  simp (disch := omega) only [Block.read8_ok, bind, Except.bind, computed]
  split <;> exact ⟨_, rfl⟩

/-- What an accepted header says of the length. -/
theorem ipv4Accepts_bounds {len : UInt32} (slot : frame.size = 1600)
    (accepted : ipv4Accepts frame len = .ok true) :
    20 ≤ (headerBytes (frame.byte 14)).toNat ∧
      (headerBytes (frame.byte 14)).toNat ≤ len.toNat := by
  unfold ipv4Accepts at accepted
  simp (disch := omega) only [Block.read8_ok, bind, Except.bind] at accepted
  split at accepted
  · cases accepted
  · rename_i passed
    have long : ¬ frame.byte 14 &&& 0xf < 5 := fun short => passed (Or.inr (Or.inl short))
    have fits : ¬ headerBytes (frame.byte 14) > len := fun more => passed (Or.inr (Or.inr more))
    have five : 5 ≤ (frame.byte 14 &&& 0xf).toNat := by
      have order := UInt8.le_iff_toNat_le.mp (UInt8.not_lt.mp long)
      exact order
    have nibble : (frame.byte 14 &&& 0xf).toNat ≤ 15 := by
      rw [UInt8.toNat_and]
      exact Nat.and_le_right
    refine ⟨?_, UInt32.le_iff_toNat_le.mp (UInt32.not_lt.mp fits)⟩
    rw [headerBytes, UInt32.toNat_mul, UInt8.toNat_toUInt32]
    change 20 ≤ 4 * (frame.byte 14 &&& 0xf).toNat % 2 ^ 32
    omega

end Tests

/-- The fields of an ARP reply that say who sends it. -/
def ArpAnswer (dev : NetDev) (frame : Block) (packet : List UInt8) : Prop :=
  (packet.drop 6).take 6 = dev.hwAddr ∧ (packet.drop 12).take 2 = le16 (htons 0x0806) ∧
    (packet.drop 28).take 4 = le32 (load32 frame.byte 38)

/-- The fields of an echo reply that say who sends it. -/
def EchoAnswer (frame : Block) (packet : List UInt8) : Prop :=
  (packet.drop 6).take 6 = bytes frame.byte 0 6 ∧ (packet.drop 12).take 2 = le16 (htons 0x0800) ∧
    (packet.drop 26).take 4 = le32 (load32 frame.byte 30)

/-- A reply builder that succeeds, stays inside the buffer and makes a packet with a property. -/
def Builds (build : UInt32 → Mem → Except Fault Mem) (len : Nat) (good : List UInt8 → Prop) :
    Prop :=
  ∀ buff m, ∃ m', build buff m = .ok m' ∧ Frame buff.toNat 2000 m m' ∧
    good (bytes m' buff.toNat len)

/-- The same of buffers as `net_alloc` hands them out. -/
def BuildsClean (build : UInt32 → Mem → Except Fault Mem) (len : Nat) (good : List UInt8 → Prop) :
    Prop :=
  ∀ buff m, CleanBuffer m buff → ∃ m', build buff m = .ok m' ∧ Frame buff.toNat 2000 m m' ∧
    good (bytes m' buff.toNat len)

section Builders

variable {frame : Block}

/-- A field of the finished packet is what the store of that field put there. -/
theorem field_of_write {buff : UInt32} {m m' : Mem} {ws : List Write} {w : Write} (len : Nat)
    (done : putAll buff.toNat netBufferSize m ws = .ok m') (i : Nat) (here : ws[i]? = some w)
    (apart : ∀ v ∈ ws.drop (i + 1), v.Apart w) (inside : w.stop ≤ len) :
    ((bytes m' buff.toNat len).drop w.offset).take w.data.length = w.data := by
  rw [bytes_slice _ _ _ _ _ inside]
  exact putAll_data done i here apart

theorem arpWrites_fit (dev : NetDev) (src : List UInt8) (spa tpa : UInt32) (six : src.length = 6) :
    ∀ w ∈ arpWrites dev src spa tpa, w.stop ≤ netBufferSize := by
  simp [arpWrites, Write.stop, netBufferSize, six, dev.hwLength]

theorem etherWrites_fit (src dest : List UInt8) (six : src.length = 6) (sixToo : dest.length = 6) :
    ∀ w ∈ etherWrites src dest, w.stop ≤ netBufferSize := by
  simp [etherWrites, Write.stop, netBufferSize, six, sixToo]

theorem ipWrites_fit (len : UInt32) (id : UInt16) (ipSrc ipDest : UInt32) :
    ∀ w ∈ ipWrites len id ipSrc ipDest, w.stop ≤ netBufferSize := by
  simp [ipWrites, Write.stop, netBufferSize]

theorem icmpWrites_fit (check : UInt16) (packet : List UInt8) (room : 34 + packet.length ≤ 1600) :
    ∀ w ∈ icmpWrites check packet, w.stop ≤ netBufferSize := by
  simp [icmpWrites, Write.stop, netBufferSize]
  omega

theorem arpReply_builds (dev : NetDev) (slot : frame.size = 1600) :
    Builds (arpReply dev frame) 42 (ArpAnswer dev frame) := by
  intro buff m
  have six := dev.hwLength
  obtain ⟨m', done⟩ := putAll_ok buff.toNat m _ (arpWrites_fit dev (bytes frame.byte 6 6)
    (load32 frame.byte 28) (load32 frame.byte 38) (bytes_length _ _ _))
  refine ⟨m', ?_, putAll_frame done, ?_, ?_, ?_⟩
  · unfold arpReply
    simp (disch := omega) only [Block.readBytes_ok, Block.read32_ok, bind, Except.bind]
    exact done
  · have field := field_of_write 42 done 1 rfl
      (by simp [arpWrites, Write.Apart, Write.stop, six]) (by simp [Write.stop, six])
    simpa [six] using field
  · exact field_of_write 42 done 2 rfl
      (by simp [arpWrites, Write.Apart, Write.stop]) (by simp [Write.stop])
  · exact field_of_write 42 done 9 rfl
      (by simp [arpWrites, Write.Apart, Write.stop]) (by simp [Write.stop])

theorem putVersion_ok (buff : UInt32) (m : Mem) :
    ∃ m', putVersion buff m = .ok m' ∧ Frame (buff.toNat + 14) 1 m m' := by
  have fits (value : UInt8) : (⟨14, [value]⟩ : Write).stop ≤ netBufferSize := by
    simp [Write.stop, netBufferSize]
  unfold putVersion
  simp only [put_ok _ _ (fits _), bind, Except.bind]
  exact ⟨_, rfl, (blit_frame _ _ _ _ _).trans (blit_frame _ _ _ _ _)⟩

/-- The source fields of the reply are the destination fields of the request. -/
theorem icmpReply_builds {len : UInt32} (slot : frame.size = 1600) (fits : 34 + len.toNat ≤ 1600) :
    Builds (icmpReply frame len) (34 + len.toNat) (EchoAnswer frame) := by
  intro buff m
  obtain ⟨m₁, ether⟩ := putAll_ok buff.toNat m _ (etherWrites_fit (bytes frame.byte 6 6)
    (bytes frame.byte 0 6) (bytes_length _ _ _) (bytes_length _ _ _))
  obtain ⟨m₂, version, nibbles⟩ := putVersion_ok buff m₁
  obtain ⟨m₃, ip⟩ := putAll_ok buff.toNat m₂ _ (ipWrites_fit len (load16 frame.byte 18)
    (load32 frame.byte 26) (load32 frame.byte 30))
  obtain ⟨check, headed⟩ := ipCksum_ok (b := window m₃ buff.toNat netBufferSize) 0 14 20
    (by rw [window_size]; decide)
  obtain ⟨m₄, icmp⟩ := putAll_ok buff.toNat m₃ _ (icmpWrites_fit check
    (bytes frame.byte 34 len.toNat) (by rw [bytes_length]; exact fits))
  obtain ⟨cksum, summed⟩ := ipCksum_ok (b := window m₄ buff.toNat netBufferSize) 0 34 len.toNat
    (by rw [window_size, netBufferSize]; omega)
  obtain ⟨m', last⟩ : ∃ m', put buff.toNat netBufferSize m₄ ⟨36, le16 cksum⟩ = .ok m' :=
    ⟨_, put_ok buff.toNat m₄ (by simp [Write.stop, netBufferSize])⟩
  have sum : Frame (buff.toNat + 36) 2 m₄ m' := put_frame last
  have ipLater : ∀ v ∈ ipWrites len (load16 frame.byte 18) (load32 frame.byte 26)
      (load32 frame.byte 30), 16 ≤ v.offset := by
    simp [ipWrites]
  have icmpLater : ∀ v ∈ icmpWrites check (bytes frame.byte 34 len.toNat), 16 ≤ v.offset := by
    simp [icmpWrites]
  -- The stores behind the Ethernet header leave it alone.
  have header {w : Write} (before : w.stop ≤ 14) :
      Agree (buff.toNat + w.offset) w.data.length m₁ m' := by
    intro x lower upper
    have room : buff.toNat + w.offset + w.data.length ≤ buff.toNat + 14 := by
      rw [Write.stop] at before
      omega
    have apart (v : Write) (later : 16 ≤ v.offset) : v.Apart w := Or.inr (by omega)
    rw [sum x (by omega)]
    rw [putAll_agree icmp (fun v member => apart v (icmpLater v member)) x lower upper]
    rw [putAll_agree ip (fun v member => apart v (ipLater v member)) x lower upper]
    exact nibbles x (by omega)
  refine ⟨m', ?_, ?_, ?_, ?_, ?_⟩
  · rw [icmpReply, Block.readBytes_ok (by omega), ok_bind, Block.readBytes_ok (by omega), ok_bind,
      ether, ok_bind, version, ok_bind, Block.read16_ok (by omega), ok_bind,
      Block.read32_ok (by omega), ok_bind, Block.read32_ok (by omega), ok_bind, ip, ok_bind, headed,
      ok_bind, Block.readBytes_ok (by omega), ok_bind, icmp, ok_bind, summed, ok_bind]
    exact last
  · have buffer : netBufferSize = 2000 := rfl
    have whole := (putAll_frame icmp).trans (sum.mono (by omega) (by omega))
    have front := (nibbles.mono (by omega) (by omega)).trans ((putAll_frame ip).trans whole)
    exact (putAll_frame ether).trans front
  · have field := putAll_data ether 1 rfl (by simp [etherWrites, Write.Apart, Write.stop])
    have kept := header (w := ⟨6, bytes frame.byte 0 6⟩) (by simp [Write.stop])
    rw [bytes_length] at field kept
    rw [bytes_slice _ _ _ _ _ (by omega), bytes_congr kept, field]
  · have field := putAll_data ether 2 rfl (by simp [etherWrites])
    have kept := header (w := ⟨12, le16 (htons 0x0800)⟩) (by simp [Write.stop])
    rw [le16_length] at field kept
    rw [bytes_slice _ _ _ _ _ (by omega), bytes_congr kept, field]
  · have field := putAll_data ip 4 rfl (by simp [ipWrites, Write.Apart, Write.stop])
    have kept := putAll_agree (w := ⟨26, le32 (load32 frame.byte 30)⟩) icmp
      (by simp [icmpWrites, Write.Apart, Write.stop])
    have behind : Agree (buff.toNat + 26) 4 m₄ m' := fun x lower upper => sum x (by omega)
    rw [le32_length] at field kept
    rw [bytes_slice _ _ _ _ _ (by omega), bytes_congr behind, bytes_congr kept, field]

/-- A message that leaves the slot is not copied. -/
theorem icmpReply_fits {len buff : UInt32} {m m' : Mem} (slot : frame.size = 1600)
    (built : icmpReply frame len buff m = .ok m') : 34 + len.toNat ≤ 1600 := by
  iterate 9 obtain ⟨_, -, built⟩ := bind_eq_ok.mp built
  obtain ⟨packet, copied, -⟩ := bind_eq_ok.mp built
  rw [Block.readBytes, slot] at copied
  split at copied
  · assumption
  · cases copied

end Builders

end FrogOS
