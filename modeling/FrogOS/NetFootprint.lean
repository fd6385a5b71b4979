import FrogOS.TracedAccess
import FrogOS.NetContainment

set_option autoImplicit false

namespace FrogOS

open ByteMemory BoundedAccess TracedAccess

/-- A length that one handler passes to the next. -/
inductive Passed
  | ipv4 (len : UInt32)
  | icmp (len : UInt32)

/-! The handlers once more, now on a frame whose end they do not know, with what they read of it and
the lengths they pass on. -/

namespace Footprint

def cksumLoop (frame : Mem) : Nat → Nat → UInt32 → Traced Passed UInt32
  | buff, len + 2, sum => do
      let word ← Traced.read16 frame buff
      cksumLoop frame (buff + 2) len (sum + word.toUInt32)
  | buff, 1, sum => do
      let last ← Traced.read8 frame buff
      return sum + last.toUInt32
  | _, 0, sum => return sum

def ipCksum (prev : UInt16) (frame : Mem) (buff len : Nat) : Traced Passed UInt16 := do
  let sum ← cksumLoop frame buff len prev.toUInt32
  return (~~~(foldCarry 3 sum) &&& (0xffff : UInt32)).toUInt16

def reply (s : NetState) (build : UInt32 → Mem → Traced Passed Mem) (len : UInt32) :
    Traced Passed NetState :=
  match netAlloc alloc s.pool with
  | none => .lift (.error .diverges)
  | some (frame, pool) =>
      let s := { s with pool, slabs := newSlabs alloc s.pool ++ s.slabs }
      if frame = 0 then return s
      else do
        let mem ← build frame pool.heap.mem
        let pool := { pool with heap := { pool.heap with mem } }
        .lift (etherSendframe { s with pool, held := frame :: s.held } frame len)

def arpForUs (dev : NetDev) (frame : Mem) : Traced Passed Bool := do
  let htype ← Traced.read16 frame 14
  if ntohs htype ≠ 1 then return false
  let ptype ← Traced.read16 frame 16
  if ntohs ptype ≠ 0x0800 then return false
  let hlen ← Traced.read8 frame 18
  if hlen ≠ 6 then return false
  let plen ← Traced.read8 frame 19
  if plen ≠ 4 then return false
  let oper ← Traced.read16 frame 20
  if ntohs oper ≠ 1 then return false
  let tpa ← Traced.read32 frame 38
  return tpa = dev.ipv4Addr

def arpReply (dev : NetDev) (frame : Mem) (buff : UInt32) (m : Mem) : Traced Passed Mem := do
  let src ← Traced.readBytes frame 6 6
  let spa ← Traced.read32 frame 28
  let tpa ← Traced.read32 frame 38
  .lift (putAll buff.toNat netBufferSize m (arpWrites dev src spa tpa))

def arpProcessPacket (s : NetState) (frame : Mem) : Traced Passed NetState := do
  if ← arpForUs s.dev frame then reply s (arpReply s.dev frame) (14 + 28) else return s

def icmpReply (frame : Mem) (len : UInt32) (buff : UInt32) (m : Mem) : Traced Passed Mem := do
  let src ← Traced.readBytes frame 6 6
  let dest ← Traced.readBytes frame 0 6
  let m ← Traced.lift (putAll buff.toNat netBufferSize m (etherWrites src dest))
  let m ← Traced.lift (putVersion buff m)
  let id ← Traced.read16 frame 18
  let ipSrc ← Traced.read32 frame 26
  let ipDest ← Traced.read32 frame 30
  let m ← Traced.lift (putAll buff.toNat netBufferSize m (ipWrites len id ipSrc ipDest))
  let check ← Traced.lift (FrogOS.ipCksum 0 (window m buff.toNat netBufferSize) 14 20)
  let packet ← Traced.readBytes frame 34 len.toNat
  let m ← Traced.lift (putAll buff.toNat netBufferSize m (icmpWrites check packet))
  let cksum ← Traced.lift (FrogOS.ipCksum 0 (window m buff.toNat netBufferSize) 34 len.toNat)
  .lift (put buff.toNat netBufferSize m ⟨36, le16 cksum⟩)

def icmpProcessPacket (s : NetState) (frame : Mem) (len : UInt32) : Traced Passed NetState := do
  let type ← Traced.read8 frame 34
  if type = 8 then reply s (icmpReply frame len) (len + 20 + 14) else return s

def ipv4Accepts (frame : Mem) (len : UInt32) : Traced Passed Bool := do
  let first ← Traced.read8 frame 14
  if first >>> 4 ≠ 4 ∨ first &&& 0xf < 5 ∨ headerBytes first > len then return false
  let cksum ← ipCksum 0 frame 14 (headerBytes first).toNat
  return cksum = 0

def ipv4ProcessPacket (s : NetState) (frame : Mem) (len : UInt32) : Traced Passed NetState := do
  if ← ipv4Accepts frame len then
    let protocol ← Traced.read8 frame 23
    if protocol = 1 then
      let first ← Traced.read8 frame 14
      Traced.mark (.icmp (len - headerBytes first))
      icmpProcessPacket s frame (len - headerBytes first)
    else return s
  else return s

def etherProcessFrame (s : NetState) (frame : Mem) (len : UInt16) : Traced Passed NetState := do
  let type ← Traced.read16 frame 12
  if ntohs type < 1536 then return s
  if ntohs type = 0x0800 then
    Traced.mark (.ipv4 (len.toUInt32 - 14 - 4))
    ipv4ProcessPacket s frame (len.toUInt32 - 14 - 4)
  else if ntohs type = 0x0806 then arpProcessPacket s frame
  else if ntohs type = 0x0842 then
    let _ ← Traced.readBytes frame 6 6
    let _ ← Traced.readBytes frame 0 6
    return s
  else return s

section Within

/-! On a frame that ends after `n` bytes they are the handlers. -/

variable (n : Nat) (s : NetState) (frame : Mem)

theorem cksumLoop_within (buff len : Nat) (sum : UInt32) :
    (cksumLoop frame buff len sum).within n = FrogOS.cksumLoop ⟨n, frame⟩ buff len sum := by
  induction buff, len, sum using cksumLoop.induct with
  | case1 buff len sum ih =>
      rw [cksumLoop, FrogOS.cksumLoop, Traced.within_bind, Traced.within_read16]
      simp only [ih]
  | case2 buff sum =>
      rw [cksumLoop, FrogOS.cksumLoop, Traced.within_bind, Traced.within_read8]
      rfl
  | case3 buff sum => rfl

theorem ipCksum_within (prev : UInt16) (buff len : Nat) :
    (ipCksum prev frame buff len).within n = FrogOS.ipCksum prev ⟨n, frame⟩ buff len := by
  rw [ipCksum, FrogOS.ipCksum, Traced.within_bind, cksumLoop_within]
  rfl

theorem reply_within {build : UInt32 → Mem → Traced Passed Mem}
    {build' : UInt32 → Mem → Except Fault Mem} (len : UInt32)
    (same : ∀ buff m, (build buff m).within n = build' buff m) :
    (reply s build len).within n = FrogOS.reply s build' len := by
  unfold reply FrogOS.reply
  cases netAlloc alloc s.pool with
  | none => rfl
  | some result =>
      simp only [Traced.within_ite, Traced.within_bind, Traced.within_lift, Traced.within_pure,
        same]

theorem arpForUs_within (dev : NetDev) :
    (arpForUs dev frame).within n = FrogOS.arpForUs dev ⟨n, frame⟩ := by
  simp only [arpForUs, FrogOS.arpForUs, Traced.within_ite, Traced.within_bind,
    Traced.within_read16, Traced.within_read8, Traced.within_read32]
  rfl

theorem arpReply_within (dev : NetDev) (buff : UInt32) (m : Mem) :
    (arpReply dev frame buff m).within n = FrogOS.arpReply dev ⟨n, frame⟩ buff m := by
  simp only [arpReply, FrogOS.arpReply, Traced.within_bind, Traced.within_readBytes,
    Traced.within_read32, Traced.within_lift]

theorem icmpReply_within (len buff : UInt32) (m : Mem) :
    (icmpReply frame len buff m).within n = FrogOS.icmpReply ⟨n, frame⟩ len buff m := by
  simp only [icmpReply, FrogOS.icmpReply, Traced.within_bind, Traced.within_readBytes,
    Traced.within_read16, Traced.within_read32, Traced.within_lift]

theorem ipv4Accepts_within (len : UInt32) :
    (ipv4Accepts frame len).within n = FrogOS.ipv4Accepts ⟨n, frame⟩ len := by
  simp only [ipv4Accepts, FrogOS.ipv4Accepts, Traced.within_ite, Traced.within_bind,
    Traced.within_read8, ipCksum_within]
  rfl

theorem etherProcessFrame_within (len : UInt16) :
    (etherProcessFrame s frame len).within n = FrogOS.etherProcessFrame s ⟨n, frame⟩ len := by
  have arp := reply_within n s (14 + 28) (arpReply_within n frame s.dev)
  have icmp (len : UInt32) :=
    reply_within n s (len + 20 + 14) (icmpReply_within n frame len)
  simp only [etherProcessFrame, FrogOS.etherProcessFrame, ipv4ProcessPacket,
    FrogOS.ipv4ProcessPacket, icmpProcessPacket, FrogOS.icmpProcessPacket, arpProcessPacket,
    FrogOS.arpProcessPacket, Traced.within_ite, Traced.within_bind, Traced.within_read16,
    Traced.within_read8, Traced.within_readBytes, Traced.within_mark, Traced.within_pure,
    arpForUs_within, ipv4Accepts_within, arp, icmp]
  rfl

end Within

section Events

variable {P : Event Passed → Prop} {frame : Mem}

theorem cksumLoop_all (buff len : Nat) (sum : UInt32)
    (inside : ∀ offset count, buff ≤ offset → offset + count ≤ buff + len →
      P (.read offset count)) : (cksumLoop frame buff len sum).All P := by
  induction buff, len, sum using cksumLoop.induct with
  | case1 buff len sum ih =>
      rw [cksumLoop, Traced.all_bind, Traced.all_read16]
      refine ⟨inside buff 2 (Nat.le_refl _) (by omega), fun word _ => ?_⟩
      exact ih word fun offset count lower upper => inside offset count (by omega) (by omega)
  | case2 buff sum =>
      rw [cksumLoop, Traced.all_bind, Traced.all_read8]
      exact ⟨inside buff 1 (Nat.le_refl _) (Nat.le_refl _), fun last _ => Traced.all_pure _⟩
  | case3 buff sum => exact Traced.all_pure _

/-- The tests read the first byte and, where it says that the header is there, the header. -/
theorem ipv4Accepts_all (len : UInt32) (first : P (.read 14 1))
    (header : headerBytes (frame 14) ≤ len → ∀ offset count, 14 ≤ offset →
      offset + count ≤ 14 + (headerBytes (frame 14)).toNat → P (.read offset count)) :
    (ipv4Accepts frame len).All P := by
  simp only [ipv4Accepts, Traced.all_bind, Traced.all_read8, Traced.all_ite]
  refine ⟨first, fun byte same => ?_⟩
  cases same
  split
  · exact Traced.all_pure _
  · rename_i passed
    refine ⟨?_, fun cksum _ => Traced.all_pure _⟩
    rw [ipCksum, Traced.all_bind]
    refine ⟨cksumLoop_all _ _ _ (header ?_), fun sum _ => Traced.all_pure _⟩
    exact UInt32.not_lt.mp fun more => passed (Or.inr (Or.inr more))

theorem reply_all (s : NetState) {build : UInt32 → Mem → Traced Passed Mem} (len : UInt32)
    (all : ∀ buff m, (build buff m).All P) : (reply s build len).All P := by
  unfold reply
  cases netAlloc alloc s.pool with
  | none => exact Traced.all_lift _
  | some result =>
      obtain ⟨buff, pool⟩ := result
      simp only [Traced.all_ite, Traced.all_bind]
      split
      · exact Traced.all_pure _
      · exact ⟨all _ _, fun mem _ => Traced.all_lift _⟩

theorem icmpReply_all (len buff : UInt32) (m : Mem)
    (headers : ∀ offset count, offset + count ≤ 34 → P (.read offset count))
    (message : P (.read 34 len.toNat)) : (icmpReply frame len buff m).All P := by
  simp only [icmpReply, Traced.all_bind, Traced.all_readBytes, Traced.all_read16, Traced.all_read32,
    Traced.all_lift, message, headers 6 6 (by decide), headers 0 6 (by decide),
    headers 18 2 (by decide), headers 26 4 (by decide), headers 30 4 (by decide), true_and,
    implies_true]

theorem arpReply_all (dev : NetDev) (buff : UInt32) (m : Mem)
    (packet : ∀ offset count, offset + count ≤ 42 → P (.read offset count)) :
    (arpReply dev frame buff m).All P := by
  simp only [arpReply, Traced.all_readBytes_bind, Traced.all_read32_bind, Traced.all_lift,
    packet 6 6 (by decide), packet 28 4 (by decide), packet 38 4 (by decide), and_self]

end Events

end Footprint

/-- How far the tests of `arp_process_packet` look into a frame, up to the one that fails. -/
def arpTested (frame : Mem) : Nat :=
  if ntohs (load16 frame 14) ≠ 1 then 16
  else if ntohs (load16 frame 16) ≠ 0x0800 then 18
  else if frame 18 ≠ 6 then 19
  else if frame 19 ≠ 4 then 20
  else if ntohs (load16 frame 20) ≠ 1 then 22
  else 42

/-- The event goes with a frame of `len` bytes: it reads none behind them, and a length passed on is
at most what is left. -/
def WithinFrame (frame : Mem) (len : UInt16) : Event Passed → Prop
  | .read offset count => ∀ i, i < count → offset + i < len.toNat
  | .mark (.ipv4 l) => l.toNat ≤ len.toNat
  | .mark (.icmp l) => l.toNat + 18 + (headerBytes (frame 14)).toNat ≤ len.toNat

/-- The frame holds the headers that its types ask for. -/
def HoldsHeaders (frame : Mem) (len : UInt16) : Prop :=
  14 ≤ len.toNat ∧ (ntohs (load16 frame 12) = 0x0800 → 18 ≤ len.toNat) ∧
    (ntohs (load16 frame 12) = 0x0806 → arpTested frame ≤ len.toNat)

section Lengths

variable {frame : Mem} {len : UInt16}

theorem withinFrame_of_le {offset count : Nat} (inside : offset + count ≤ len.toNat) :
    WithinFrame frame len (.read offset count) := by
  intro i small
  omega

theorem withinFrame_read {offset count : Nat} (some : 0 < count) :
    WithinFrame frame len (.read offset count) ↔ offset + count ≤ len.toNat := by
  refine ⟨fun inside => ?_, withinFrame_of_le⟩
  have last := inside (count - 1) (by omega)
  omega

theorem arpForUs_withinFrame (dev : NetDev) :
    (Footprint.arpForUs dev frame).All (WithinFrame frame len) ↔
      arpTested frame ≤ len.toNat := by
  have four : 0 < 4 := by decide
  simp only [Footprint.arpForUs, Traced.all_read16_bind, Traced.all_read8_bind,
    Traced.all_read32_bind, Traced.all_ite, Traced.all_pure, withinFrame_read Nat.one_pos,
    withinFrame_read Nat.two_pos, withinFrame_read four, arpTested]
  grind

/-- A request that is answered has been read to its end. -/
theorem arpForUs_tested (dev : NetDev)
    (accepted : (Footprint.arpForUs dev frame).result = .ok true) : arpTested frame = 42 := by
  have result := accepted
  simp only [Footprint.arpForUs, Traced.result_bind, apply_ite Traced.result, Traced.read16,
    Traced.read8, Traced.read32, ok_bind, Traced.result_pure] at result
  unfold arpTested
  grind

/-- What an accepted header says of the length. -/
theorem ipv4Accepts_header {l : UInt32}
    (accepted : (Footprint.ipv4Accepts frame l).result = .ok true) :
    20 ≤ (headerBytes (frame 14)).toNat ∧ (headerBytes (frame 14)).toNat ≤ l.toNat := by
  have most := headerBytes_le (frame 14)
  have inside : (Footprint.ipv4Accepts frame l).All (Event.Inside 1600) := by
    refine Footprint.ipv4Accepts_all l (show 14 + 1 ≤ 1600 by decide) ?_
    intro _ offset count lower upper
    exact (show offset + count ≤ 1600 by omega)
  have same := Footprint.ipv4Accepts_within 1600 frame l
  rw [Traced.within_inside inside, accepted] at same
  have slot : (⟨1600, frame⟩ : Block).size = 1600 := rfl
  have bounds := ipv4Accepts_bounds slot same.symm
  exact bounds

/-- From 18 bytes on the lengths of an IPv4 frame are those of the frame without what surrounds the
packet, and the message. -/
theorem ipv4_withinFrame (s : NetState) (long : 18 ≤ len.toNat) :
    (Footprint.ipv4ProcessPacket s frame (ipLength len)).All (WithinFrame frame len) := by
  have length := ipLength_toNat long
  rw [Footprint.ipv4ProcessPacket, Traced.all_bind]
  constructor
  · apply Footprint.ipv4Accepts_all
    · exact withinFrame_of_le (by omega)
    · intro header offset count lower upper
      have room := UInt32.le_iff_toNat_le.mp header
      exact withinFrame_of_le (by omega)
  · intro accepted result
    cases accepted with
    | false => exact Traced.all_pure _
    | true =>
        obtain ⟨least, room⟩ := ipv4Accepts_header result
        have rest : (ipLength len - headerBytes (frame 14)).toNat =
            (ipLength len).toNat - (headerBytes (frame 14)).toNat :=
          UInt32.toNat_sub_of_le _ _ (UInt32.le_iff_toNat_le.mpr room)
        simp only [↓reduceIte, Traced.all_read8_bind, Traced.all_ite, Traced.all_mark_bind,
          Footprint.icmpProcessPacket, Traced.all_pure]
        refine ⟨withinFrame_of_le (by omega), ?_⟩
        split
        · refine ⟨withinFrame_of_le (by omega), ?_, withinFrame_of_le (by omega), ?_⟩
          · change _ + 18 + _ ≤ len.toNat
            omega
          · split
            · apply Footprint.reply_all
              intro buff m
              apply Footprint.icmpReply_all
              · exact fun offset count upper => withinFrame_of_le (by omega)
              · exact withinFrame_of_le (by omega)
            · trivial
        · trivial

theorem arp_withinFrame (s : NetState) :
    (Footprint.arpProcessPacket s frame).All (WithinFrame frame len) ↔
      arpTested frame ≤ len.toNat := by
  rw [Footprint.arpProcessPacket, Traced.all_bind, arpForUs_withinFrame, and_iff_left_iff_imp]
  intro tested forUs result
  cases forUs with
  | false => exact Traced.all_pure _
  | true =>
      have whole := arpForUs_tested s.dev result
      apply Footprint.reply_all
      intro buff m
      apply Footprint.arpReply_all
      exact fun offset count upper => withinFrame_of_le (by omega)

/-- The first subtraction wraps exactly for the frames that are too short for it. -/
theorem ipLength_withinFrame :
    (ipLength len).toNat ≤ len.toNat ↔ 18 ≤ len.toNat := by
  have bound := len.toNat_lt
  constructor
  · intro kept
    have ether : (14 : UInt32).toNat = 14 := rfl
    have trailer : (4 : UInt32).toNat = 4 := rfl
    rw [ipLength, UInt32.toNat_sub, UInt32.toNat_sub, UInt16.toNat_toUInt32, ether, trailer] at kept
    omega
  · intro long
    rw [ipLength_toNat long]
    omega

theorem etherProcessFrame_withinFrame (s : NetState) :
    (Footprint.etherProcessFrame s frame len).All (WithinFrame frame len) ↔
      HoldsHeaders frame len := by
  have mark : WithinFrame frame len (.mark (.ipv4 (ipLength len))) ↔ 18 ≤ len.toNat :=
    ipLength_withinFrame
  rw [Footprint.etherProcessFrame, Traced.all_read16_bind, withinFrame_read Nat.two_pos]
  apply and_congr_right
  intro ethernet
  by_cases ip : ntohs (load16 frame 12) = 0x0800
  · have big : ¬ (0x0800 : UInt16) < 1536 := by decide
    have other : (0x0800 : UInt16) ≠ 0x0806 := by decide
    simp only [ip, big, ↓reduceIte, Traced.all_mark_bind, other, false_implies, and_true,
      true_implies]
    exact (and_iff_left_of_imp fun kept => ipv4_withinFrame s (mark.mp kept)).trans mark
  by_cases arp : ntohs (load16 frame 12) = 0x0806
  · have big : ¬ (0x0806 : UInt16) < 1536 := by decide
    have other : (0x0806 : UInt16) ≠ 0x0800 := by decide
    simp only [arp, big, other, ↓reduceIte, false_implies, true_implies, true_and, arp_withinFrame]
  · simp only [ip, arp, ↓reduceIte, false_implies, and_self, iff_true]
    split
    · exact Traced.all_pure _
    · split
      · simp only [Traced.all_readBytes_bind, Traced.all_pure, and_true]
        exact ⟨withinFrame_of_le (by omega), withinFrame_of_le (by omega)⟩
      · exact Traced.all_pure _

theorem arpTested_le (frame : Mem) : arpTested frame ≤ 42 := by
  unfold arpTested
  repeat' split
  all_goals decide

end Lengths

/-- The handlers stay within the length of a frame exactly if it holds the headers its types ask
for. From 42 bytes on every frame does. -/
theorem lengths_within_frame_iff (s : NetState) (frame : Mem) (len : UInt16) :
    (∀ n, (Footprint.etherProcessFrame s frame len).within n =
        etherProcessFrame s ⟨n, frame⟩ len) ∧
      ((Footprint.etherProcessFrame s frame len).All (WithinFrame frame len) ↔
        HoldsHeaders frame len) ∧
      (42 ≤ len.toNat → HoldsHeaders frame len) := by
  refine ⟨fun n => Footprint.etherProcessFrame_within n s frame len,
    etherProcessFrame_withinFrame s, fun long => ?_⟩
  have tested := arpTested_le frame
  exact ⟨by omega, fun _ => by omega, fun _ => by omega⟩

/-- An Ethernet header that announces IPv4. -/
def bareHeader : List UInt8 :=
  [0x52, 0x54, 0x00, 0x12, 0x34, 0x56, 0x52, 0x54, 0x00, 0xaa, 0xbb, 0xcc, 0x08, 0x00]

/-- With nothing behind it the length wraps. -/
theorem bare_header_leaves_frame :
    ¬ ∀ s frame len, (Footprint.etherProcessFrame s frame len).All (WithinFrame frame len) := by
  intro claim
  have kept := claim (bootedNet (initMem 0xC0180000 fun _ => 0) 0) (ofList bareHeader) 14
  have long := ((etherProcessFrame_withinFrame _).mp kept).2.1 (by decide)
  exact absurd long (by decide)

end FrogOS
