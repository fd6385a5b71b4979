import FrogOS.BoundedAccess
import FrogOS.LittleEndian
import FrogOS.PacketPool
import FrogOS.Pcnet32Transmit

set_option autoImplicit false

namespace FrogOS

open ByteMemory BoundedAccess

/-- `xchg %al, %ah`. -/
def htons (hs : UInt16) : UInt16 := (hs <<< 8) ||| (hs >>> 8)

def ntohs (ns : UInt16) : UInt16 := htons ns

/-- The first two loops of `ip_cksum`, from offset `buff` on. -/
def cksumLoop (b : Block) : Nat → Nat → UInt32 → Except Fault UInt32
  | buff, len + 2, sum => do
      let word ← b.read16 buff
      cksumLoop b (buff + 2) len (sum + word.toUInt32)
  | buff, 1, sum => do
      let last ← b.read8 buff
      return sum + last.toUInt32
  | _, 0, sum => return sum

/-- The last loop; `foldCarry_done` shows that three rounds end it. -/
def foldCarry : Nat → UInt32 → UInt32
  | 0, sum => sum
  | fuel + 1, sum =>
      if sum >>> 16 = 0 then sum
      else foldCarry fuel ((sum &&& (0xffff : UInt32)) + (sum >>> (16 : UInt32)))

def ipCksum (prev : UInt16) (b : Block) (buff len : Nat) : Except Fault UInt16 := do
  let sum ← cksumLoop b buff len prev.toUInt32
  return (~~~(foldCarry 3 sum) &&& (0xffff : UInt32)).toUInt16

/-- What the receive path knows of a configured device. -/
structure NetDev where
  hwAddr : List UInt8
  hwLength : hwAddr.length = 6
  ipv4Addr : UInt32

/-- The device, the packet pool and the transmit ring. The records: slabs taken by `net_alloc`,
buffers that it has handed out and that have not come back, frames handed to `tx_packet`. -/
structure NetState where
  dev : NetDev
  pool : Pool
  tx : Pcnet32Ring
  slabs : List UInt32
  held : List UInt32
  handed : List (List UInt8)

def netBufferSize : Nat := 2000

/-- `tx_packet` takes a 16-bit length. It frees the buffer where it returns 1. -/
def etherSendframe (s : NetState) (frame : UInt32) (len : UInt32) : Except Fault NetState :=
  let len := len.toUInt16
  let packet := bytes s.pool.heap.mem frame.toNat len.toNat
  let s := { s with handed := s.handed ++ [packet] }
  match pcnet32TxPacket s.tx packet with
  | none => .ok s
  | some tx =>
      if len.toNat ≤ pcnet32BufferSize then
        .ok { s with tx, pool := netFree s.pool frame, held := s.held.erase frame }
      else .error .outOfBounds

/-- What the two reply builders share: with a buffer they fill it and send it, without one they do
nothing. -/
def reply (s : NetState) (build : UInt32 → Mem → Except Fault Mem) (len : UInt32) :
    Except Fault NetState :=
  match netAlloc alloc s.pool with
  | none => .error .diverges
  | some (frame, pool) =>
      let s := { s with pool, slabs := newSlabs alloc s.pool ++ s.slabs }
      if frame = 0 then .ok s
      else do
        let mem ← build frame pool.heap.mem
        let pool := { pool with heap := { pool.heap with mem } }
        etherSendframe { s with pool, held := frame :: s.held } frame len

/-- The tests of `arp_process_packet` before it asks for a buffer. -/
def arpForUs (dev : NetDev) (frame : Block) : Except Fault Bool := do
  let htype ← frame.read16 14
  if ntohs htype ≠ 1 then return false
  let ptype ← frame.read16 16
  if ntohs ptype ≠ 0x0800 then return false
  let hlen ← frame.read8 18
  if hlen ≠ 6 then return false
  let plen ← frame.read8 19
  if plen ≠ 4 then return false
  let oper ← frame.read16 20
  if ntohs oper ≠ 1 then return false
  let tpa ← frame.read32 38
  return tpa = dev.ipv4Addr

/-- The stores of `arp_process_packet` into its reply. -/
def arpWrites (dev : NetDev) (src : List UInt8) (spa tpa : UInt32) : List Write :=
  [⟨0, src⟩, ⟨6, dev.hwAddr⟩, ⟨12, le16 (htons 0x0806)⟩,
    ⟨14, le16 (htons 1)⟩, ⟨16, le16 (htons 0x0800)⟩, ⟨18, [6]⟩, ⟨19, [4]⟩,
    ⟨20, le16 (htons 2)⟩, ⟨22, dev.hwAddr⟩, ⟨28, le32 tpa⟩, ⟨32, src⟩, ⟨38, le32 spa⟩]

def arpReply (dev : NetDev) (frame : Block) (buff : UInt32) (m : Mem) : Except Fault Mem := do
  let src ← frame.readBytes 6 6
  let spa ← frame.read32 28
  let tpa ← frame.read32 38
  putAll buff.toNat netBufferSize m (arpWrites dev src spa tpa)

def arpProcessPacket (s : NetState) (frame : Block) : Except Fault NetState := do
  if ← arpForUs s.dev frame then reply s (arpReply s.dev frame) (14 + 28) else return s

/-- The two nibbles of the first byte of an IP header are written one after the other. -/
def putVersion (buff : UInt32) (m : Mem) : Except Fault Mem := do
  let m ← put buff.toNat netBufferSize m ⟨14, [(m (buff.toNat + 14) &&& 0xf0) ||| 5]⟩
  put buff.toNat netBufferSize m ⟨14, [(m (buff.toNat + 14) &&& 0x0f) ||| 0x40]⟩

/-- The stores of `icmp_process_packet` in front of the IP header, between the version and the
checksum, and from the checksum up to the ICMP checksum. -/
def etherWrites (src dest : List UInt8) : List Write :=
  [⟨0, src⟩, ⟨6, dest⟩, ⟨12, le16 (htons 0x0800)⟩]

def ipWrites (len : UInt32) (id : UInt16) (ipSrc ipDest : UInt32) : List Write :=
  [⟨16, le16 (htons (20 + len).toUInt16)⟩, ⟨18, le16 id⟩, ⟨22, [64]⟩, ⟨23, [1]⟩,
    ⟨26, le32 ipDest⟩, ⟨30, le32 ipSrc⟩]

def icmpWrites (check : UInt16) (packet : List UInt8) : List Write :=
  [⟨24, le16 check⟩, ⟨34, packet⟩, ⟨36, le16 0⟩, ⟨34, [0]⟩]

def icmpReply (frame : Block) (len : UInt32) (buff : UInt32) (m : Mem) : Except Fault Mem := do
  let src ← frame.readBytes 6 6
  let dest ← frame.readBytes 0 6
  let m ← putAll buff.toNat netBufferSize m (etherWrites src dest)
  let m ← putVersion buff m
  let id ← frame.read16 18
  let ipSrc ← frame.read32 26
  let ipDest ← frame.read32 30
  let m ← putAll buff.toNat netBufferSize m (ipWrites len id ipSrc ipDest)
  let check ← ipCksum 0 (window m buff.toNat netBufferSize) 14 20
  let packet ← frame.readBytes 34 len.toNat
  let m ← putAll buff.toNat netBufferSize m (icmpWrites check packet)
  let cksum ← ipCksum 0 (window m buff.toNat netBufferSize) 34 len.toNat
  put buff.toNat netBufferSize m ⟨36, le16 cksum⟩

def icmpProcessPacket (s : NetState) (frame : Block) (len : UInt32) : Except Fault NetState := do
  let type ← frame.read8 34
  if type = 8 then reply s (icmpReply frame len) (len + 20 + 14) else return s

/-- The length `ihl` gives. -/
def headerBytes (first : UInt8) : UInt32 := 4 * (first &&& 0xf).toUInt32

/-- The tests of `ipv4_process_packet`. -/
def ipv4Accepts (frame : Block) (len : UInt32) : Except Fault Bool := do
  let first ← frame.read8 14
  if first >>> 4 ≠ 4 ∨ first &&& 0xf < 5 ∨ headerBytes first > len then return false
  let cksum ← ipCksum 0 frame 14 (headerBytes first).toNat
  return cksum = 0

def ipv4ProcessPacket (s : NetState) (frame : Block) (len : UInt32) : Except Fault NetState := do
  if ← ipv4Accepts frame len then
    let protocol ← frame.read8 23
    if protocol = 1 then
      let first ← frame.read8 14
      icmpProcessPacket s frame (len - headerBytes first)
    else return s
  else return s

/-- `len - 14 - 4` is negative for a short frame and then wraps to a `size_t`. -/
def etherProcessFrame (s : NetState) (frame : Block) (len : UInt16) : Except Fault NetState := do
  let type ← frame.read16 12
  if ntohs type < 1536 then return s
  if ntohs type = 0x0800 then ipv4ProcessPacket s frame (len.toUInt32 - 14 - 4)
  else if ntohs type = 0x0806 then arpProcessPacket s frame
  else if ntohs type = 0x0842 then
    let _ ← frame.readBytes 6 6
    let _ ← frame.readBytes 0 6
    return s
  else return s

end FrogOS
