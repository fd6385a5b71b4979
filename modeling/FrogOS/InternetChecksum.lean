import Mathlib.Data.List.GetD
import FrogOS.NetEcho

set_option autoImplicit false

namespace FrogOS

open ByteMemory BoundedAccess OnesComplement

/-- The Internet checksum of RFC 1071: the complement of the one's complement sum of the words in
network byte order. -/
def internetChecksum (data : List UInt8) : Nat := 65535 - onesSum 16 (beWords data)

/-- A 16-bit word as it goes over the network. -/
def be16 (value : Nat) : List UInt8 := [UInt8.ofNat (value / 2 ^ 8), UInt8.ofNat value]

/-- The additions of the first two loops of `ip_cksum`: the accumulator and what is added to it. -/
def cksumAdds (b : Block) : Nat → Nat → UInt32 → List (UInt32 × UInt32)
  | buff, len + 2, sum =>
      let word := (load16 b.byte buff).toUInt32
      (sum, word) :: cksumAdds b (buff + 2) len (sum + word)
  | buff, 1, sum => [(sum, (b.byte buff).toUInt32)]
  | _, 0, _ => []

/-- The additions of its last loop. -/
def foldAdds : Nat → UInt32 → List (UInt32 × UInt32)
  | 0, _ => []
  | fuel + 1, sum =>
      if sum >>> 16 = 0 then []
      else
        (sum &&& (0xffff : UInt32), sum >>> (16 : UInt32)) ::
          foldAdds fuel ((sum &&& (0xffff : UInt32)) + (sum >>> (16 : UInt32)))

/-- An addition that does not wrap. -/
def Exact (step : UInt32 × UInt32) : Prop := step.1.toNat + step.2.toNat < 2 ^ 32

section ByteOrder

variable {b : Block} {buff len : Nat}

theorem cksumAdds_exact (buff len : Nat) (sum : UInt32)
    (room : sum.toNat + wordSum b.byte buff len < 2 ^ 32) :
    ∀ step ∈ cksumAdds b buff len sum, Exact step := by
  induction buff, len, sum using cksumAdds.induct b with
  | case1 buff len sum word ih =>
      rw [wordSum] at room
      have value : word.toNat = (load16 b.byte buff).toNat := UInt16.toNat_toUInt32 _
      have added : (sum + word).toNat = sum.toNat + (load16 b.byte buff).toNat := by
        rw [UInt32.toNat_add, value]
        omega
      intro step member
      rcases List.mem_cons.mp member with rfl | later
      · change sum.toNat + word.toNat < 2 ^ 32
        omega
      · exact ih (by omega) step later
  | case2 buff sum =>
      rw [wordSum] at room
      intro step member
      rw [List.mem_singleton.mp member, Exact, UInt8.toNat_toUInt32]
      exact room
  | case3 buff sum => exact fun step member => absurd member List.not_mem_nil

theorem foldAdds_exact (rounds : Nat) (sum : UInt32) :
    ∀ step ∈ foldAdds rounds sum, Exact step := by
  induction rounds generalizing sum with
  | zero => exact fun step member => absurd member List.not_mem_nil
  | succ rounds ih =>
      intro step member
      rw [foldAdds] at member
      split at member
      · exact absurd member List.not_mem_nil
      · rcases List.mem_cons.mp member with rfl | later
        · have round := foldCarry_round sum
          have bound := sum.toNat_lt
          have low : (sum &&& (0xffff : UInt32)).toNat < 2 ^ 16 := by
            rw [UInt32.toNat_and]
            exact Nat.and_lt_two_pow _ (by decide)
          have high : (sum >>> (16 : UInt32)).toNat = sum.toNat / 2 ^ 16 := by
            rw [UInt32.toNat_shiftRight, Nat.shiftRight_eq_div_pow]
            rfl
          change (sum &&& (0xffff : UInt32)).toNat + (sum >>> (16 : UInt32)).toNat < 2 ^ 32
          omega
        · exact ih _ step later

/-- A word stored little-endian is the word with its bytes exchanged in network byte order. -/
theorem le16_ofNat (value : Nat) (small : value < 2 ^ 16) :
    le16 (UInt16.ofNat value) = be16 (swapBytes value) := by
  have whole : (UInt16.ofNat value).toNat = value := by
    rw [UInt16.toNat_ofNat']
    omega
  have upper : swapBytes value / 2 ^ 8 = value % 2 ^ 8 := by
    rw [swapBytes]
    omega
  have low : UInt8.ofNat value = UInt8.ofNat (value % 2 ^ 8) := by
    apply UInt8.toNat_inj.mp
    rw [UInt8.toNat_ofNat', UInt8.toNat_ofNat', Nat.mod_mod]
  have high : UInt8.ofNat (value / 2 ^ 8) = UInt8.ofNat (swapBytes value) := by
    apply UInt8.toNat_inj.mp
    rw [UInt8.toNat_ofNat', UInt8.toNat_ofNat', swapBytes]
    omega
  rw [le16, whole, be16, upper, low, high]

theorem swapBytes_complement (r : Nat) (small : r < 2 ^ 16) :
    swapBytes (65535 - r) = 65535 - swapBytes r := by
  have low : (65535 - r) % 2 ^ 8 = 255 - r % 2 ^ 8 := by omega
  have high : (65535 - r) / 2 ^ 8 = 255 - r / 2 ^ 8 := by omega
  rw [swapBytes, low, high, swapBytes]
  omega

/-- Stored, what `ip_cksum` returns is the Internet checksum in network byte order. -/
theorem ipCksum_internet (inside : buff + len ≤ b.size) (short : len ≤ 131072) :
    ∃ cksum, ipCksum 0 b buff len = .ok cksum ∧
      le16 cksum = be16 (internetChecksum (bytes b.byte buff len)) := by
  obtain ⟨r, folds, computed⟩ := ipCksum_folds 0 inside short
  rw [show (0 : UInt16).toNat = 0 from rfl, Nat.zero_add] at folds
  have swapped := onesSum_folds (beWords (bytes b.byte buff len)) (beWords_small _)
  refine ⟨_, computed, ?_⟩
  rw [internetChecksum, swapped.unique folds.swapBytes]
  rw [le16_ofNat _ (by omega), swapBytes_complement r folds.small]

end ByteOrder

/-- Up to 128 KiB `ip_cksum` is the Internet checksum whatever the byte order of the host, and no
addition to its accumulator wraps. -/
theorem ip_cksum_is_internet_checksum (b : Block) (buff len : Nat) (inside : buff + len ≤ b.size)
    (short : len ≤ 131072) :
    (∃ cksum, ipCksum 0 b buff len = .ok cksum ∧
        le16 cksum = be16 (internetChecksum (bytes b.byte buff len))) ∧
      ∃ sum, cksumLoop b buff len 0 = .ok sum ∧
        ∀ step ∈ cksumAdds b buff len 0 ++ foldAdds 3 sum, Exact step := by
  have zero : (0 : UInt32).toNat = 0 := rfl
  have bound := wordSum_le b.byte buff len
  have room : (0 : UInt32).toNat + wordSum b.byte buff len < 2 ^ 32 := by omega
  obtain ⟨sum, ends, -⟩ := cksumLoop_sum buff len 0 inside room
  refine ⟨ipCksum_internet inside short, sum, ends, fun step member => ?_⟩
  rcases List.mem_append.mp member with adds | folds
  · exact cksumAdds_exact buff len 0 room step adds
  · exact foldAdds_exact 3 sum step folds

/-- The longest buffer, with the largest sum. -/
theorem longest_cksum_is_internet_checksum :
    let b : Block := { size := 131072, byte := fun _ => 0xff }
    (∃ cksum, ipCksum 0 b 0 131072 = .ok cksum ∧
        le16 cksum = be16 (internetChecksum (bytes b.byte 0 131072))) ∧
      ∃ sum, cksumLoop b 0 131072 0 = .ok sum ∧
        ∀ step ∈ cksumAdds b 0 131072 0 ++ foldAdds 3 sum, Exact step :=
  ip_cksum_is_internet_checksum { size := 131072, byte := fun _ => 0xff } 0 131072 (by decide)
    (by decide)

/-- The buffer with one word replaced. -/
def withWord (b : Block) (offset : Nat) (word : UInt16) : Block :=
  { b with byte := store16 b.byte offset word }

/-- The two representations of zero. -/
def BothZeros (v w : UInt16) : Prop := v = 0 ∧ w = 0xffff ∨ v = 0xffff ∧ w = 0

section Words

variable {b : Block} {buff len : Nat}

theorem ipCksum_zero_iff (inside : buff + len ≤ b.size) (short : len ≤ 131072) :
    ipCksum 0 b buff len = .ok 0 ↔ Folds 16 (wordSum b.byte buff len) 65535 := by
  constructor
  · intro verifies
    obtain ⟨r, folds, computed⟩ := ipCksum_folds 0 inside short
    rw [show (0 : UInt16).toNat = 0 from rfl, Nat.zero_add] at folds
    rw [verifies] at computed
    have zero := congrArg UInt16.toNat (Except.ok.inj computed)
    have small := folds.small
    rw [UInt16.toNat_ofNat'] at zero
    change 0 = _ at zero
    rwa [show r = 65535 by omega] at folds
  · exact ipCksum_verifies inside short

theorem withWord_sum (b : Block) (buff k : Nat) (word : UInt16) (field : 2 * k + 2 ≤ len) :
    wordSum (withWord b (buff + 2 * k) word).byte buff len +
        (load16 b.byte (buff + 2 * k)).toNat = wordSum b.byte buff len + word.toNat := by
  have sum : wordSum (withWord b (buff + 2 * k) word).byte buff len +
        (load16 b.byte (buff + 2 * k)).toNat =
      wordSum b.byte buff len +
        (load16 (withWord b (buff + 2 * k) word).byte (buff + 2 * k)).toNat :=
    wordSum_word k field fun x _ _ outside => store16_frame b.byte (buff + 2 * k) word x outside
  rwa [show load16 (withWord b (buff + 2 * k) word).byte (buff + 2 * k) = word from
    load16_store16 _ _ _] at sum

theorem ipCksum_inserted (k : Nat) (inside : buff + len ≤ b.size) (short : len ≤ 131072)
    (field : 2 * k + 2 ≤ len) (clear : load16 b.byte (buff + 2 * k) = 0) :
    ∃ cksum, ipCksum 0 b buff len = .ok cksum ∧
      ipCksum 0 (withWord b (buff + 2 * k) cksum) buff len = .ok 0 := by
  obtain ⟨r, folds, computed⟩ := ipCksum_folds 0 inside short
  refine ⟨_, computed, ipCksum_verifies inside short ?_⟩
  have small := folds.small
  have sum := withWord_sum b buff k (UInt16.ofNat (65535 - r)) field
  rw [show (0 : UInt16).toNat = 0 from rfl, Nat.zero_add] at folds
  rw [clear, UInt16.toNat_ofNat', Nat.mod_eq_of_lt (show 65535 - r < 2 ^ 16 by omega)] at sum
  change _ + 0 = _ at sum
  rw [Nat.add_zero] at sum
  rw [sum]
  exact folds.complement

/-- Two words of which both make the buffer verify are equal or the two zeros. -/
theorem ipCksum_detects (k : Nat) (word : UInt16) (inside : buff + len ≤ b.size)
    (short : len ≤ 131072) (field : 2 * k + 2 ≤ len) (verifies : ipCksum 0 b buff len = .ok 0)
    (still : ipCksum 0 (withWord b (buff + 2 * k) word) buff len = .ok 0) :
    word = load16 b.byte (buff + 2 * k) ∨ BothZeros (load16 b.byte (buff + 2 * k)) word := by
  have before := ((ipCksum_zero_iff inside short).mp verifies).same
  have after :=
    ((ipCksum_zero_iff (b := withWord b (buff + 2 * k) word) inside short).mp still).same
  have sum := withWord_sum b buff k word field
  have new := word.toNat_lt
  have old := (load16 b.byte (buff + 2 * k)).toNat_lt
  have congruent : (load16 b.byte (buff + 2 * k)).toNat ≡ word.toNat [MOD 65535] := by
    apply (after.symm.trans before).add_left_cancel
    rw [sum]
  have cases' : word.toNat = (load16 b.byte (buff + 2 * k)).toNat ∨
      (load16 b.byte (buff + 2 * k)).toNat = 0 ∧ word.toNat = 65535 ∨
      (load16 b.byte (buff + 2 * k)).toNat = 65535 ∧ word.toNat = 0 := by
    have same : (load16 b.byte (buff + 2 * k)).toNat % 65535 = word.toNat % 65535 := congruent
    omega
  rcases cases' with same | ⟨zero, ones⟩ | ⟨ones, zero⟩
  · exact Or.inl (UInt16.toNat_inj.mp same)
  · exact Or.inr (Or.inl ⟨UInt16.toNat_inj.mp zero, UInt16.toNat_inj.mp ones⟩)
  · exact Or.inr (Or.inr ⟨UInt16.toNat_inj.mp ones, UInt16.toNat_inj.mp zero⟩)

/-- What `ip_cksum` takes as `prev` to continue a checksum: `~cksum & 0xffff`. -/
def continued (cksum : UInt16) : UInt16 := (~~~cksum.toUInt32 &&& 0xffff).toUInt16

theorem continued_complement (r : Nat) (small : r < 2 ^ 16) :
    (continued (UInt16.ofNat (65535 - r))).toNat = r := by
  have mask : (~~~(UInt16.ofNat (65535 - r)).toUInt32 &&& (0xffff : UInt32)).toNat =
      (2 ^ 32 - 1 - (UInt16.ofNat (65535 - r)).toNat) % 2 ^ 16 := by
    rw [UInt32.toNat_and, UInt32.toNat_not, UInt16.toNat_toUInt32]
    exact Nat.and_two_pow_sub_one_eq_mod _ 16
  rw [continued, UInt32.toNat_toUInt16, mask, UInt16.toNat_ofNat']
  omega

/-- The sum over two pieces, the first of whole words. -/
theorem wordSum_append (xs ys : List UInt8) (even : xs.length % 2 = 0) :
    wordSum (ofList (xs ++ ys)) 0 (xs.length + ys.length) =
      wordSum (ofList xs) 0 xs.length + wordSum (ofList ys) 0 ys.length := by
  obtain ⟨k, twice⟩ : ∃ k, xs.length = 2 * k := ⟨xs.length / 2, by omega⟩
  have first : wordSum (ofList (xs ++ ys)) 0 (2 * k) = wordSum (ofList xs) 0 (2 * k) := by
    apply wordSum_congr
    intro i _ upper
    exact List.getD_append xs ys 0 i (by omega)
  have second : wordSum (ofList (xs ++ ys)) (0 + 2 * k) ys.length =
      wordSum (ofList ys) 0 ys.length := by
    rw [Nat.zero_add, ← Nat.add_zero (2 * k), ← wordSum_shift]
    apply wordSum_congr
    intro i _ _
    have behind := List.getD_append_right xs ys 0 (2 * k + i) (by omega)
    rwa [twice, Nat.add_sub_cancel_left] at behind
  rw [twice, wordSum_split, first, second]

end Words

/-- A checksum stored in its clear field makes the buffer verify, and in a buffer that verifies no
change of one word stays unnoticed but the one between the two zeros. -/
theorem cksum_inserted_and_checked (b : Block) (buff len k : Nat) (inside : buff + len ≤ b.size)
    (short : len ≤ 131072) (field : 2 * k + 2 ≤ len) :
    (load16 b.byte (buff + 2 * k) = 0 →
        ∃ cksum, ipCksum 0 b buff len = .ok cksum ∧
          ipCksum 0 (withWord b (buff + 2 * k) cksum) buff len = .ok 0) ∧
      (ipCksum 0 b buff len = .ok 0 →
        ∀ word, word ≠ load16 b.byte (buff + 2 * k) →
          ¬ BothZeros (load16 b.byte (buff + 2 * k)) word →
          ∃ cksum, ipCksum 0 (withWord b (buff + 2 * k) word) buff len = .ok cksum ∧
            cksum ≠ 0) := by
  refine ⟨ipCksum_inserted k inside short field, fun verifies word other zeros => ?_⟩
  obtain ⟨cksum, computed⟩ := ipCksum_ok (b := withWord b (buff + 2 * k) word) 0 buff len inside
  refine ⟨cksum, computed, fun still => ?_⟩
  rw [still] at computed
  rcases ipCksum_detects k word inside short field verifies computed with same | both
  · exact other same
  · exact zeros both

/-- A buffer of odd length whose first word is zero and whose second is the other zero. -/
theorem zeros_cksum_inserted_and_checked :
    let b : Block := packetBlock [0, 0, 0xff, 0xff, 0]
    (∃ cksum, ipCksum 0 b 0 5 = .ok cksum ∧ ipCksum 0 (withWord b 0 cksum) 0 5 = .ok 0) ∧
      ∃ cksum, ipCksum 0 (withWord b 0 0x1234) 0 5 = .ok cksum ∧ cksum ≠ 0 := by
  obtain ⟨inserted, detected⟩ := cksum_inserted_and_checked (packetBlock [0, 0, 0xff, 0xff, 0]) 0 5
    0 (by decide) (by decide) (by decide)
  refine ⟨inserted (by decide), detected (by decide) 0x1234 (by decide) ?_⟩
  unfold BothZeros
  decide

/-- A checksum may be taken over a header and its payload one after the other. -/
theorem ip_cksum_composes (header payload : List UInt8) (even : header.length % 2 = 0)
    (short : header.length + payload.length ≤ 131072) :
    ∃ first cksum, ipCksum 0 (packetBlock header) 0 header.length = .ok first ∧
      ipCksum (continued first) (packetBlock payload) 0 payload.length = .ok cksum ∧
      ipCksum 0 (packetBlock (header ++ payload)) 0 (header.length + payload.length) =
        .ok cksum := by
  have inside (xs : List UInt8) : 0 + xs.length ≤ (packetBlock xs).size :=
    Nat.le_of_eq (Nat.zero_add _)
  have joined := inside (header ++ payload)
  rw [List.length_append] at joined
  obtain ⟨r, folds, first⟩ := ipCksum_folds 0 (inside header) (by omega)
  obtain ⟨s, late, second⟩ :=
    ipCksum_folds (continued (UInt16.ofNat (65535 - r))) (inside payload) (by omega)
  obtain ⟨t, whole, once⟩ := ipCksum_folds 0 joined short
  rw [show (0 : UInt16).toNat = 0 from rfl, Nat.zero_add] at folds whole
  rw [continued_complement r folds.small] at late
  have total : wordSum (packetBlock (header ++ payload)).byte 0 (header.length + payload.length) =
      wordSum (packetBlock header).byte 0 header.length +
        wordSum (packetBlock payload).byte 0 payload.length :=
    wordSum_append header payload even
  rw [total] at whole
  have same : s = t := (folds.early late).unique whole
  rw [same] at second
  exact ⟨_, _, first, second, once⟩

/-- A header that sums up to the negative zero before a payload of one byte. -/
theorem odd_payload_composes :
    let header : List UInt8 := [0x12, 0x34, 0xed, 0xcb]
    ∃ first cksum, ipCksum 0 (packetBlock header) 0 4 = .ok first ∧
      ipCksum (continued first) (packetBlock [7]) 0 1 = .ok cksum ∧
      ipCksum 0 (packetBlock (header ++ [7])) 0 5 = .ok cksum :=
  ip_cksum_composes [0x12, 0x34, 0xed, 0xcb] [7] (by decide) (by decide)

end FrogOS
