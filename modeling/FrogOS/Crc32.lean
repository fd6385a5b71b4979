import FrogOS.ByteMemory
import FrogOS.LittleEndian
import FrogOS.PolynomialRemainder

set_option autoImplicit false

namespace FrogOS

open ByteMemory ShiftRegister Polynomial

/-- `crc32_tab`. -/
def crc32Tab : List UInt32 :=
  [0x00000000, 0x77073096, 0xee0e612c, 0x990951ba, 0x076dc419, 0x706af48f, 0xe963a535, 0x9e6495a3,
    0x0edb8832, 0x79dcb8a4, 0xe0d5e91e, 0x97d2d988, 0x09b64c2b, 0x7eb17cbd, 0xe7b82d07, 0x90bf1d91,
    0x1db71064, 0x6ab020f2, 0xf3b97148, 0x84be41de, 0x1adad47d, 0x6ddde4eb, 0xf4d4b551, 0x83d385c7,
    0x136c9856, 0x646ba8c0, 0xfd62f97a, 0x8a65c9ec, 0x14015c4f, 0x63066cd9, 0xfa0f3d63, 0x8d080df5,
    0x3b6e20c8, 0x4c69105e, 0xd56041e4, 0xa2677172, 0x3c03e4d1, 0x4b04d447, 0xd20d85fd, 0xa50ab56b,
    0x35b5a8fa, 0x42b2986c, 0xdbbbc9d6, 0xacbcf940, 0x32d86ce3, 0x45df5c75, 0xdcd60dcf, 0xabd13d59,
    0x26d930ac, 0x51de003a, 0xc8d75180, 0xbfd06116, 0x21b4f4b5, 0x56b3c423, 0xcfba9599, 0xb8bda50f,
    0x2802b89e, 0x5f058808, 0xc60cd9b2, 0xb10be924, 0x2f6f7c87, 0x58684c11, 0xc1611dab, 0xb6662d3d,
    0x76dc4190, 0x01db7106, 0x98d220bc, 0xefd5102a, 0x71b18589, 0x06b6b51f, 0x9fbfe4a5, 0xe8b8d433,
    0x7807c9a2, 0x0f00f934, 0x9609a88e, 0xe10e9818, 0x7f6a0dbb, 0x086d3d2d, 0x91646c97, 0xe6635c01,
    0x6b6b51f4, 0x1c6c6162, 0x856530d8, 0xf262004e, 0x6c0695ed, 0x1b01a57b, 0x8208f4c1, 0xf50fc457,
    0x65b0d9c6, 0x12b7e950, 0x8bbeb8ea, 0xfcb9887c, 0x62dd1ddf, 0x15da2d49, 0x8cd37cf3, 0xfbd44c65,
    0x4db26158, 0x3ab551ce, 0xa3bc0074, 0xd4bb30e2, 0x4adfa541, 0x3dd895d7, 0xa4d1c46d, 0xd3d6f4fb,
    0x4369e96a, 0x346ed9fc, 0xad678846, 0xda60b8d0, 0x44042d73, 0x33031de5, 0xaa0a4c5f, 0xdd0d7cc9,
    0x5005713c, 0x270241aa, 0xbe0b1010, 0xc90c2086, 0x5768b525, 0x206f85b3, 0xb966d409, 0xce61e49f,
    0x5edef90e, 0x29d9c998, 0xb0d09822, 0xc7d7a8b4, 0x59b33d17, 0x2eb40d81, 0xb7bd5c3b, 0xc0ba6cad,
    0xedb88320, 0x9abfb3b6, 0x03b6e20c, 0x74b1d29a, 0xead54739, 0x9dd277af, 0x04db2615, 0x73dc1683,
    0xe3630b12, 0x94643b84, 0x0d6d6a3e, 0x7a6a5aa8, 0xe40ecf0b, 0x9309ff9d, 0x0a00ae27, 0x7d079eb1,
    0xf00f9344, 0x8708a3d2, 0x1e01f268, 0x6906c2fe, 0xf762575d, 0x806567cb, 0x196c3671, 0x6e6b06e7,
    0xfed41b76, 0x89d32be0, 0x10da7a5a, 0x67dd4acc, 0xf9b9df6f, 0x8ebeeff9, 0x17b7be43, 0x60b08ed5,
    0xd6d6a3e8, 0xa1d1937e, 0x38d8c2c4, 0x4fdff252, 0xd1bb67f1, 0xa6bc5767, 0x3fb506dd, 0x48b2364b,
    0xd80d2bda, 0xaf0a1b4c, 0x36034af6, 0x41047a60, 0xdf60efc3, 0xa867df55, 0x316e8eef, 0x4669be79,
    0xcb61b38c, 0xbc66831a, 0x256fd2a0, 0x5268e236, 0xcc0c7795, 0xbb0b4703, 0x220216b9, 0x5505262f,
    0xc5ba3bbe, 0xb2bd0b28, 0x2bb45a92, 0x5cb36a04, 0xc2d7ffa7, 0xb5d0cf31, 0x2cd99e8b, 0x5bdeae1d,
    0x9b64c2b0, 0xec63f226, 0x756aa39c, 0x026d930a, 0x9c0906a9, 0xeb0e363f, 0x72076785, 0x05005713,
    0x95bf4a82, 0xe2b87a14, 0x7bb12bae, 0x0cb61b38, 0x92d28e9b, 0xe5d5be0d, 0x7cdcefb7, 0x0bdbdf21,
    0x86d3d2d4, 0xf1d4e242, 0x68ddb3f8, 0x1fda836e, 0x81be16cd, 0xf6b9265b, 0x6fb077e1, 0x18b74777,
    0x88085ae6, 0xff0f6a70, 0x66063bca, 0x11010b5c, 0x8f659eff, 0xf862ae69, 0x616bffd3, 0x166ccf45,
    0xa00ae278, 0xd70dd2ee, 0x4e048354, 0x3903b3c2, 0xa7672661, 0xd06016f7, 0x4969474d, 0x3e6e77db,
    0xaed16a4a, 0xd9d65adc, 0x40df0b66, 0x37d83bf0, 0xa9bcae53, 0xdebb9ec5, 0x47b2cf7f, 0x30b5ffe9,
    0xbdbdf21c, 0xcabac28a, 0x53b39330, 0x24b4a3a6, 0xbad03605, 0xcdd70693, 0x54de5729, 0x23d967bf,
    0xb3667a2e, 0xc4614ab8, 0x5d681b02, 0x2a6f2b94, 0xb40bbe37, 0xc30c8ea1, 0x5a05df1b, 0x2d02ef8d]

/-- `while (size--) crc = crc32_tab[(crc ^ *p++) & 0xFF] ^ (crc >> 8)`. -/
def crc32Loop (m : Mem) : Nat → UInt32 → UInt32 → UInt32
  | 0, _, crc => crc
  | size + 1, p, crc =>
      crc32Loop m size (p + 1)
        (crc32Tab.getD ((crc ^^^ (m p.toNat).toUInt32) &&& 0xFF).toNat 0 ^^^ (crc >>> 8))

def crc32 (m : Mem) (buf size : UInt32) : UInt32 :=
  crc32Loop m size.toNat buf (~~~0) ^^^ ~~~0

/-- The polynomial of the table, its highest coefficient lowest. -/
def crc32Poly : BitVec 32 := 0xEDB88320#32

/-- The bits of a byte, the lowest one first. -/
def byteBits (b : UInt8) : List Bool := (List.range 8).map b.toBitVec.getLsbD

def messageBits (message : List UInt8) : List Bool := message.flatMap byteBits

/-- A bit of an object in memory. -/
def objectBit (m : Mem) (buf : UInt32) (i : Nat) : Bool :=
  (m (buf.toNat + i / 8)).toBitVec.getLsbD (i % 8)

section Table

/-- The table holds what eight steps make of a byte. -/
theorem crc32Tab_steps : ∀ i : Fin 256,
    (crc32Tab.getD i.val 0).toBitVec = steps crc32Poly 8 (BitVec.ofNat 32 i.val) := by
  decide +kernel

theorem crc32Poly_top : crc32Poly.msb := by decide

@[simp] theorem byteBits_length (b : UInt8) : (byteBits b).length = 8 := rfl

theorem word_byteBits (b : UInt8) : word 32 (byteBits b) = b.toUInt32.toBitVec := by
  apply BitVec.eq_of_getLsbD_eq
  intro i inside
  have bits : (byteBits b).getD i false = b.toBitVec.getLsbD i := by
    rw [List.getD_eq_getElem?_getD, byteBits, List.getElem?_map]
    by_cases low : i < 8
    · rw [List.getElem?_range low]
      rfl
    · rw [List.getElem?_eq_none (by simpa using Nat.le_of_not_lt low),
        BitVec.getLsbD_of_ge _ _ (Nat.le_of_not_lt low)]
      rfl
  rw [word_getLsbD, bits, UInt8.toBitVec_toUInt32, BitVec.getLsbD_setWidth]

/-- The low byte and what is above it. -/
theorem split_byte (x : BitVec 32) :
    x = BitVec.ofNat 32 (x.toNat % 2 ^ 8) ^^^ (x >>> 8) <<< 8 := by
  apply BitVec.eq_of_getLsbD_eq
  intro i inside
  rw [BitVec.getLsbD_xor, BitVec.getLsbD_ofNat, Nat.testBit_mod_two_pow, BitVec.getLsbD_shiftLeft,
    BitVec.getLsbD_ushiftRight, BitVec.testBit_toNat]
  by_cases low : i < 8
  · simp [low, inside]
  · have place : 8 + (i - 8) = i := by omega
    simp [low, inside, place]

/-- A look-up does what eight steps do. -/
theorem tableStep_feed (crc : UInt32) (b : UInt8) :
    (crc32Tab.getD ((crc ^^^ b.toUInt32) &&& 0xFF).toNat 0 ^^^ (crc >>> 8)).toBitVec =
      feed crc32Poly crc.toBitVec (byteBits b) := by
  have index : ((crc ^^^ b.toUInt32) &&& 0xFF).toNat = (crc ^^^ b.toUInt32).toNat % 2 ^ 8 := by
    rw [UInt32.toNat_and]
    exact Nat.and_two_pow_sub_one_eq_mod _ 8
  have table := crc32Tab_steps ⟨(crc ^^^ b.toUInt32).toNat % 2 ^ 8, Nat.mod_lt _ (by decide)⟩
  have above : (crc.toBitVec ^^^ b.toUInt32.toBitVec) >>> 8 = crc.toBitVec >>> 8 := by
    rw [BitVec.ushiftRight_xor_distrib, UInt8.toBitVec_toUInt32]
    have none : b.toBitVec.setWidth 32 >>> 8 = 0#32 := by
      apply BitVec.eq_of_getLsbD_eq
      intro i _
      rw [BitVec.getLsbD_ushiftRight, BitVec.getLsbD_setWidth,
        BitVec.getLsbD_of_ge b.toBitVec _ (by omega)]
      simp
    rw [none, BitVec.xor_zero]
  rw [feed_word (by rw [byteBits_length]; decide), byteBits_length, word_byteBits,
    split_byte (crc.toBitVec ^^^ b.toUInt32.toBitVec), steps_xor, steps_shift _ (le_refl 8), above,
    index, UInt32.toBitVec_xor, table]
  rfl

end Table

section Message

/-- The loop feeds the message to the register. -/
theorem crc32Loop_feed (m : Mem) (n : Nat) (p crc : UInt32) (room : p.toNat + n ≤ 2 ^ 32) :
    (crc32Loop m n p crc).toBitVec =
      feed crc32Poly crc.toBitVec (messageBits (bytes m p.toNat n)) := by
  induction n generalizing p crc with
  | zero => rfl
  | succ n ih =>
      have next : (p + 1).toNat = (p.toNat + 1) % 2 ^ 32 := UInt32.toNat_add p 1
      have below := p.toNat_lt
      have rest : bytes m (p + 1).toNat n = bytes m (p.toNat + 1) n := by
        cases n with
        | zero => rfl
        | succ n =>
            have same : (p + 1).toNat = p.toNat + 1 := by omega
            rw [same]
      rw [crc32Loop, ih (p + 1) _ (by omega), tableStep_feed, ← feed_append, rest, bytes_succ]
      rfl

theorem crc32_feed (m : Mem) (buf size : UInt32) (room : buf.toNat + size.toNat ≤ 2 ^ 32) :
    (crc32 m buf size).toBitVec =
      feed crc32Poly (~~~0#32) (messageBits (bytes m buf.toNat size.toNat)) ^^^ ~~~0#32 := by
  have loop := crc32Loop_feed m size.toNat buf (~~~0) room
  rw [crc32, UInt32.toBitVec_xor, loop]
  rfl

@[simp] theorem messageBits_length (message : List UInt8) :
    (messageBits message).length = 8 * message.length := by
  induction message with
  | nil => rfl
  | cons b message ih =>
      rw [messageBits, List.flatMap_cons, List.length_append, ← messageBits, ih, byteBits_length,
        List.length_cons]
      omega

theorem messageBits_append (first second : List UInt8) :
    messageBits (first ++ second) = messageBits first ++ messageBits second :=
  List.flatMap_append

theorem messageBits_getElem? (m : Mem) (address n i : Nat) (inside : i < 8 * n) :
    (messageBits (bytes m address n))[i]? =
      some ((m (address + i / 8)).toBitVec.getLsbD (i % 8)) := by
  induction n generalizing address i with
  | zero => omega
  | succ n ih =>
      rw [bytes_succ, messageBits, List.flatMap_cons, ← messageBits, List.getElem?_append,
        byteBits_length]
      split
      · rename_i first
        rw [byteBits, List.getElem?_map, List.getElem?_range first, Nat.div_eq_of_lt first,
          Nat.mod_eq_of_lt first]
        rfl
      · have byte : address + 1 + (i - 8) / 8 = address + i / 8 := by omega
        have place : (i - 8) % 8 = i % 8 := by omega
        rw [ih _ _ (by omega), byte, place]

/-- Where two messages differ. -/
def difference (first second : List Bool) : List Bool := List.zipWith (· ^^ ·) first second

/-- The check values differ by what the register makes of the difference. -/
theorem crc32_difference (m m' : Mem) (buf size : UInt32)
    (room : buf.toNat + size.toNat ≤ 2 ^ 32) :
    (crc32 m buf size).toBitVec ^^^ (crc32 m' buf size).toBitVec =
      feed crc32Poly 0#32 (difference (messageBits (bytes m buf.toNat size.toNat))
        (messageBits (bytes m' buf.toNat size.toNat))) := by
  have same : (messageBits (bytes m buf.toNat size.toNat)).length =
      (messageBits (bytes m' buf.toNat size.toNat)).length := by simp
  have split := @feed_xor 32 crc32Poly _ _ same (~~~0#32) (~~~0#32)
  rw [BitVec.xor_self] at split
  rw [crc32_feed m buf size room, crc32_feed m' buf size room, difference, split,
    BitVec.xor_assoc, BitVec.xor_comm (~~~0#32), BitVec.xor_assoc, BitVec.xor_self,
    BitVec.xor_zero]

theorem difference_length (m m' : Mem) (address n : Nat) :
    (difference (messageBits (bytes m address n)) (messageBits (bytes m' address n))).length =
      8 * n := by
  simp [difference]

theorem difference_getElem? (m m' : Mem) (buf : UInt32) (n i : Nat) :
    (difference (messageBits (bytes m buf.toNat n)) (messageBits (bytes m' buf.toNat n)))[i]? =
        some true ↔
      i < 8 * n ∧ objectBit m buf i ≠ objectBit m' buf i := by
  by_cases inside : i < 8 * n
  · rw [difference, List.getElem?_zipWith, messageBits_getElem? _ _ _ _ inside,
      messageBits_getElem? _ _ _ _ inside]
    simp [objectBit, inside]
  · rw [List.getElem?_eq_none (by rw [difference_length]; omega)]
    simp [inside]

theorem crc32_eq_iff (m m' : Mem) (buf size : UInt32) (room : buf.toNat + size.toNat ≤ 2 ^ 32) :
    crc32 m buf size = crc32 m' buf size ↔
      feed crc32Poly 0#32 (difference (messageBits (bytes m buf.toNat size.toNat))
        (messageBits (bytes m' buf.toNat size.toNat))) = 0#32 := by
  rw [← crc32_difference m m' buf size room, BitVec.xor_eq_zero_iff, UInt32.toBitVec_inj]

end Message

section Remainder

theorem crc32Poly_bits : stateBits crc32Poly =
    [false, false, false, false, false, true, false, false, true, true, false, false, false, false,
      false, true, false, false, false, true, true, true, false, true, true, false, true, true,
      false, true, true, true] := by
  decide

theorem crc32Poly_generator :
    generator crc32Poly = X ^ 32 + X ^ 26 + X ^ 23 + X ^ 22 + X ^ 16 + X ^ 12 + X ^ 11 + X ^ 10 +
      X ^ 8 + X ^ 7 + X ^ 5 + X ^ 4 + X ^ 2 + X + 1 := by
  rw [generator, statePolynomial, crc32Poly_bits]
  simp [bitsPolynomial]
  ring

/-- The value of an object is the remainder of its bits as a polynomial, with ones at first and
inverted at last. -/
theorem crc32_remainder (m : Mem) (buf size : UInt32) (room : buf.toNat + size.toNat ≤ 2 ^ 32) :
    statePolynomial (crc32 m buf size).toBitVec =
      (X ^ (8 * size.toNat) * statePolynomial (~~~0#32) +
          X ^ 32 * bitsPolynomial (messageBits (bytes m buf.toNat size.toNat))) %ₘ
        (X ^ 32 + X ^ 26 + X ^ 23 + X ^ 22 + X ^ 16 + X ^ 12 + X ^ 11 + X ^ 10 + X ^ 8 + X ^ 7 +
          X ^ 5 + X ^ 4 + X ^ 2 + X + 1) +
      statePolynomial (~~~0#32) := by
  rw [crc32_feed m buf size room, statePolynomial_xor, statePolynomial_feed_eq (by decide),
    crc32Poly_generator, messageBits_length, bytes_length]

theorem crc32_remainder_abc :
    statePolynomial (crc32 (ofList [0x61, 0x62, 0x63]) 0 3).toBitVec =
      (X ^ (8 * 3) * statePolynomial (~~~0#32) +
          X ^ 32 * bitsPolynomial (messageBits [0x61, 0x62, 0x63])) %ₘ
        (X ^ 32 + X ^ 26 + X ^ 23 + X ^ 22 + X ^ 16 + X ^ 12 + X ^ 11 + X ^ 10 + X ^ 8 + X ^ 7 +
          X ^ 5 + X ^ 4 + X ^ 2 + X + 1) +
      statePolynomial (~~~0#32) :=
  crc32_remainder (ofList [0x61, 0x62, 0x63]) 0 3 (by decide)

end Remainder

section Detection

variable {m m' : Mem} {buf size : UInt32}

/-- Objects that differ, but only within 32 bits in a row, have different check values. -/
theorem crc32_detects_burst (room : buf.toNat + size.toNat ≤ 2 ^ 32) (front : Nat)
    (differ : ∃ i < 8 * size.toNat, objectBit m buf i ≠ objectBit m' buf i)
    (near : ∀ i < 8 * size.toNat, objectBit m buf i ≠ objectBit m' buf i →
      front ≤ i ∧ i < front + 32) :
    crc32 m buf size ≠ crc32 m' buf size := by
  intro same
  rw [crc32_eq_iff m m' buf size room] at same
  obtain ⟨burst, before, behind, fits, some, split⟩ := @window_split _ front 32
    (fun i bit => by
      have at' := (difference_getElem? m m' buf size.toNat i).mp bit
      exact near i at'.1 at'.2)
  obtain ⟨i, inside, bit⟩ := differ
  have member := List.mem_of_getElem? ((difference_getElem? m m' buf size.toNat i).mpr ⟨inside, bit⟩)
  rw [split] at same
  exact feed_burst crc32Poly_top fits (some member) before behind same

theorem crc32_detects_flip :
    crc32 (ofList [0x61]) 0 1 ≠ crc32 (ofList [0x60]) 0 1 :=
  crc32_detects_burst (by decide) 0 ⟨0, by decide, by decide⟩ (by decide)

/-- The return of the register to its lowest bit, seen from the highest. -/
theorem steps_one_iff (n : Nat) :
    steps crc32Poly n 1#32 = 1#32 ↔ steps crc32Poly n (topBit 32) = topBit 32 := by
  have down : steps crc32Poly 31 (topBit 32) = 1#32 := steps_single (by decide)
  rw [← down, steps_comm]
  exact (steps_injective crc32Poly_top 31).eq_iff

/-- The register returns to its lowest bit after 2^32 - 1 steps and not before: every nonzero state
lies on the way. -/
theorem crc32Poly_period (k : Nat) :
    steps crc32Poly k 1#32 = 1#32 ↔ 2 ^ 32 - 1 ∣ k := by
  apply period_eq
  · rw [steps_one_iff, ← power_eq (k := 32) (by decide)]
    decide +kernel
  · intro q prime divides
    have factors : 2 ^ 32 - 1 = 3 * 5 * 17 * 257 * 65537 := by decide
    rw [Ne, steps_one_iff, ← power_eq (k := 32)
      (Nat.lt_of_le_of_lt (Nat.div_le_self _ _) (by decide))]
    rw [factors, prime.dvd_mul, prime.dvd_mul, prime.dvd_mul, prime.dvd_mul,
      Nat.prime_dvd_prime_iff_eq prime (by norm_num),
      Nat.prime_dvd_prime_iff_eq prime (by norm_num),
      Nat.prime_dvd_prime_iff_eq prime (by norm_num),
      Nat.prime_dvd_prime_iff_eq prime (by norm_num),
      Nat.prime_dvd_prime_iff_eq prime (by norm_num)] at divides
    obtain (((rfl | rfl) | rfl) | rfl) | rfl := divides
    · decide +kernel
    · decide +kernel
    · decide +kernel
    · decide +kernel
    · decide +kernel

/-- Two flipped bits go unnoticed exactly if a multiple of 2^32 - 1 lies between them. -/
theorem crc32_misses_pair_iff (room : buf.toNat + size.toNat ≤ 2 ^ 32) {i j : Nat} (order : i < j)
    (inside : j < 8 * size.toNat)
    (only : ∀ k < 8 * size.toNat, objectBit m buf k ≠ objectBit m' buf k ↔ k = i ∨ k = j) :
    crc32 m buf size = crc32 m' buf size ↔ 2 ^ 32 - 1 ∣ j - i := by
  have split := @pair_split (difference (messageBits (bytes m buf.toNat size.toNat))
    (messageBits (bytes m' buf.toNat size.toNat))) _ _ order (by rw [difference_length]; exact inside)
    (fun k => by
      rw [difference_getElem?]
      constructor
      · intro differ
        exact (only k differ.1).mp differ.2
      · intro here
        have below : k < 8 * size.toNat := by omega
        exact ⟨below, (only k below).mpr here⟩)
  have steps : j - i - 1 + 1 = j - i := by omega
  rw [crc32_eq_iff m m' buf size room, split, feed_pair crc32Poly_top, steps, crc32Poly_period]

theorem byte_bit_lowest (k : Nat) : ((1 : UInt8).toBitVec.getLsbD k = true) ↔ k = 0 := by
  simp

theorem byte_bit_highest (k : Nat) : ((0x80 : UInt8).toBitVec.getLsbD k = true) ↔ k = 7 := by
  have one : (0x80 : UInt8).toBitVec = BitVec.twoPow 8 7 := by decide
  rw [one, BitVec.getLsbD_twoPow]
  simp [eq_comm]

/-- The first and the last bit of 2^29 bytes. -/
theorem crc32_misses_ends :
    crc32 (fun _ => 0) 0 0x20000000 =
      crc32 (store8 (store8 (fun _ => 0) 0 1) 0x1FFFFFFF 0x80) 0 0x20000000 := by
  refine (crc32_misses_pair_iff (by decide) (i := 0) (j := 0xFFFFFFFF) (by decide) (by decide)
    ?_).mpr (by decide)
  intro k inside
  change k < 8 * 0x20000000 at inside
  have clear : objectBit (fun _ => 0) 0 k = false := BitVec.getLsbD_zero
  rw [clear, Ne, eq_comm, Bool.not_eq_false, objectBit, UInt32.toNat_zero, Nat.zero_add]
  by_cases last : k / 8 = 0x1FFFFFFF
  · rw [last, store8_same, byte_bit_highest]
    omega
  · rw [store8_other _ _ _ _ last]
    by_cases first : k / 8 = 0
    · rw [first, store8_same, byte_bit_lowest]
      omega
    · rw [store8_other _ _ _ _ first]
      simp
      omega

end Detection

section Residue

variable (m : Mem)

theorem load16_bit (address i : Nat) (inside : i < 16) :
    (load16 m address).toNat.testBit i = (m (address + i / 8)).toNat.testBit (i % 8) := by
  rw [load16_toNat, Nat.add_comm, Nat.testBit_two_pow_mul_add _ (m address).toNat_lt]
  split
  · rename_i low
    rw [Nat.div_eq_of_lt low, Nat.mod_eq_of_lt low, Nat.add_zero]
  · have byte : i / 8 = 1 := by omega
    have place : i - 8 = i % 8 := by omega
    rw [byte, place]

theorem load32_bit (address i : Nat) (inside : i < 32) :
    (load32 m address).toNat.testBit i = (m (address + i / 8)).toNat.testBit (i % 8) := by
  rw [load32_toNat, Nat.add_comm, Nat.testBit_two_pow_mul_add _ (load16 m address).toNat_lt]
  split
  · rename_i low
    rw [load16_bit m address i low]
  · have byte : address + 2 + (i - 16) / 8 = address + i / 8 := by omega
    have place : (i - 16) % 8 = i % 8 := by omega
    rw [load16_bit m (address + 2) (i - 16) (by omega), byte, place]

theorem word_load32 (address : Nat) :
    word 32 (messageBits (bytes m address 4)) = (load32 m address).toBitVec := by
  apply BitVec.eq_of_getLsbD_eq
  intro i inside
  have bit : (load32 m address).toBitVec.getLsbD i =
      (m (address + i / 8)).toBitVec.getLsbD (i % 8) := load32_bit m address i inside
  rw [word_getLsbD, List.getD_eq_getElem?_getD, messageBits_getElem? _ _ _ _ (by omega), bit,
    decide_eq_true inside]
  rfl

/-- The check value behind an object, and nothing else there, makes one constant of the check value
of both. -/
theorem crc32_residue_iff (buf size : UInt32) (room : buf.toNat + size.toNat + 4 ≤ 2 ^ 32)
    (fits : size.toNat + 4 < 2 ^ 32) :
    crc32 m buf (size + 4) = 0x2144DF1C ↔
      load32 m (buf.toNat + size.toNat) = crc32 m buf size := by
  have total : (size + 4).toNat = size.toNat + 4 := by
    rw [UInt32.toNat_add]
    exact Nat.mod_eq_of_lt fits
  have whole := crc32_feed m buf (size + 4) (by omega)
  have object := crc32_feed m buf size (by omega)
  rw [total, bytes_append, messageBits_append, feed_append,
    @feed_word _ _ (messageBits (bytes m (buf.toNat + size.toNat) 4)) (by simp),
    messageBits_length, bytes_length, word_load32] at whole
  generalize feed crc32Poly (~~~0#32) (messageBits (bytes m buf.toNat size.toNat)) = s
    at whole object
  have residue : (0x2144DF1C : UInt32).toBitVec = steps crc32Poly 32 (~~~0#32) ^^^ ~~~0#32 := by
    decide +kernel
  rw [← UInt32.toBitVec_inj, ← UInt32.toBitVec_inj, whole, object, residue,
    BitVec.xor_left_inj, (steps_injective crc32Poly_top 32).eq_iff]
  constructor
  · intro same
    rw [← same, ← BitVec.xor_assoc, BitVec.xor_self, BitVec.zero_xor]
  · intro same
    rw [same, ← BitVec.xor_assoc, BitVec.xor_self, BitVec.zero_xor]

theorem crc32_residue_a :
    crc32 (ofList [0x61, 0x43, 0xBE, 0xB7, 0xE8]) 0 (1 + 4) = 0x2144DF1C :=
  (crc32_residue_iff (ofList [0x61, 0x43, 0xBE, 0xB7, 0xE8]) 0 1 (by decide) (by decide)).mpr
    (by decide)

end Residue

end FrogOS
