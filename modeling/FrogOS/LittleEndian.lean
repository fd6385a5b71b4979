import FrogOS.ByteMemory

set_option autoImplicit false

namespace FrogOS

open ByteMemory

/-- The bytes of a word, lowest first. -/
def le16 (value : UInt16) : List UInt8 :=
  [UInt8.ofNat value.toNat, UInt8.ofNat (value.toNat / 2 ^ 8)]

def le32 (value : UInt32) : List UInt8 :=
  le16 (UInt16.ofNat value.toNat) ++ le16 (UInt16.ofNat (value.toNat / 2 ^ 16))

def le64 (value : UInt64) : List UInt8 :=
  le32 (UInt32.ofNat value.toNat) ++ le32 (UInt32.ofNat (value.toNat / 2 ^ 32))

@[simp] theorem le16_length (value : UInt16) : (le16 value).length = 2 := rfl

@[simp] theorem le32_length (value : UInt32) : (le32 value).length = 4 := rfl

@[simp] theorem le64_length (value : UInt64) : (le64 value).length = 8 := rfl

theorem le16_inj {v w : UInt16} (same : le16 v = le16 w) : v = w := by
  obtain ⟨low, high⟩ := List.cons.inj same
  have lowByte := congrArg UInt8.toNat low
  have highByte := congrArg UInt8.toNat (List.cons.inj high).1
  simp only [UInt8.toNat_ofNat'] at lowByte highByte
  have boundV := v.toNat_lt
  have boundW := w.toNat_lt
  apply UInt16.toNat_inj.mp
  omega

theorem le32_inj {v w : UInt32} (same : le32 v = le32 w) : v = w := by
  obtain ⟨low, high⟩ := List.append_inj same rfl
  have lowHalf := congrArg UInt16.toNat (le16_inj low)
  have highHalf := congrArg UInt16.toNat (le16_inj high)
  simp only [UInt16.toNat_ofNat'] at lowHalf highHalf
  have boundV := v.toNat_lt
  have boundW := w.toNat_lt
  apply UInt32.toNat_inj.mp
  omega

/-- A word in memory is its bytes. -/
theorem le16_load16 (m : Mem) (address : Nat) : le16 (load16 m address) = bytes m address 2 := by
  have low := (m address).toNat_lt
  have high := (m (address + 1)).toNat_lt
  have first : UInt8.ofNat (load16 m address).toNat = m address := by
    apply UInt8.toNat_inj.mp
    rw [load16_toNat, UInt8.toNat_ofNat']
    omega
  have second : UInt8.ofNat ((load16 m address).toNat / 2 ^ 8) = m (address + 1) := by
    apply UInt8.toNat_inj.mp
    rw [load16_toNat, UInt8.toNat_ofNat']
    omega
  rw [le16, first, second]
  rfl

theorem load16_of_bytes {m : Mem} {address : Nat} {value : UInt16}
    (stored : bytes m address 2 = le16 value) : load16 m address = value := by
  apply le16_inj
  rw [le16_load16, stored]

theorem load32_of_bytes {m : Mem} {address : Nat} {value : UInt32}
    (stored : bytes m address 4 = le32 value) : load32 m address = value := by
  rw [show 4 = 2 + 2 from rfl, bytes_append] at stored
  obtain ⟨low, high⟩ := List.append_inj stored (by simp)
  apply UInt32.toNat_inj.mp
  have bound := value.toNat_lt
  rw [load32_toNat, load16_of_bytes low, load16_of_bytes high]
  simp only [UInt16.toNat_ofNat']
  omega

theorem le32_load32 (m : Mem) (address : Nat) : le32 (load32 m address) = bytes m address 4 := by
  rw [le32, load32_low, load32_high, le16_load16, le16_load16, ← bytes_append]

/-- What a store of four bytes leaves in each of them. -/
theorem store32_cell (m : Mem) (address : Nat) (value : UInt32) (i : Nat) (inside : i < 4) :
    store32 m address value (address + i) = ofList (le32 value) i := by
  have stored := le32_load32 (store32 m address value) address
  rw [load32_store32] at stored
  rw [stored, ofList_bytes _ _ _ _ inside]

theorem load64_of_bytes {m : Mem} {address : Nat} {value : UInt64}
    (stored : bytes m address 8 = le64 value) : load64 m address = value := by
  rw [show 8 = 4 + 4 from rfl, bytes_append] at stored
  obtain ⟨low, high⟩ := List.append_inj stored (by simp)
  apply UInt64.toNat_inj.mp
  have bound := value.toNat_lt
  rw [load64, load32_of_bytes low, load32_of_bytes high]
  simp only [UInt32.toNat_ofNat', UInt64.toNat_ofNat']
  omega

end FrogOS
