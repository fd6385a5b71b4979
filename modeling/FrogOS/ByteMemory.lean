import Mathlib.Algebra.Group.Nat.Defs

set_option autoImplicit false

namespace FrogOS.ByteMemory

/-- A byte-addressed memory. Multi-byte values are stored little-endian. -/
abbrev Mem := Nat → UInt8

def store8 (m : Mem) (address : Nat) (value : UInt8) : Mem :=
  fun x => if x = address then value else m x

def load16 (m : Mem) (address : Nat) : UInt16 :=
  UInt16.ofNat ((m address).toNat + 2 ^ 8 * (m (address + 1)).toNat)

def store16 (m : Mem) (address : Nat) (value : UInt16) : Mem :=
  store8 (store8 m address (UInt8.ofNat value.toNat)) (address + 1)
    (UInt8.ofNat (value.toNat / 2 ^ 8))

def load32 (m : Mem) (address : Nat) : UInt32 :=
  UInt32.ofNat ((load16 m address).toNat + 2 ^ 16 * (load16 m (address + 2)).toNat)

def store32 (m : Mem) (address : Nat) (value : UInt32) : Mem :=
  store16 (store16 m address (UInt16.ofNat value.toNat)) (address + 2)
    (UInt16.ofNat (value.toNat / 2 ^ 16))

def load64 (m : Mem) (address : Nat) : UInt64 :=
  UInt64.ofNat ((load32 m address).toNat + 2 ^ 32 * (load32 m (address + 4)).toNat)

/-- `n` cells from `address` on receive one value. -/
def fill (m : Mem) (address n : Nat) (value : UInt8) : Mem :=
  fun x => if address ≤ x ∧ x < address + n then value else m x

/-- `n` cells from `dst` on receive the cells of `source` from `src` on. -/
def blit (m : Mem) (dst : Nat) (source : Mem) (src n : Nat) : Mem :=
  fun x => if dst ≤ x ∧ x < dst + n then source (src + (x - dst)) else m x

/-- The contents of `n` cells, lowest address first. -/
def bytes (m : Mem) (address n : Nat) : List UInt8 :=
  (List.range n).map fun i => m (address + i)

/-- A list of bytes as the memory it is the start of. -/
def ofList (xs : List UInt8) : Mem := fun i => xs.getD i 0

/-- The two memories agree on the cells `[address, address + n)`. -/
def Agree (address n : Nat) (m m' : Mem) : Prop :=
  ∀ x, address ≤ x → x < address + n → m' x = m x

/-- The two memories agree everywhere but on the cells `[address, address + n)`. -/
def Frame (address n : Nat) (m m' : Mem) : Prop :=
  ∀ x, x < address ∨ address + n ≤ x → m' x = m x

@[simp] theorem store8_same (m : Mem) (address : Nat) (value : UInt8) :
    store8 m address value address = value := by
  simp only [store8, ↓reduceIte]

theorem store8_other (m : Mem) (address x : Nat) (value : UInt8) (other : x ≠ address) :
    store8 m address value x = m x := by
  simp only [store8, other, ↓reduceIte]

theorem fill_inside (m : Mem) (address n x : Nat) (value : UInt8)
    (lower : address ≤ x) (upper : x < address + n) : fill m address n value x = value := by
  simp only [fill, lower, upper, and_self, ↓reduceIte]

theorem blit_inside (m source : Mem) (dst src n i : Nat) (inside : i < n) :
    blit m dst source src n (dst + i) = source (src + i) := by
  have lower : dst ≤ dst + i := Nat.le_add_right dst i
  have upper : dst + i < dst + n := Nat.add_lt_add_left inside dst
  simp only [blit, lower, upper, and_self, ↓reduceIte, Nat.add_sub_cancel_left]

theorem load16_congr {m m' : Mem} {address : Nat} (same : Agree address 2 m m') :
    load16 m' address = load16 m address := by
  unfold load16
  rw [same address (by omega) (by omega), same (address + 1) (by omega) (by omega)]

theorem load32_congr {m m' : Mem} {address : Nat} (same : Agree address 4 m m') :
    load32 m' address = load32 m address := by
  unfold load32
  rw [load16_congr (fun x lower upper => same x lower (by omega)),
    load16_congr (fun x lower upper => same x (by omega) (by omega))]

theorem bytes_congr {m m' : Mem} {address n : Nat} (same : Agree address n m m') :
    bytes m' address n = bytes m address n := by
  apply List.map_congr_left
  intro i member
  have inside := List.mem_range.mp member
  exact same (address + i) (by omega) (by omega)

theorem load16_toNat (m : Mem) (address : Nat) :
    (load16 m address).toNat = (m address).toNat + 2 ^ 8 * (m (address + 1)).toNat := by
  have low := (m address).toNat_lt
  have high := (m (address + 1)).toNat_lt
  simp only [load16, UInt16.toNat_ofNat']
  omega

theorem load32_toNat (m : Mem) (address : Nat) :
    (load32 m address).toNat =
      (load16 m address).toNat + 2 ^ 16 * (load16 m (address + 2)).toNat := by
  have low := (load16 m address).toNat_lt
  have high := (load16 m (address + 2)).toNat_lt
  simp only [load32, UInt32.toNat_ofNat']
  omega

/-- Equal words have equal bytes. -/
theorem agree_of_load16 {m m' : Mem} {address : Nat}
    (same : load16 m' address = load16 m address) : Agree address 2 m m' := by
  have value := congrArg UInt16.toNat same
  rw [load16_toNat, load16_toNat] at value
  have low := (m address).toNat_lt
  have low' := (m' address).toNat_lt
  intro x lower upper
  by_cases first : x = address
  · rw [first]
    apply UInt8.toNat_inj.mp
    omega
  · rw [show x = address + 1 by omega]
    apply UInt8.toNat_inj.mp
    omega

theorem load16_store16 (m : Mem) (address : Nat) (value : UInt16) :
    load16 (store16 m address value) address = value := by
  apply UInt16.toNat_inj.mp
  have bound := value.toNat_lt
  rw [load16_toNat, store16, store8_other _ _ _ _ (by omega), store8_same, store8_same]
  simp only [UInt8.toNat_ofNat']
  omega

theorem store16_frame (m : Mem) (address : Nat) (value : UInt16) :
    Frame address 2 m (store16 m address value) := by
  intro x outside
  rw [store16, store8_other _ _ _ _ (by omega), store8_other _ _ _ _ (by omega)]

theorem store32_frame (m : Mem) (address : Nat) (value : UInt32) :
    Frame address 4 m (store32 m address value) := by
  intro x outside
  rw [store32, store16_frame _ _ _ x (by omega), store16_frame _ _ _ x (by omega)]

theorem fill_frame (m : Mem) (address n : Nat) (value : UInt8) :
    Frame address n m (fill m address n value) := by
  intro x outside
  have absent : ¬ (address ≤ x ∧ x < address + n) := by omega
  simp only [fill, absent, ↓reduceIte]

theorem blit_frame (m source : Mem) (dst src n : Nat) :
    Frame dst n m (blit m dst source src n) := by
  intro x outside
  have absent : ¬ (dst ≤ x ∧ x < dst + n) := by omega
  simp only [blit, absent, ↓reduceIte]

theorem load16_store32_low (m : Mem) (address : Nat) (value : UInt32) :
    load16 (store32 m address value) address = UInt16.ofNat value.toNat := by
  rw [store32, load16_congr (fun x lower upper => store16_frame _ _ _ x (by omega)),
    load16_store16]

theorem load16_store32_high (m : Mem) (address : Nat) (value : UInt32) :
    load16 (store32 m address value) (address + 2) = UInt16.ofNat (value.toNat / 2 ^ 16) := by
  rw [store32, load16_store16]

theorem load32_store32 (m : Mem) (address : Nat) (value : UInt32) :
    load32 (store32 m address value) address = value := by
  apply UInt32.toNat_inj.mp
  have bound := value.toNat_lt
  rw [load32_toNat, load16_store32_low, load16_store32_high]
  simp only [UInt16.toNat_ofNat']
  omega

/-- The lower half of a word in memory. -/
theorem load32_low (m : Mem) (address : Nat) :
    UInt16.ofNat (load32 m address).toNat = load16 m address := by
  apply UInt16.toNat_inj.mp
  have bound := (load16 m address).toNat_lt
  rw [load32_toNat, UInt16.toNat_ofNat']
  omega

/-- The upper half of a word in memory. -/
theorem load32_high (m : Mem) (address : Nat) :
    UInt16.ofNat ((load32 m address).toNat / 2 ^ 16) = load16 m (address + 2) := by
  apply UInt16.toNat_inj.mp
  have lower := (load16 m address).toNat_lt
  have upper := (load16 m (address + 2)).toNat_lt
  rw [load32_toNat, UInt16.toNat_ofNat']
  omega

theorem Frame.refl (address n : Nat) (m : Mem) : Frame address n m m :=
  fun _ _ => rfl

theorem Frame.trans {address n : Nat} {m m' m'' : Mem} (first : Frame address n m m')
    (second : Frame address n m' m'') : Frame address n m m'' :=
  fun x outside => (second x outside).trans (first x outside)

/-- A change within a smaller range is a change within a larger one. -/
theorem Frame.mono {a n b k : Nat} {m m' : Mem} (change : Frame a n m m')
    (lower : b ≤ a) (upper : a + n ≤ b + k) : Frame b k m m' :=
  fun x outside => change x (by omega)

theorem Frame.agree {a n b k : Nat} {m m' : Mem} (change : Frame a n m m')
    (apart : b + k ≤ a ∨ a + n ≤ b) : Agree b k m m' :=
  fun x lower upper => change x (by omega)

theorem load16_frame {a n address : Nat} {m m' : Mem} (change : Frame a n m m')
    (apart : address + 2 ≤ a ∨ a + n ≤ address) :
    load16 m' address = load16 m address :=
  load16_congr (change.agree apart)

theorem load32_frame {a n address : Nat} {m m' : Mem} (change : Frame a n m m')
    (apart : address + 4 ≤ a ∨ a + n ≤ address) :
    load32 m' address = load32 m address :=
  load32_congr (change.agree apart)

@[simp] theorem bytes_length (m : Mem) (address n : Nat) : (bytes m address n).length = n := by
  simp only [bytes, List.length_map, List.length_range]

theorem bytes_succ (m : Mem) (address n : Nat) :
    bytes m address (n + 1) = m address :: bytes m (address + 1) n := by
  rw [bytes, List.range_succ_eq_map, List.map_cons, List.map_map, Nat.add_zero]
  apply congrArg (List.cons _)
  apply List.map_congr_left
  intro i _
  rw [Function.comp_apply, Nat.succ_eq_add_one, Nat.add_assoc, Nat.add_comm 1]

theorem bytes_append (m : Mem) (address n k : Nat) :
    bytes m address (n + k) = bytes m address n ++ bytes m (address + n) k := by
  induction n generalizing address with
  | zero =>
      rw [Nat.zero_add]
      rfl
  | succ n ih =>
      rw [Nat.succ_add, bytes_succ, bytes_succ, ih, List.cons_append, Nat.add_assoc,
        Nat.add_comm 1]

theorem bytes_getElem? (m : Mem) (address n i : Nat) (inside : i < n) :
    (bytes m address n)[i]? = some (m (address + i)) := by
  simp only [bytes, List.getElem?_map, List.getElem?_range inside, Option.map_some]

/-- A slice of the contents is the contents of the slice. -/
theorem bytes_slice (m : Mem) (address n i k : Nat) (inside : i + k ≤ n) :
    ((bytes m address n).drop i).take k = bytes m (address + i) k := by
  apply List.ext_getElem?
  intro x
  rw [List.getElem?_take]
  split
  · rename_i small
    rw [List.getElem?_drop, bytes_getElem? _ _ _ _ (by omega), bytes_getElem? _ _ _ _ small,
      Nat.add_assoc]
  · rename_i large
    rw [List.getElem?_eq_none (by simpa using large)]

/-- Cells that hold the start of a list's memory hold the list. -/
theorem bytes_eq_ofList {m : Mem} {address : Nat} {xs : List UInt8}
    (holds : ∀ i, i < xs.length → m (address + i) = ofList xs i) :
    bytes m address xs.length = xs := by
  apply List.ext_getElem?
  intro i
  by_cases inside : i < xs.length
  · rw [bytes_getElem? _ _ _ _ inside, holds i inside, ofList, List.getD_eq_getElem?_getD,
      List.getElem?_eq_getElem inside, Option.getD_some]
  · have behind : xs.length ≤ i := Nat.le_of_not_lt inside
    rw [List.getElem?_eq_none (by rw [bytes_length]; exact behind), List.getElem?_eq_none behind]

/-- Behind the list its memory is zero. -/
theorem ofList_behind (xs : List UInt8) (i : Nat) (behind : xs.length ≤ i) : ofList xs i = 0 := by
  rw [ofList, List.getD_eq_getElem?_getD, List.getElem?_eq_none behind]
  rfl

/-- The memory of a slice starts with the slice. -/
theorem ofList_bytes (m : Mem) (address n i : Nat) (inside : i < n) :
    ofList (bytes m address n) i = m (address + i) := by
  rw [ofList, List.getD_eq_getElem?_getD, bytes_getElem? _ _ _ _ inside, Option.getD_some]

/-- Copying a whole list somewhere and reading it back gives the list. -/
theorem bytes_blit_ofList (m : Mem) (address : Nat) (xs : List UInt8) :
    bytes (blit m address (ofList xs) 0 xs.length) address xs.length = xs := by
  apply bytes_eq_ofList
  intro i inside
  rw [blit_inside _ _ _ _ _ _ inside, Nat.zero_add]

end FrogOS.ByteMemory
