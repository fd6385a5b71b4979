import FrogOS.ByteMemory

set_option autoImplicit false

namespace FrogOS.LongWalk

open ByteMemory

/-- The 64-bit table entry at an address. -/
def entry (m : Mem) (address : Nat) : Nat :=
  (load32 m address).toNat + 2 ^ 32 * (load32 m (address + 4)).toNat

def flag (e bit : Nat) : Bool := decide (e / 2 ^ bit % 2 = 1)

/-- What an entry points to: its address bits from bit `shift` on. -/
def frame (e shift : Nat) : Nat := e % 2 ^ 52 / 2 ^ shift * 2 ^ shift

/-- The address bits below those that the tables of a level translate. -/
def shift (level : Nat) : Nat := 12 + 9 * level

/-- Where a table of a level keeps the entry for a virtual address. -/
def slot (level table v : Nat) : Nat := table + 8 * (v / 2 ^ shift level % 2 ^ 9)

structure Mapping where
  physical : Nat
  writable : Bool
deriving DecidableEq, Repr

/-- An entry that maps a page. The address bits below the page's size are reserved. -/
def leaf (shift e v : Nat) (writable : Bool) : Option Mapping :=
  if e % 2 ^ shift / 2 ^ 13 = 0 then some ⟨frame e shift + v % 2 ^ shift, writable && flag e 1⟩
  else none

/-- The rest of the processor's walk from a table on, `none` on a page fault. The
execute-disable bit is reserved, as it is while its feature is off. -/
def walkFrom (m : Mem) (v : Nat) : Nat → Nat → Bool → Option Mapping
  | 0, table, writable =>
      let e := entry m (slot 0 table v)
      if flag e 0 && !flag e 63 then leaf (shift 0) e v writable else none
  | level + 1, table, writable =>
      let e := entry m (slot (level + 1) table v)
      if flag e 0 && !flag e 63 then
        if flag e 7 then
          -- Only the tables of the levels 1 and 2 can map a page themselves.
          if level < 2 then leaf (shift (level + 1)) e v writable else none
        else walkFrom m v level (frame e 12) (writable && flag e 1)
      else none

/-- The four-level walk. -/
def walk (m : Mem) (cr3 v : Nat) : Option Mapping := walkFrom m v 3 cr3 true

variable {m m' : Mem} {v level table address : Nat} {writable : Bool}

theorem flag_iff (e bit : Nat) : flag e bit = true ↔ e / 2 ^ bit % 2 = 1 := decide_eq_true_iff

theorem flag_false_iff (e bit : Nat) : flag e bit = false ↔ e / 2 ^ bit % 2 = 0 := by
  have parity := Nat.mod_two_eq_zero_or_one (e / 2 ^ bit)
  rw [flag, decide_eq_false_iff_not]
  omega

theorem entry_congr (same : Agree address 8 m m') : entry m' address = entry m address := by
  have low : load32 m' address = load32 m address :=
    load32_congr fun x lower upper => same x lower (by omega)
  have high : load32 m' (address + 4) = load32 m (address + 4) :=
    load32_congr fun x lower upper => same x (by omega) (by omega)
  rw [entry, entry, low, high]

/-- An entry without its present bit ends the walk. -/
theorem walkFrom_absent (absent : entry m (slot level table v) % 2 = 0) :
    walkFrom m v level table writable = none := by
  have clear : flag (entry m (slot level table v)) 0 = false := by
    rw [flag_false_iff]
    omega
  cases level with
  | zero => simp [walkFrom, clear]
  | succ level => simp [walkFrom, clear]

/-- An entry that points to a table, present and writable, hands the walk on to it. -/
theorem walkFrom_table {next : Nat} (aligned : next % 2 ^ 12 = 0) (small : next < 2 ^ 52)
    (points : entry m (slot (level + 1) table v) = next + 3) :
    walkFrom m v (level + 1) table writable = walkFrom m v level next writable := by
  have present : flag (next + 3) 0 = true := by
    rw [flag_iff]
    omega
  have write : flag (next + 3) 1 = true := by
    rw [flag_iff]
    omega
  have pointer : flag (next + 3) 7 = false := by
    rw [flag_false_iff]
    omega
  have executable : flag (next + 3) 63 = false := by
    rw [flag_false_iff]
    omega
  have target : frame (next + 3) 12 = next := by
    unfold frame
    omega
  simp [walkFrom, points, present, write, pointer, executable, target]

/-- An entry that maps a 2 MiB page, present and writable, ends the walk in it. -/
theorem walkFrom_page (e : Nat) (flags : e % 2 ^ 21 = 0x83)
    (maps : entry m (slot 1 table v) = e) :
    walkFrom m v 1 table true =
      if e / 2 ^ 63 % 2 = 0 then some ⟨frame e 21 + v % 2 ^ 21, true⟩ else none := by
  have present : flag e 0 = true := by
    rw [flag_iff]
    omega
  have write : flag e 1 = true := by
    rw [flag_iff]
    omega
  have page : flag e 7 = true := by
    rw [flag_iff]
    omega
  have mapped : leaf 21 e v true = some ⟨frame e 21 + v % 2 ^ 21, true⟩ := by
    have reserved : e % 2 ^ 21 / 2 ^ 13 = 0 := by omega
    rw [leaf, if_pos reserved, write]
    rfl
  by_cases executable : e / 2 ^ 63 % 2 = 0
  · have allowed : flag e 63 = false := (flag_false_iff e 63).mpr executable
    rw [if_pos executable, ← mapped]
    simp [walkFrom, maps, present, page, allowed, shift]
  · have forbidden : flag e 63 = true := by
      rw [flag_iff]
      omega
    rw [if_neg executable]
    simp [walkFrom, maps, forbidden]

end FrogOS.LongWalk
