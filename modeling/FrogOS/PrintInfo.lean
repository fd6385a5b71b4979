import FrogOS.Heap
import FrogOS.Orbit

set_option autoImplicit false

namespace FrogOS

open ByteMemory Orbit

/-- A call of `printf` in `print_info`, with its arguments. -/
inductive InfoLine
  | kernel (start stop : UInt32)
  | block (mi : UInt32)
  | tag (idx type size : UInt32)
  | entry (addr len : UInt64) (type : UInt32)
deriving DecidableEq, Repr

/-- `MULTIBOOT_TAG_TYPE_MMAP`. -/
def tagTypeMmap : UInt32 := 6

section Block

-- The memory from `multiboot_info` on: the block and whatever is behind it.
variable (info : Mem)

def tagType (idx : UInt32) : UInt32 := load32 info idx.toNat

def tagSize (idx : UInt32) : UInt32 := load32 info (idx + 4).toNat

def entrySize (idx : UInt32) : UInt32 := load32 info (idx + 8).toNat

/-- `idx+=((tag_size+7)&~7)`. -/
def nextTag (idx : UInt32) : UInt32 := idx + ((tagSize info idx + 7) &&& ~~~(7 : UInt32))

def entryLine (place : UInt32) : InfoLine :=
  .entry (load64 info place.toNat) (load64 info (place + 8).toNat) (load32 info (place + 16).toNat)

/-- The inner loop, in the memory map at `idx`. -/
def mmapLoop (idx : UInt32) : Nat → UInt32 → Option (List InfoLine)
  | 0, _ => none
  | fuel + 1, i =>
      if i < tagSize info idx then do
        let rest ← mmapLoop idx fuel (i + entrySize info idx)
        return entryLine info (idx + i) :: rest
      else return []

/-- What is printed below the line of a tag. -/
def tagEntries (fuel : Nat) (idx : UInt32) : Option (List InfoLine) :=
  if tagType info idx = tagTypeMmap then mmapLoop info idx fuel 16 else some []

/-- The outer loop. -/
def tagLoop (size : UInt32) : Nat → UInt32 → Option (List InfoLine)
  | 0, _ => none
  | fuel + 1, idx =>
      if idx < size then do
        let entries ← tagEntries info fuel idx
        let rest ← tagLoop size fuel (nextTag info idx)
        return .tag idx (tagType info idx) (tagSize info idx) :: entries ++ rest
      else return []

/-- The first word of the block. -/
def totalSize : UInt32 := load32 info 0

def printInfo (fuel : Nat) (kernelStart kernelEnd mi : UInt32) : Option (List InfoLine) := do
  let lines ← tagLoop info (totalSize info) fuel 8
  return .kernel kernelStart kernelEnd :: .block mi :: lines

end Block

section Fuel

variable {info : Mem} {idx i size : UInt32} {fuel more : Nat} {lines : List InfoLine}

theorem mmapLoop_mono (le : fuel ≤ more) (done : mmapLoop info idx fuel i = some lines) :
    mmapLoop info idx more i = some lines := by
  induction fuel generalizing more i lines with
  | zero => cases done
  | succ fuel ih =>
      obtain ⟨more, rfl⟩ : ∃ k, more = k + 1 := ⟨more - 1, by omega⟩
      rw [mmapLoop] at done ⊢
      split at done
      · rename_i inside
        obtain ⟨rest, ends, result⟩ := Option.bind_eq_some_iff.mp done
        rw [if_pos inside, ih (by omega) ends]
        exact result
      · rename_i outside
        rw [if_neg outside]
        exact done

theorem tagEntries_mono (le : fuel ≤ more) (done : tagEntries info fuel idx = some lines) :
    tagEntries info more idx = some lines := by
  rw [tagEntries] at done ⊢
  split at done
  · rename_i mmap
    rw [if_pos mmap]
    exact mmapLoop_mono le done
  · rename_i other
    rw [if_neg other]
    exact done

theorem tagLoop_mono (le : fuel ≤ more) (done : tagLoop info size fuel idx = some lines) :
    tagLoop info size more idx = some lines := by
  induction fuel generalizing more idx lines with
  | zero => cases done
  | succ fuel ih =>
      obtain ⟨more, rfl⟩ : ∃ k, more = k + 1 := ⟨more - 1, by omega⟩
      rw [tagLoop] at done ⊢
      split at done
      · rename_i inside
        obtain ⟨entries, inner, done⟩ := Option.bind_eq_some_iff.mp done
        obtain ⟨rest, ends, result⟩ := Option.bind_eq_some_iff.mp done
        rw [if_pos inside, tagEntries_mono (by omega) inner, Option.bind_eq_bind, Option.bind_some,
          ih (by omega) ends]
        exact result
      · rename_i outside
        rw [if_neg outside]
        exact done

theorem mmapLoop_step (inside : i < tagSize info idx)
    (rest : mmapLoop info idx fuel (i + entrySize info idx) = some lines) :
    mmapLoop info idx (fuel + 1) i = some (entryLine info (idx + i) :: lines) := by
  rw [mmapLoop, if_pos inside, rest]
  rfl

theorem mmapLoop_stop (fuel : Nat) (outside : ¬ i < tagSize info idx) :
    mmapLoop info idx (fuel + 1) i = some [] := by
  rw [mmapLoop, if_neg outside]
  rfl

theorem tagLoop_step {entries : List InfoLine} (inside : idx < size)
    (inner : tagEntries info fuel idx = some entries)
    (rest : tagLoop info size fuel (nextTag info idx) = some lines) :
    tagLoop info size (fuel + 1) idx =
      some (.tag idx (tagType info idx) (tagSize info idx) :: entries ++ lines) := by
  rw [tagLoop, if_pos inside, inner, Option.bind_eq_bind, Option.bind_some, rest]
  rfl

theorem tagLoop_stop (fuel : Nat) (outside : ¬ idx < size) :
    tagLoop info size (fuel + 1) idx = some [] := by
  rw [tagLoop, if_neg outside]
  rfl

end Fuel

section Termination

variable (info : Mem)

/-- What is printed below the line of a tag comes to an end. -/
def EntriesEnd (idx : UInt32) : Prop := ∃ fuel lines, tagEntries info fuel idx = some lines

variable {info} {idx size : UInt32}

theorem mmapLoop_ends_iff (info : Mem) (idx i : UInt32) :
    (∃ fuel lines, mmapLoop info idx fuel i = some lines) ↔
      ∃ n, (tagSize info idx).toNat ≤ (i.toNat + n * (entrySize info idx).toNat) % 2 ^ 32 := by
  have here := Nat.mod_eq_of_lt i.toNat_lt
  have step (i : UInt32) (n : Nat) :
      ((i + entrySize info idx).toNat + n * (entrySize info idx).toNat) % 2 ^ 32 =
        (i.toNat + (n + 1) * (entrySize info idx).toNat) % 2 ^ 32 := by
    rw [UInt32.toNat_add, Nat.mod_add_mod, Nat.add_assoc, Nat.add_comm (entrySize info idx).toNat,
      Nat.add_one_mul]
  constructor
  · rintro ⟨fuel, lines, done⟩
    induction fuel generalizing i lines with
    | zero => cases done
    | succ fuel ih =>
        rw [mmapLoop] at done
        split at done
        · obtain ⟨rest, ends, -⟩ := Option.bind_eq_some_iff.mp done
          obtain ⟨n, reached⟩ := ih _ (Nat.mod_eq_of_lt (UInt32.toNat_lt _)) rest ends
          exact ⟨n + 1, by rw [← step]; exact reached⟩
        · rename_i outside
          refine ⟨0, ?_⟩
          rw [Nat.zero_mul, Nat.add_zero, Nat.mod_eq_of_lt i.toNat_lt]
          exact UInt32.le_iff_toNat_le.mp (UInt32.not_lt.mp outside)
  · rintro ⟨n, reached⟩
    induction n generalizing i with
    | zero =>
        rw [Nat.zero_mul, Nat.add_zero, here] at reached
        have outside := UInt32.not_lt.mpr (UInt32.le_iff_toNat_le.mpr reached)
        exact ⟨1, [], mmapLoop_stop 0 outside⟩
    | succ n ih =>
        by_cases inside : i < tagSize info idx
        · obtain ⟨fuel, rest, ends⟩ := ih (i + entrySize info idx)
            (Nat.mod_eq_of_lt (UInt32.toNat_lt _)) (by rw [step]; exact reached)
          exact ⟨fuel + 1, _, mmapLoop_step inside ends⟩
        · exact ⟨1, [], mmapLoop_stop 0 inside⟩

/-- The inner loop ends exactly if steps of `entry_size` can get to the end of the tag. -/
theorem entriesEnd_iff :
    EntriesEnd info idx ↔ (tagType info idx = tagTypeMmap →
      (tagSize info idx).toNat ≤ top (2 ^ 32) (entrySize info idx).toNat 16) := by
  have steps := mmapLoop_ends_iff info idx 16
  have passes := stride_passes_iff (m := 2 ^ 32) (e := (entrySize info idx).toNat)
    (s := (16 : UInt32).toNat) (by decide) (tagSize info idx).toNat
  by_cases mmap : tagType info idx = tagTypeMmap
  · simp only [EntriesEnd, tagEntries, forall_const, mmap]
    exact steps.trans passes
  · simp only [EntriesEnd, tagEntries, if_neg mmap]
    exact ⟨fun _ is => absurd is mmap, fun _ => ⟨0, [], rfl⟩⟩

/-- The outer loop ends exactly if the walk from tag to tag gets to the end of the block and all
tags on its way come to an end. -/
theorem tagLoop_ends_iff :
    (∃ fuel lines, tagLoop info size fuel idx = some lines) ↔
      (∃ n, size ≤ (nextTag info)^[n] idx) ∧
        ∀ k, Walking (nextTag info) (size ≤ ·) idx k →
          EntriesEnd info ((nextTag info)^[k] idx) := by
  constructor
  · rintro ⟨fuel, lines, done⟩
    induction fuel generalizing idx lines with
    | zero => cases done
    | succ fuel ih =>
        rw [tagLoop] at done
        split at done
        · obtain ⟨entries, inner, done⟩ := Option.bind_eq_some_iff.mp done
          obtain ⟨rest, ends, -⟩ := Option.bind_eq_some_iff.mp done
          obtain ⟨⟨n, reached⟩, all⟩ := ih rest ends
          refine ⟨⟨n + 1, reached⟩, fun k walking => ?_⟩
          cases k with
          | zero => exact ⟨fuel, entries, inner⟩
          | succ k => exact all k (walking_succ.mp walking).2
        · rename_i outside
          have ended : size ≤ idx := UInt32.not_lt.mp outside
          exact ⟨⟨0, ended⟩, fun k walking => absurd ended walking.head⟩
  · rintro ⟨⟨n, reached⟩, all⟩
    induction n generalizing idx with
    | zero => exact ⟨1, [], tagLoop_stop 0 (UInt32.not_lt.mpr reached)⟩
    | succ n ih =>
        by_cases inside : idx < size
        · have here : ¬ size ≤ idx := UInt32.not_le.mpr inside
          have later (k : Nat)
              (walking : Walking (nextTag info) (size ≤ ·) (nextTag info idx) k) :
              EntriesEnd info ((nextTag info)^[k] (nextTag info idx)) :=
            all (k + 1) (walking_succ.mpr ⟨here, walking⟩)
          obtain ⟨outer, rest, ends⟩ := ih later reached
          have first : Walking (nextTag info) (size ≤ ·) idx 0 := by
            intro k below
            rw [Nat.le_zero.mp below]
            exact here
          obtain ⟨inner, entries, entered⟩ := all 0 first
          exact ⟨max inner outer + 1, _, tagLoop_step inside
            (tagEntries_mono (Nat.le_max_left inner outer) entered)
            (tagLoop_mono (Nat.le_max_right inner outer) ends)⟩
        · exact ⟨1, [], tagLoop_stop 0 inside⟩

/-- The walk from tag to tag never comes back to an offset while it is inside the block. -/
def TagsAdvance (info : Mem) : Prop := NoReturn (nextTag info) (totalSize info ≤ ·) 8

/-- The tags that are visited again at once: `tag_size+7` is less than 8 modulo 2^32. -/
theorem nextTag_eq_self :
    nextTag info idx = idx ↔ tagSize info idx = 0 ∨ 0xfffffff9 ≤ tagSize info idx := by
  have seven : (7 : UInt32).toNat = 2 ^ 3 - 1 := rfl
  have rounded : ((tagSize info idx + 7) &&& ~~~(7 : UInt32)).toNat =
      (tagSize info idx + 7).toNat / 2 ^ 3 * 2 ^ 3 := by
    rw [UInt32.toNat_and, UInt32.toNat_not, seven]
    exact and_not_mask _ 3 (UInt32.toNat_lt _) (by decide)
  have small := (tagSize info idx).toNat_lt
  have sum : (tagSize info idx + 7).toNat = ((tagSize info idx).toNat + 7) % 2 ^ 32 :=
    UInt32.toNat_add _ _
  rw [nextTag, UInt32.add_eq_left, ← UInt32.toNat_inj, rounded, sum, ← UInt32.toNat_inj,
    UInt32.le_iff_toNat_le]
  change _ = 0 ↔ _ = 0 ∨ 4294967289 ≤ _
  omega

/-- As long as the offsets do not wrap around, only those tags are visited again. -/
theorem tagsAdvance_iff_sizes
    (ascends : ∀ k, Walking (nextTag info) (totalSize info ≤ ·) 8 k →
      ((nextTag info)^[k] 8).toNat ≤ ((nextTag info)^[k + 1] 8).toNat) :
    TagsAdvance info ↔ ∀ k, Walking (nextTag info) (totalSize info ≤ ·) 8 k →
      tagSize info ((nextTag info)^[k] 8) ≠ 0 ∧
        tagSize info ((nextTag info)^[k] 8) < 0xfffffff9 := by
  rw [TagsAdvance, noReturn_iff_moves (fun _ _ => UInt32.toNat_inj.mp) ascends]
  apply forall_congr'
  intro k
  rw [Function.iterate_succ_apply', ne_comm, ne_eq, nextTag_eq_self, not_or, UInt32.not_le]

/-- In every memory map that the walk gets to, the size is one that steps of `entry_size` from 16 on
get to: one of no more than 16 where they are zero, and else any but a few of the largest. -/
def EntriesAdvance (info : Mem) : Prop :=
  ∀ k, Walking (nextTag info) (totalSize info ≤ ·) 8 k →
    tagType info ((nextTag info)^[k] 8) = tagTypeMmap →
    (tagSize info ((nextTag info)^[k] 8)).toNat ≤
      top (2 ^ 32) (entrySize info ((nextTag info)^[k] 8)).toNat 16

theorem tagLoop_advances_iff :
    (∃ fuel lines, tagLoop info (totalSize info) fuel 8 = some lines) ↔
      TagsAdvance info ∧ EntriesAdvance info := by
  have words : Finite UInt32 := Finite.of_injective UInt32.toFin fun _ _ => UInt32.toFin_inj.mp
  rw [tagLoop_ends_iff, TagsAdvance, ← ends_iff_noReturn, EntriesAdvance]
  simp only [entriesEnd_iff]

end Termination

/-- `print_info` ends for exactly the blocks in which both walks get ahead. -/
theorem print_info_ends_iff (info : Mem) (kernelStart kernelEnd mi : UInt32) :
    (∃ fuel lines, printInfo info fuel kernelStart kernelEnd mi = some lines) ↔
      TagsAdvance info ∧ EntriesAdvance info := by
  rw [← tagLoop_advances_iff]
  constructor
  · rintro ⟨fuel, lines, done⟩
    obtain ⟨rest, ends, -⟩ := Option.bind_eq_some_iff.mp done
    exact ⟨fuel, rest, ends⟩
  · rintro ⟨fuel, lines, ends⟩
    exact ⟨fuel, _, by rw [printInfo, ends]; rfl⟩

/-- A block of 24 bytes whose first tag has the size zero. -/
def zeroSizeBlock : List UInt8 :=
  [24, 0, 0, 0, 0, 0, 0, 0, 1, 0, 0, 0, 0, 0, 0, 0, 0, 0, 0, 0, 8, 0, 0, 0]

/-- Its first tag is visited without end. -/
theorem zero_size_never_ends :
    ¬ ∀ info kernelStart kernelEnd mi,
      ∃ fuel lines, printInfo info fuel kernelStart kernelEnd mi = some lines := by
  intro claim
  obtain ⟨fuel, lines, done⟩ := claim (ofList zeroSizeBlock) 0xC0100000 0xC0180000 0xC0110000
  obtain ⟨rest, ends, -⟩ := Option.bind_eq_some_iff.mp done
  obtain ⟨⟨n, reached⟩, -⟩ := tagLoop_ends_iff.mp ⟨fuel, rest, ends⟩
  have fixed : nextTag (ofList zeroSizeBlock) 8 = 8 := by decide
  rw [Function.iterate_fixed fixed n] at reached
  exact absurd reached (by decide)

end FrogOS
