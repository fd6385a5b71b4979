import FrogOS.ByteMemory
import FrogOS.PagingAgreement

set_option autoImplicit false

namespace FrogOS

open ByteMemory

/-- `rep movsb`. -/
def bootMovsb : Nat → UInt32 → UInt32 → Mem → Mem
  | 0, _, _, m => m
  | ecx + 1, esi, edi, m => bootMovsb ecx (esi + 1) (edi + 1) (store8 m edi.toNat (m esi.toNat))

/-- The words of a memory. -/
def ramOf (m : Mem) : Ram := fun address => load32 m address

/-- What `multiboot_entry` leaves in memory before it turns paging on; without the magic number of
the boot loader it halts. The first word of the boot information is its size, and the page tables
are made after the whole of it is copied. -/
def multibootEntry (bss : BootBss) (eax ebx : UInt32) (m : Mem) : Option Ram :=
  if eax = 0x36d76289 then
    let m := bootMovsb (load32 m ebx.toNat).toNat ebx (UInt32.ofNat bss.multibootInfo) m
    some (bootTables bss (ramOf m))
  else none

/-- The directory names a table for the address. -/
def HasTable (ram : Ram) (cr3 v : UInt32) : Prop :=
  ram (entryAddress cr3 (v >>> 22)).toNat &&& 1 ≠ 0

/-- The slots of the directory that `multiboot_entry` fills. -/
def linkedSlots : List Nat := [0, 0x300, 0x301, 0x302, 0x3ff]

/-- The addresses that belong to the slots: the first 4 MiB, the kernel, and the window. -/
def InBootMap (v : UInt32) : Prop := v.toNat < 0x400000 ∨ InKernel v ∨ 0xFFC00000 ≤ v.toNat

/-- Boot information of `size` bytes at `ebx`: it lies in memory, as does its copy, apart from that,
and the loader has zeroed the page of the directory. -/
structure BootBlock (bss : BootBss) (ebx : UInt32) (m : Mem) : Prop where
  source : ebx.toNat + (load32 m ebx.toNat).toNat ≤ 2 ^ 32
  copy : bss.multibootInfo + (load32 m ebx.toNat).toNat ≤ 2 ^ 32
  apart : ebx.toNat + (load32 m ebx.toNat).toNat ≤ bss.multibootInfo ∨
    bss.multibootInfo + (load32 m ebx.toNat).toNat ≤ ebx.toNat
  zero : ∀ x, bss.pageDirectory ≤ x → x < bss.pageDirectory + 0x1000 → m x = 0

section Copy

variable {n : Nat} {esi edi : UInt32} {m : Mem}

/-- A copy to other cells. -/
theorem bootMovsb_blit (source : esi.toNat + n ≤ 2 ^ 32) (copy : edi.toNat + n ≤ 2 ^ 32)
    (apart : esi.toNat + n ≤ edi.toNat ∨ edi.toNat + n ≤ esi.toNat) :
    bootMovsb n esi edi m = blit m edi.toNat m esi.toNat n := by
  induction n generalizing esi edi m with
  | zero =>
      funext x
      have absent : ¬ (edi.toNat ≤ x ∧ x < edi.toNat + 0) := by omega
      simp only [bootMovsb, blit, absent, ↓reduceIte]
  | succ n ih =>
      have low := esi.toNat_lt
      have low' := edi.toNat_lt
      have next : (esi + 1).toNat = (esi.toNat + 1) % 2 ^ 32 := UInt32.toNat_add esi 1
      have next' : (edi + 1).toNat = (edi.toNat + 1) % 2 ^ 32 := UInt32.toNat_add edi 1
      funext x
      rw [bootMovsb, ih (by omega) (by omega) (by omega), blit, blit]
      by_cases first : x = edi.toNat
      · have absent : ¬ ((edi + 1).toNat ≤ x ∧ x < (edi + 1).toNat + n) := by omega
        have present : edi.toNat ≤ x ∧ x < edi.toNat + (n + 1) := by omega
        rw [if_neg absent, if_pos present, first, store8_same, Nat.sub_self, Nat.add_zero]
      · by_cases later : edi.toNat ≤ x ∧ x < edi.toNat + (n + 1)
        · have present : (edi + 1).toNat ≤ x ∧ x < (edi + 1).toNat + n := by omega
          have place : (esi + 1).toNat + (x - (edi + 1).toNat) = esi.toNat + (x - edi.toNat) := by
            omega
          rw [if_pos present, if_pos later, place, store8_other _ _ _ _ (by omega)]
        · have absent : ¬ ((edi + 1).toNat ≤ x ∧ x < (edi + 1).toNat + n) := by omega
          rw [if_neg absent, if_neg later, store8_other _ _ _ _ first]

/-- The lowest bit of a word is that of its first byte. -/
theorem load32_present (m : Mem) (address : Nat) :
    load32 m address &&& 1 = 0 ↔ (m address).toNat % 2 = 0 := by
  have low : (load32 m address &&& 1).toNat = (load32 m address).toNat % 2 := by
    rw [UInt32.toNat_and]
    exact Nat.and_one_is_mod _
  rw [← UInt32.toNat_inj, low, load32_toNat, load16_toNat]
  change _ = 0 ↔ _
  omega

end Copy

section Directory

variable (bss : BootBss) (ram : Ram)

/-- The first slot has the table of the kernel's first. -/
theorem directory_bottom : bootTables bss ram (bss.pageDirectory + 4 * 0) =
    bootTables bss ram (bss.pageDirectory + 4 * 0x300) := by
  rw [bootTables, linkTables_outside, linkTables_outside, fillTables_outside, fillTables_outside]
  · simp [linkTables, storeWord]
  all_goals
    simp only [BootBss.pageDirectory, BootBss.pageTable0, BootBss.pageTableHigh]
    omega

/-- The entries that `multiboot_entry` makes are present. -/
theorem directory_linked {k : Nat} (linked : k ∈ linkedSlots) :
    bootTables bss ram (bss.pageDirectory + 4 * k) &&& 1 ≠ 0 := by
  have kernel (j : Nat) (small : j < 3) := (bootTables_kernel bss ram j small).1.present
  simp only [linkedSlots, List.mem_cons, List.not_mem_nil, or_false] at linked
  rcases linked with rfl | rfl | rfl | rfl | rfl
  · rw [directory_bottom]
    exact kernel 0 (by decide)
  · exact kernel 0 (by decide)
  · exact kernel 1 (by decide)
  · exact kernel 2 (by decide)
  · exact (bootTables_window bss ram).1.present

/-- The others are what was there. -/
theorem directory_other {k : Nat} (small : k < 1024) (other : k ∉ linkedSlots) :
    bootTables bss ram (bss.pageDirectory + 4 * k) = ram (bss.pageDirectory + 4 * k) := by
  simp only [linkedSlots, List.mem_cons, List.not_mem_nil, or_false, not_or] at other
  rw [bootTables, linkTables_outside, fillTables_outside, linkTables]
  · iterate 5 rw [storeWord_other _ _ _ _ (by omega)]
  all_goals
    simp only [BootBss.pageDirectory, BootBss.pageTable0, BootBss.pageTableHigh]
    omega

theorem hasTable_slot (v : UInt32) :
    HasTable ram (bootCr3 bss) v ↔
      ram (bss.pageDirectory + 4 * (v.toNat / 2 ^ 22)) &&& 1 ≠ 0 := by
  have bound := v.toNat_lt
  have slot := pdidx_toNat v
  rw [HasTable, entryAddress_toNat (bootCr3_maps bss) _ (by omega), slot]

theorem inBootMap_slot (v : UInt32) : InBootMap v ↔ v.toNat / 2 ^ 22 ∈ linkedSlots := by
  have bound := v.toNat_lt
  simp only [InBootMap, InKernel, linkedSlots, List.mem_cons, List.not_mem_nil, or_false]
  omega

/-- The slots of the directory are those of the addresses. -/
theorem hasTable_iff :
    (∀ v, HasTable (bootTables bss ram) (bootCr3 bss) v ↔ InBootMap v) ↔
      ∀ k < 1024, k ∉ linkedSlots → ram (bss.pageDirectory + 4 * k) &&& 1 = 0 := by
  constructor
  · intro exact' k small other
    have number : (UInt32.ofNat (k * 2 ^ 22)).toNat / 2 ^ 22 = k := by
      rw [UInt32.toNat_ofNat']
      omega
    have unmapped := exact' (UInt32.ofNat (k * 2 ^ 22))
    rw [hasTable_slot, inBootMap_slot, number, directory_other bss ram small other] at unmapped
    exact not_not.mp (mt unmapped.mp other)
  · intro absent v
    have bound := v.toNat_lt
    rw [hasTable_slot, inBootMap_slot]
    by_cases linked : v.toNat / 2 ^ 22 ∈ linkedSlots
    · simp only [directory_linked bss ram linked, linked, ne_eq, not_false_eq_true]
    · rw [directory_other bss ram (by omega) linked, absent _ (by omega) linked]
      simp only [ne_eq, not_true_eq_false, linked]

/-- The first 4 MiB are mapped to themselves besides. -/
theorem mmuWalk_bottom {v : UInt32} (low : v.toNat < 0x400000) :
    ∃ p, mmuWalk (bootTables bss ram) (bootCr3 bss) v = some p ∧ p.toNat = v.toNat := by
  have directory := (bootTables_kernel bss ram 0 (by decide)).1
  rw [Nat.add_zero, ← directory_bottom] at directory
  have slot : v.toNat / 2 ^ 22 = 0 := by omega
  have index : v.toNat / 2 ^ 12 % 2 ^ 10 = v.toNat / 2 ^ 12 := by omega
  have page := bootTables_page bss ram (v.toNat / 2 ^ 12) (by omega)
  obtain ⟨p, walk, value⟩ := mmuWalk_maps (v := v) (bootCr3_maps bss) (by rw [slot]; exact directory)
    (by rw [index]; exact page)
  exact ⟨p, walk, by omega⟩

end Directory

section Block

variable {bss : BootBss} {eax ebx : UInt32} {m : Mem} {ram : Ram}

/-- Where the copy has reached the directory its bytes are there, else zeros. -/
theorem copied_byte (block : BootBlock bss ebx m) {x : Nat} (inside : x < 0x1000) :
    bootMovsb (load32 m ebx.toNat).toNat ebx (UInt32.ofNat bss.multibootInfo) m
        (bss.pageDirectory + x) =
      if 0x1000 + x < (load32 m ebx.toNat).toNat then m (ebx.toNat + 0x1000 + x) else 0 := by
  have placed := bss.upper
  have address : (UInt32.ofNat bss.multibootInfo).toNat = bss.multibootInfo := by
    rw [UInt32.toNat_ofNat']
    omega
  have directory : bss.pageDirectory = bss.multibootInfo + 0x1000 := rfl
  rw [bootMovsb_blit block.source (by rw [address]; exact block.copy)
    (by rw [address]; exact block.apart), blit, address]
  by_cases reached : 0x1000 + x < (load32 m ebx.toNat).toNat
  · have present : bss.multibootInfo ≤ bss.pageDirectory + x ∧
        bss.pageDirectory + x < bss.multibootInfo + (load32 m ebx.toNat).toNat := by omega
    have place : ebx.toNat + (bss.pageDirectory + x - bss.multibootInfo) =
        ebx.toNat + 0x1000 + x := by omega
    rw [if_pos present, if_pos reached, place]
  · have absent : ¬ (bss.multibootInfo ≤ bss.pageDirectory + x ∧
        bss.pageDirectory + x < bss.multibootInfo + (load32 m ebx.toNat).toNat) := by omega
    rw [if_neg absent, if_neg reached, block.zero _ (by omega) (by omega)]

/-- However long the boot information is, the kernel runs where it is linked and the first 4 MiB
are where they were. The directory has no other tables exactly if none of the words that the copy
leaves in its other slots looks like one: boot information of a page at most has no such words. -/
theorem boot_directory_iff (block : BootBlock bss ebx m)
    (started : multibootEntry bss eax ebx m = some ram) :
    (∀ v, InKernel v → ∃ p, mmuWalk ram (bootCr3 bss) v = some p ∧
      p.toNat = v.toNat - 0xC0000000) ∧
    (∀ v : UInt32, v.toNat < 0x400000 → ∃ p, mmuWalk ram (bootCr3 bss) v = some p ∧
      p.toNat = v.toNat) ∧
    ((∀ v, HasTable ram (bootCr3 bss) v ↔ InBootMap v) ↔
      ∀ k < 1024, k ∉ linkedSlots → 0x1000 + 4 * k < (load32 m ebx.toNat).toNat →
        (m (ebx.toNat + 0x1000 + 4 * k)).toNat % 2 = 0) := by
  rw [multibootEntry] at started
  split at started
  · rw [← Option.some.inj started]
    refine ⟨fun v inside => mmuWalk_kernel bss _ inside, fun v low => mmuWalk_bottom bss _ low, ?_⟩
    rw [hasTable_iff]
    apply forall_congr' fun k => ?_
    apply forall_congr' fun small => ?_
    apply forall_congr' fun other => ?_
    rw [ramOf, load32_present, copied_byte block (by omega)]
    split
    · rename_i reached
      simp only [reached, forall_const]
    · rename_i short
      simp [short]
  · cases started

/-- A loader's block of a page and 8 bytes at 64 KiB. Its last word, which is odd, comes to lie in
the second entry of the directory. -/
theorem long_block_boots :
    let m : Mem := fun x =>
      if x = 0x10000 then 8 else if x = 0x10001 then 0x10 else if x = 0x11004 then 1 else 0
    ∃ ram, multibootEntry sampleBss 0x36d76289 0x10000 m = some ram ∧
      (∀ v, InKernel v → ∃ p, mmuWalk ram (bootCr3 sampleBss) v = some p ∧
        p.toNat = v.toNat - 0xC0000000) ∧
      (∀ v : UInt32, v.toNat < 0x400000 → ∃ p, mmuWalk ram (bootCr3 sampleBss) v = some p ∧
        p.toNat = v.toNat) ∧
      ¬ ∀ v, HasTable ram (bootCr3 sampleBss) v ↔ InBootMap v := by
  intro m
  have size : (load32 m (0x10000 : UInt32).toNat).toNat = 0x1008 := by decide
  have block : BootBlock sampleBss 0x10000 m :=
    { source := by rw [size]; decide
      copy := by rw [size]; decide
      apart := by rw [size]; decide
      zero := by
        intro x lower upper
        change 0x121000 ≤ x at lower
        simp only [m]
        rw [if_neg (by omega), if_neg (by omega), if_neg (by omega)] }
  obtain ⟨ram, started⟩ : ∃ ram, multibootEntry sampleBss 0x36d76289 0x10000 m = some ram :=
    ⟨_, rfl⟩
  obtain ⟨kernel, bottom, clean⟩ := boot_directory_iff block started
  refine ⟨ram, started, kernel, bottom, fun same => ?_⟩
  have even := clean.mp same 1 (by decide) (by decide) (by rw [size]; decide)
  exact absurd even (by decide)

end Block

end FrogOS
