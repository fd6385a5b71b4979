import FrogOS.Heap

set_option autoImplicit false

namespace FrogOS

/-- Physical memory by the aligned 32-bit words the page walk reads. -/
abbrev Ram := Nat → UInt32

def storeWord (ram : Ram) (address : Nat) (word : UInt32) : Ram :=
  fun a => if a = address then word else ram a

/-- Where an entry's frame holds the word of the given index. -/
def entryAddress (entry index : UInt32) : UInt32 := (entry &&& ~~~(0xFFF : UInt32)) + 4 * index

/-- The processor's two-level walk: the physical address `v` is mapped to. -/
def mmuWalk (ram : Ram) (cr3 v : UInt32) : Option UInt32 :=
  let pde := ram (entryAddress cr3 (v >>> 22)).toNat
  if pde &&& 1 = 0 then none
  else
    let pte := ram (entryAddress pde ((v >>> 12) &&& 0x3FF)).toNat
    if pte &&& 1 = 0 then none else some ((pte &&& ~~~(0xFFF : UInt32)) + (v &&& 0xFFF))

/-- A load by the kernel, `none` on a page fault. -/
def loadVirtual (ram : Ram) (cr3 v : UInt32) : Option UInt32 :=
  (mmuWalk ram cr3 v).map fun p => ram p.toNat

/-- The tables are read through the window that the last directory entry opens on them. -/
def getPhysaddr (ram : Ram) (cr3 vaddr : UInt32) : Option UInt32 := do
  let pdidx := vaddr >>> 22
  let ptidx := (vaddr >>> 12) &&& 0x3FF
  let pd := 0xFFFFF000
  let pde ← loadVirtual ram cr3 (pd + 4 * pdidx)
  if pde &&& 1 = 0 then return 0
  let pt := 0xFFC00000 + 4 * (0x400 * pdidx)
  let pte ← loadVirtual ram cr3 (pt + 4 * ptidx)
  if pte &&& 1 = 0 then return 0
  return (pte &&& ~~~(0xFFF : UInt32)) + (vaddr &&& 0xFFF)

/-- Where the loader puts the page-aligned .bss of boot.S, by its physical address. The linker
script keeps it between the start of the kernel and the end of the mapped 12 MiB. -/
structure BootBss where
  multibootInfo : Nat
  aligned : multibootInfo % 4096 = 0
  lower : 0x100000 ≤ multibootInfo
  upper : multibootInfo + 0x16000 ≤ 0xC00000

namespace BootBss

variable (bss : BootBss)

def pageDirectory : Nat := bss.multibootInfo + 0x1000

def pageTable0 : Nat := bss.multibootInfo + 0x2000

def pageTable1 : Nat := bss.multibootInfo + 0x3000

def pageTable2 : Nat := bss.multibootInfo + 0x4000

def pageTableHigh : Nat := bss.multibootInfo + 0x5000

end BootBss

/-- The loop at label 1 of boot.S. -/
def fillTables (ram : Ram) (edi : Nat) (esi : UInt32) : Nat → Ram
  | 0 => ram
  | ecx + 1 => fillTables (storeWord ram edi esi) (edi + 4) (esi + 4096) ecx

/-- An entry that points to a table: present and writable. -/
def tableEntry (table : Nat) : UInt32 := UInt32.ofNat (table + 0x3)

/-- The five stores boot.S makes into the directory, and again into the high table: the kernel
tables at the bottom and at 0xC0000000, and in the last entry the other of the two tables. -/
def linkTables (bss : BootBss) (ram : Ram) (table other : Nat) : Ram :=
  let ram := storeWord ram table (tableEntry bss.pageTable0)
  let ram := storeWord ram (table + 0x300 * 4) (tableEntry bss.pageTable0)
  let ram := storeWord ram (table + 0x301 * 4) (tableEntry bss.pageTable1)
  let ram := storeWord ram (table + 0x302 * 4) (tableEntry bss.pageTable2)
  storeWord ram (table + 0x3ff * 4) (tableEntry other)

/-- What boot.S leaves in memory before it turns paging on. -/
def bootTables (bss : BootBss) (ram : Ram) : Ram :=
  let ram := linkTables bss ram bss.pageDirectory bss.pageTableHigh
  let ram := fillTables ram bss.pageTable0 3 (1024 * 3)
  linkTables bss ram bss.pageTableHigh bss.pageDirectory

def bootCr3 (bss : BootBss) : UInt32 := tableEntry bss.pageDirectory

theorem storeWord_same (ram : Ram) (address : Nat) (word : UInt32) :
    storeWord ram address word address = word := by
  simp only [storeWord, ↓reduceIte]

theorem storeWord_other (ram : Ram) (address a : Nat) (word : UInt32) (other : a ≠ address) :
    storeWord ram address word a = ram a := by
  simp only [storeWord, other, ↓reduceIte]

theorem fillTables_outside (ram : Ram) (edi : Nat) (esi : UInt32) (ecx a : Nat)
    (outside : a < edi ∨ edi + 4 * ecx ≤ a) : fillTables ram edi esi ecx a = ram a := by
  induction ecx generalizing ram edi esi with
  | zero => rfl
  | succ ecx ih =>
      rw [fillTables, ih _ _ _ (by omega), storeWord_other _ _ _ _ (by omega)]

theorem fillTables_inside (ram : Ram) (edi : Nat) (esi : UInt32) (ecx k : Nat) (inside : k < ecx) :
    fillTables ram edi esi ecx (edi + 4 * k) = esi + 4096 * UInt32.ofNat k := by
  induction ecx generalizing ram edi esi k with
  | zero => exact absurd inside (Nat.not_lt_zero k)
  | succ ecx ih =>
      cases k with
      | zero =>
          rw [fillTables, fillTables_outside _ _ _ _ _ (by omega), Nat.mul_zero, Nat.add_zero,
            storeWord_same]
          exact (UInt32.add_zero esi).symm
      | succ k =>
          have next := ih (storeWord ram edi esi) (edi + 4) (esi + 4096) k (by omega)
          rw [fillTables, show edi + 4 * (k + 1) = edi + 4 + 4 * k by omega, next, UInt32.ofNat_add,
            UInt32.mul_add, UInt32.add_assoc, UInt32.add_comm 4096]
          rfl

/-- An entry that maps: it holds the frame's address and the flags present and writable. -/
def Maps (entry : UInt32) (frame : Nat) : Prop :=
  frame % 4096 = 0 ∧ frame < 0xC00000 ∧ entry.toNat = frame + 3

theorem Maps.frame {entry : UInt32} {frame : Nat} (maps : Maps entry frame) :
    (entry &&& ~~~(0xFFF : UInt32)).toNat = frame := by
  obtain ⟨aligned, small, value⟩ := maps
  rw [UInt32.toNat_and, UInt32.toNat_not, value]
  have mask := and_not_mask (frame + 3) 12 (by omega) (by decide)
  change (frame + 3) &&& (2 ^ 32 - 1 - (2 ^ 12 - 1)) = frame
  rw [mask]
  omega

theorem Maps.present {entry : UInt32} {frame : Nat} (maps : Maps entry frame) :
    entry &&& 1 ≠ 0 := by
  obtain ⟨aligned, small, value⟩ := maps
  intro absent
  have bit := congrArg UInt32.toNat absent
  rw [UInt32.toNat_and, value] at bit
  have low : (frame + 3) &&& 1 = (frame + 3) % 2 := Nat.and_one_is_mod _
  change (frame + 3) &&& 1 = 0 at bit
  omega

theorem pdidx_toNat (v : UInt32) : (v >>> 22).toNat = v.toNat / 2 ^ 22 := by
  rw [UInt32.toNat_shiftRight, Nat.shiftRight_eq_div_pow]
  rfl

theorem ptidx_toNat (v : UInt32) : ((v >>> 12) &&& 0x3FF).toNat = v.toNat / 2 ^ 12 % 2 ^ 10 := by
  rw [UInt32.toNat_and, UInt32.toNat_shiftRight, Nat.shiftRight_eq_div_pow]
  exact Nat.and_two_pow_sub_one_eq_mod _ 10

theorem offset_toNat (v : UInt32) : (v &&& 0xFFF).toNat = v.toNat % 2 ^ 12 := by
  rw [UInt32.toNat_and]
  exact Nat.and_two_pow_sub_one_eq_mod _ 12

theorem entryAddress_toNat {entry : UInt32} {frame : Nat} (maps : Maps entry frame) (index : UInt32)
    (small : index.toNat < 2 ^ 10) :
    (entryAddress entry index).toNat = frame + 4 * index.toNat := by
  have bound := maps.2.1
  rw [entryAddress, UInt32.toNat_add, UInt32.toNat_mul, maps.frame]
  change (frame + 4 * index.toNat % 2 ^ 32) % 2 ^ 32 = _
  omega

theorem mappedAddress_toNat {entry : UInt32} {frame : Nat} (maps : Maps entry frame) (v : UInt32) :
    ((entry &&& ~~~(0xFFF : UInt32)) + (v &&& 0xFFF)).toNat = frame + v.toNat % 2 ^ 12 := by
  have bound := maps.2.1
  rw [UInt32.toNat_add, maps.frame, offset_toNat]
  omega

theorem mmuWalk_maps {ram : Ram} {cr3 v : UInt32} {directory table frame : Nat}
    (root : Maps cr3 directory)
    (upper : Maps (ram (directory + 4 * (v.toNat / 2 ^ 22))) table)
    (lower : Maps (ram (table + 4 * (v.toNat / 2 ^ 12 % 2 ^ 10))) frame) :
    ∃ p, mmuWalk ram cr3 v = some p ∧ p.toNat = frame + v.toNat % 2 ^ 12 := by
  have bound := v.toNat_lt
  have first := entryAddress_toNat root (v >>> 22) (by rw [pdidx_toNat]; omega)
  rw [pdidx_toNat] at first
  have second := entryAddress_toNat upper ((v >>> 12) &&& 0x3FF) (by rw [ptidx_toNat]; omega)
  rw [ptidx_toNat] at second
  refine ⟨_, ?_, mappedAddress_toNat lower v⟩
  simp only [mmuWalk, first, upper.present, second, lower.present, ↓reduceIte]

/-- A load through the window at the top of the address space: the last entry of the directory
sends it to a table, whose entry `pdidx` names the frame that is read. -/
theorem loadVirtual_window {ram : Ram} {cr3 : UInt32} {directory high table : Nat}
    (root : Maps cr3 directory) (last : Maps (ram (directory + 4 * 0x3FF)) high)
    (pdidx ptidx : UInt32) (slot : pdidx.toNat < 2 ^ 10) (small : ptidx.toNat < 2 ^ 10)
    (entry : Maps (ram (high + 4 * pdidx.toNat)) table) :
    loadVirtual ram cr3 (0xFFC00000 + 4 * (0x400 * pdidx) + 4 * ptidx) =
      some (ram (table + 4 * ptidx.toNat)) := by
  have value : (0xFFC00000 + 4 * (0x400 * pdidx) + 4 * ptidx : UInt32).toNat =
      0xFFC00000 + 0x1000 * pdidx.toNat + 4 * ptidx.toNat := by
    rw [UInt32.toNat_add, UInt32.toNat_add, UInt32.toNat_mul, UInt32.toNat_mul, UInt32.toNat_mul]
    change ((0xFFC00000 + 4 * (0x400 * pdidx.toNat % 2 ^ 32) % 2 ^ 32) % 2 ^ 32 +
      4 * ptidx.toNat % 2 ^ 32) % 2 ^ 32 = _
    omega
  obtain ⟨p, walk, address⟩ := mmuWalk_maps
    (v := 0xFFC00000 + 4 * (0x400 * pdidx) + 4 * ptidx) root
    (by rw [value, show (0xFFC00000 + 0x1000 * pdidx.toNat + 4 * ptidx.toNat) / 2 ^ 22 = 0x3FF by
          omega]
        exact last)
    (by rw [value, show (0xFFC00000 + 0x1000 * pdidx.toNat + 4 * ptidx.toNat) / 2 ^ 12 % 2 ^ 10 =
          pdidx.toNat by omega]
        exact entry)
  rw [loadVirtual, walk, Option.map_some, address, value,
    show (0xFFC00000 + 0x1000 * pdidx.toNat + 4 * ptidx.toNat) % 2 ^ 12 = 4 * ptidx.toNat by omega]

/-- Through its own last entry the window shows the directory. -/
theorem loadVirtual_lastPage {ram : Ram} {cr3 : UInt32} {directory high : Nat}
    (root : Maps cr3 directory) (last : Maps (ram (directory + 4 * 0x3FF)) high)
    (back : Maps (ram (high + 4 * 0x3FF)) directory) (pdidx : UInt32)
    (small : pdidx.toNat < 2 ^ 10) :
    loadVirtual ram cr3 (0xFFFFF000 + 4 * pdidx) = some (ram (directory + 4 * pdidx.toNat)) :=
  loadVirtual_window root last 0x3FF pdidx (by decide) small back

section Boot

variable (bss : BootBss) (ram : Ram)

theorem maps_tableEntry (table : Nat) (aligned : table % 4096 = 0) (small : table < 0xC00000) :
    Maps (tableEntry table) table := by
  refine ⟨aligned, small, ?_⟩
  rw [tableEntry, UInt32.toNat_ofNat']
  omega

theorem bootCr3_maps : Maps (bootCr3 bss) bss.pageDirectory := by
  have aligned := bss.aligned
  have upper := bss.upper
  apply maps_tableEntry <;> unfold BootBss.pageDirectory <;> omega

theorem linkTables_outside (table other a : Nat) (outside : a < table ∨ table + 4096 ≤ a) :
    linkTables bss ram table other a = ram a := by
  simp only [linkTables]
  iterate 5 rw [storeWord_other _ _ _ _ (by omega)]

theorem linkTables_kernel (table other k : Nat) (small : k < 3) :
    linkTables bss ram table other (table + 4 * (0x300 + k)) =
      tableEntry (bss.pageTable0 + 4096 * k) := by
  rcases (show k = 0 ∨ k = 1 ∨ k = 2 by omega) with rfl | rfl | rfl
  · simp [linkTables, storeWord]
  · simp [linkTables, storeWord, BootBss.pageTable1, BootBss.pageTable0, Nat.add_assoc]
  · simp [linkTables, storeWord, BootBss.pageTable2, BootBss.pageTable0, Nat.add_assoc]

theorem linkTables_last (table other : Nat) :
    linkTables bss ram table other (table + 4 * 0x3FF) = tableEntry other :=
  storeWord_same _ _ _

/-- The directory and the high table send the three kernel slots to the same tables. -/
theorem bootTables_kernel (k : Nat) (small : k < 3) :
    Maps (bootTables bss ram (bss.pageDirectory + 4 * (0x300 + k))) (bss.pageTable0 + 4096 * k) ∧
      Maps (bootTables bss ram (bss.pageTableHigh + 4 * (0x300 + k)))
        (bss.pageTable0 + 4096 * k) := by
  have aligned := bss.aligned
  have upper := bss.upper
  have table : Maps (tableEntry (bss.pageTable0 + 4096 * k)) (bss.pageTable0 + 4096 * k) := by
    apply maps_tableEntry <;> unfold BootBss.pageTable0 <;> omega
  constructor
  · rw [bootTables, linkTables_outside, fillTables_outside, linkTables_kernel _ _ _ _ _ small]
    · exact table
    · simp only [BootBss.pageDirectory, BootBss.pageTable0]
      omega
    · simp only [BootBss.pageDirectory, BootBss.pageTableHigh]
      omega
  · rw [bootTables, linkTables_kernel _ _ _ _ _ small]
    exact table

/-- The last entries of the two tables open the window on them. -/
theorem bootTables_window :
    Maps (bootTables bss ram (bss.pageDirectory + 4 * 0x3FF)) bss.pageTableHigh ∧
      Maps (bootTables bss ram (bss.pageTableHigh + 4 * 0x3FF)) bss.pageDirectory := by
  have aligned := bss.aligned
  have upper := bss.upper
  constructor
  · rw [bootTables, linkTables_outside, fillTables_outside, linkTables_last]
    · apply maps_tableEntry <;> unfold BootBss.pageTableHigh <;> omega
    · simp only [BootBss.pageDirectory, BootBss.pageTable0]
      omega
    · simp only [BootBss.pageDirectory, BootBss.pageTableHigh]
      omega
  · rw [bootTables, linkTables_last]
    exact bootCr3_maps bss

/-- The three kernel tables together map the first 12 MiB one to one. -/
theorem bootTables_page (i : Nat) (small : i < 3072) :
    Maps (bootTables bss ram (bss.pageTable0 + 4 * i)) (4096 * i) := by
  have entry : bootTables bss ram (bss.pageTable0 + 4 * i) = 3 + 4096 * UInt32.ofNat i := by
    rw [bootTables, linkTables_outside, fillTables_inside _ _ _ _ _ small]
    simp only [BootBss.pageTable0, BootBss.pageTableHigh]
    omega
  refine ⟨Nat.mul_mod_right 4096 i, by omega, ?_⟩
  rw [entry, UInt32.toNat_add, UInt32.toNat_mul, UInt32.toNat_ofNat']
  change (3 + 4096 * (i % 2 ^ 32) % 2 ^ 32) % 2 ^ 32 = _
  omega

variable {v : UInt32}

/-- The kernel's view of the first 12 MiB: physical address plus 0xC0000000. -/
def InKernel (v : UInt32) : Prop := 0xC0000000 ≤ v.toNat ∧ v.toNat < 0xC0C00000

theorem mmuWalk_kernel (inside : InKernel v) :
    ∃ p, mmuWalk (bootTables bss ram) (bootCr3 bss) v = some p ∧
      p.toNat = v.toNat - 0xC0000000 := by
  obtain ⟨lower, upper⟩ := inside
  have directory := (bootTables_kernel bss ram (v.toNat / 2 ^ 22 - 0x300) (by omega)).1
  rw [show 0x300 + (v.toNat / 2 ^ 22 - 0x300) = v.toNat / 2 ^ 22 by omega] at directory
  have page := bootTables_page bss ram (v.toNat / 2 ^ 12 - 0xC0000) (by omega)
  rw [show bss.pageTable0 + 4 * (v.toNat / 2 ^ 12 - 0xC0000) =
      bss.pageTable0 + 4096 * (v.toNat / 2 ^ 22 - 0x300) + 4 * (v.toNat / 2 ^ 12 % 2 ^ 10) by
    omega] at page
  obtain ⟨p, walk, value⟩ := mmuWalk_maps (bootCr3_maps bss) directory page
  exact ⟨p, walk, by omega⟩

/-- A load through the window reads the entry of the directory. -/
theorem loadVirtual_directory (pdidx : UInt32) (small : pdidx.toNat < 2 ^ 10) :
    loadVirtual (bootTables bss ram) (bootCr3 bss) (0xFFFFF000 + 4 * pdidx) =
      some (bootTables bss ram (bss.pageDirectory + 4 * pdidx.toNat)) := by
  obtain ⟨last, back⟩ := bootTables_window bss ram
  exact loadVirtual_lastPage (bootCr3_maps bss) last back pdidx small

/-- A load through the window reads the entry of the table the directory names. -/
theorem loadVirtual_table (pdidx ptidx : UInt32) (lower : 0x300 ≤ pdidx.toNat)
    (upper : pdidx.toNat < 0x303) (small : ptidx.toNat < 2 ^ 10) :
    loadVirtual (bootTables bss ram) (bootCr3 bss) (0xFFC00000 + 4 * (0x400 * pdidx) + 4 * ptidx) =
      some (bootTables bss ram
        (bss.pageTable0 + 4096 * (pdidx.toNat - 0x300) + 4 * ptidx.toNat)) := by
  have table := (bootTables_kernel bss ram (pdidx.toNat - 0x300) (by omega)).2
  rw [show 0x300 + (pdidx.toNat - 0x300) = pdidx.toNat by omega] at table
  exact loadVirtual_window (bootCr3_maps bss) (bootTables_window bss ram).1 pdidx ptidx (by omega)
    small table

/-- Where both loads succeed and find present entries, the result is the entry's frame. -/
theorem getPhysaddr_of_loads {cr3 pdidx ptidx pde pte : UInt32} (upper : pdidx = v >>> 22)
    (lower : ptidx = (v >>> 12) &&& 0x3FF)
    (directory : loadVirtual ram cr3 (0xFFFFF000 + 4 * pdidx) = some pde)
    (table : loadVirtual ram cr3 (0xFFC00000 + 4 * (0x400 * pdidx) + 4 * ptidx) = some pte)
    (linked : pde &&& 1 ≠ 0) (mapped : pte &&& 1 ≠ 0) :
    getPhysaddr ram cr3 v = some ((pte &&& ~~~(0xFFF : UInt32)) + (v &&& 0xFFF)) := by
  unfold getPhysaddr
  simp only [← upper, ← lower, directory, table, Option.bind_eq_bind, Option.bind_some, linked,
    mapped, ↓reduceIte, Option.pure_def]

/-- In the kernel's view `get_physaddr` subtracts the offset, as the processor's walk does. -/
theorem getPhysaddr_kernel (inside : InKernel v) :
    getPhysaddr (bootTables bss ram) (bootCr3 bss) v = some (v - 0xC0000000) := by
  obtain ⟨lower, upper⟩ := inside
  have slot := pdidx_toNat v
  have entry := ptidx_toNat v
  generalize first : v >>> 22 = pdidx at slot
  generalize second : (v >>> 12) &&& 0x3FF = ptidx at entry
  have directory := (bootTables_kernel bss ram (pdidx.toNat - 0x300) (by omega)).1
  rw [show 0x300 + (pdidx.toNat - 0x300) = pdidx.toNat by omega] at directory
  have page := bootTables_page bss ram (v.toNat / 2 ^ 12 - 0xC0000) (by omega)
  have reads := loadVirtual_table bss ram pdidx ptidx (by omega) (by omega) (by omega)
  rw [show bss.pageTable0 + 4096 * (pdidx.toNat - 0x300) + 4 * ptidx.toNat =
      bss.pageTable0 + 4 * (v.toNat / 2 ^ 12 - 0xC0000) by omega] at reads
  have window := loadVirtual_directory bss ram pdidx (by omega)
  rw [getPhysaddr_of_loads _ first.symm second.symm window reads directory.present page.present]
  have offset : (0xC0000000 : UInt32).toNat = 0xC0000000 := by decide
  have ordered : (0xC0000000 : UInt32) ≤ v :=
    UInt32.le_iff_toNat_le.mpr (by rw [offset]; exact lower)
  refine congrArg some (UInt32.toNat_inj.mp ?_)
  rw [mappedAddress_toNat page, UInt32.toNat_sub_of_le _ _ ordered, offset]
  omega

end Boot

end FrogOS
