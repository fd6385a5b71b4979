import FrogOS.Paging

set_option autoImplicit false

namespace FrogOS

/-- The directory and the high table are as boot.S fills them over the zeros of .bss. The three
kernel tables, and everything else, hold anything. -/
def Filled (bss : BootBss) (ram : Ram) : Prop :=
  ∀ table, table = bss.pageDirectory ∨ table = bss.pageTableHigh →
    ∀ a, table ≤ a → a < table + 4096 → ram a = bootTables bss (fun _ => 0) a

/-- `get_physaddr` gives the address of the processor's walk, and 0 where that finds no page. -/
def Agrees (ram : Ram) (cr3 v : UInt32) : Prop :=
  getPhysaddr ram cr3 v = some ((mmuWalk ram cr3 v).getD 0)

/-- The page a table's entry maps, as an address in it. -/
def pageAddress (pte v : UInt32) : Option UInt32 :=
  if pte &&& 1 = 0 then none else some ((pte &&& ~~~(0xFFF : UInt32)) + (v &&& 0xFFF))

section Walks

variable {ram : Ram} {cr3 v : UInt32} {directory high table seen : Nat}

theorem mmuWalk_absent (root : Maps cr3 directory)
    (absent : ram (directory + 4 * (v >>> 22).toNat) = 0) : mmuWalk ram cr3 v = none := by
  have bound := v.toNat_lt
  have slot := pdidx_toNat v
  have first := entryAddress_toNat root (v >>> 22) (by omega)
  simp only [mmuWalk, first, absent]
  rfl

theorem mmuWalk_table (root : Maps cr3 directory)
    (entry : Maps (ram (directory + 4 * (v >>> 22).toNat)) table) :
    mmuWalk ram cr3 v =
      pageAddress (ram (table + 4 * ((v >>> 12) &&& 0x3FF).toNat)) v := by
  have bound := v.toNat_lt
  have slot := pdidx_toNat v
  have index := ptidx_toNat v
  have first := entryAddress_toNat root (v >>> 22) (by omega)
  have second := entryAddress_toNat entry ((v >>> 12) &&& 0x3FF) (by omega)
  simp only [mmuWalk, first, entry.present, second, ↓reduceIte, pageAddress]

variable (root : Maps cr3 directory) (last : Maps (ram (directory + 4 * 0x3FF)) high)
  (back : Maps (ram (high + 4 * 0x3FF)) directory)
include root last back

theorem getPhysaddr_absent (absent : ram (directory + 4 * (v >>> 22).toNat) = 0) :
    getPhysaddr ram cr3 v = some 0 := by
  have bound := v.toNat_lt
  have slot := pdidx_toNat v
  have entry := loadVirtual_lastPage root last back (v >>> 22) (by omega)
  rw [absent] at entry
  simp only [getPhysaddr, entry, Option.bind_eq_bind, Option.bind_some]
  rfl

/-- `get_physaddr` tests the directory's entry, but reads the table that the high
table names in the same slot. -/
theorem getPhysaddr_table (entry : Maps (ram (directory + 4 * (v >>> 22).toNat)) table)
    (shown : Maps (ram (high + 4 * (v >>> 22).toNat)) seen) :
    getPhysaddr ram cr3 v =
      some ((pageAddress (ram (seen + 4 * ((v >>> 12) &&& 0x3FF).toNat)) v).getD 0) := by
  have bound := v.toNat_lt
  have slot := pdidx_toNat v
  have index := ptidx_toNat v
  have first := loadVirtual_lastPage root last back (v >>> 22) (by omega)
  have second := loadVirtual_window root last (v >>> 22) ((v >>> 12) &&& 0x3FF) (by omega)
    (by omega) shown
  by_cases absent : ram (seen + 4 * ((v >>> 12) &&& 0x3FF).toNat) &&& 1 = 0
  · simp only [getPhysaddr, first, second, Option.bind_eq_bind, Option.bind_some, entry.present,
      absent, ↓reduceIte, pageAddress, Option.getD_none, Option.pure_def]
  · rw [getPhysaddr_of_loads ram rfl rfl first second entry.present absent, pageAddress,
      if_neg absent, Option.getD_some]

end Walks

section Boot

variable (bss : BootBss)

/-- The entries boot.S makes in the directory or the high table; `other` is the one of the
two that the last entry names. -/
def slotEntry (other k : Nat) : UInt32 :=
  if k = 0x3FF then tableEntry other
  else if k = 0x302 then tableEntry bss.pageTable2
  else if k = 0x301 then tableEntry bss.pageTable1
  else if k = 0x300 ∨ k = 0 then tableEntry bss.pageTable0
  else 0

theorem linkTables_slot (ram : Ram) (table other k : Nat)
    (zero : ram (table + 4 * k) = 0) :
    linkTables bss ram table other (table + 4 * k) = slotEntry bss other k := by
  have places : ∀ j, table + 4 * k = table + j * 4 ↔ k = j := by
    intro j
    omega
  have start : table + 4 * k = table ↔ k = 0 := by omega
  simp only [linkTables, storeWord, places, start, zero, slotEntry]
  grind

variable {bss} {ram : Ram} (filled : Filled bss ram)
include filled

theorem Filled.directory (k : Nat) (small : k < 1024) :
    ram (bss.pageDirectory + 4 * k) = slotEntry bss bss.pageTableHigh k := by
  rw [filled bss.pageDirectory (Or.inl rfl) _ (by omega) (by omega), bootTables,
    linkTables_outside, fillTables_outside, linkTables_slot _ _ _ _ _ rfl]
  · simp only [BootBss.pageDirectory, BootBss.pageTable0]
    omega
  · simp only [BootBss.pageDirectory, BootBss.pageTableHigh]
    omega

theorem Filled.high (k : Nat) (small : k < 1024) :
    ram (bss.pageTableHigh + 4 * k) = slotEntry bss bss.pageDirectory k := by
  rw [filled bss.pageTableHigh (Or.inr rfl) _ (by omega) (by omega), bootTables, linkTables_slot]
  rw [fillTables_outside, linkTables_outside]
  · simp only [BootBss.pageTableHigh, BootBss.pageDirectory]
    omega
  · simp only [BootBss.pageTableHigh, BootBss.pageTable0]
    omega

omit filled in
/-- Below the last slot the two tables have the same entries: none, or one for a kernel table. -/
theorem slotEntry_cases (k : Nat) (inner : k ≠ 0x3FF) :
    (∀ other, slotEntry bss other k = 0) ∨
      ∃ table, ∀ other, Maps (slotEntry bss other k) table := by
  have aligned := bss.aligned
  have upper := bss.upper
  have maps : ∀ table, table = bss.pageTable0 ∨ table = bss.pageTable1 ∨ table = bss.pageTable2 →
      Maps (tableEntry table) table := by
    intro table one
    simp only [BootBss.pageTable0, BootBss.pageTable1, BootBss.pageTable2] at one
    apply maps_tableEntry
    · omega
    · omega
  simp only [slotEntry, inner, ↓reduceIte]
  split
  · exact Or.inr ⟨_, fun _ => maps _ (Or.inr (Or.inr rfl))⟩
  split
  · exact Or.inr ⟨_, fun _ => maps _ (Or.inr (Or.inl rfl))⟩
  split
  · exact Or.inr ⟨_, fun _ => maps _ (Or.inl rfl)⟩
  · exact Or.inl fun _ => rfl

theorem Filled.last : Maps (ram (bss.pageDirectory + 4 * 0x3FF)) bss.pageTableHigh := by
  have aligned := bss.aligned
  have upper := bss.upper
  rw [filled.directory 0x3FF (by decide)]
  apply maps_tableEntry <;> unfold BootBss.pageTableHigh <;> omega

theorem Filled.back : Maps (ram (bss.pageTableHigh + 4 * 0x3FF)) bss.pageDirectory := by
  rw [filled.high 0x3FF (by decide)]
  exact bootCr3_maps bss

/-- Outside the window the two walks read the same entries. -/
theorem agrees_below (v : UInt32) (below : (v >>> 22).toNat ≠ 0x3FF) :
    Agrees ram (bootCr3 bss) v := by
  have root := bootCr3_maps bss
  have bound := v.toNat_lt
  have slot := pdidx_toNat v
  have inside : (v >>> 22).toNat < 1024 := by omega
  have directory := filled.directory (v >>> 22).toNat inside
  have high := filled.high (v >>> 22).toNat inside
  unfold Agrees
  rcases @slotEntry_cases bss (v >>> 22).toNat below with none | ⟨table, maps⟩
  · rw [none] at directory
    rw [getPhysaddr_absent root filled.last filled.back directory, mmuWalk_absent root directory]
    rfl
  · have entry := maps bss.pageTableHigh
    have shown := maps bss.pageDirectory
    rw [← directory] at entry
    rw [← high] at shown
    rw [getPhysaddr_table root filled.last filled.back entry shown, mmuWalk_table root entry]

/-- In the window the processor reads the high table and `get_physaddr` the directory, which
differ in their last entries only. -/
theorem agrees_window (v : UInt32) (window : (v >>> 22).toNat = 0x3FF) :
    Agrees ram (bootCr3 bss) v ↔ ((v >>> 12) &&& 0x3FF).toNat ≠ 0x3FF := by
  have root := bootCr3_maps bss
  have bound := v.toNat_lt
  have index := ptidx_toNat v
  have inside : ((v >>> 12) &&& 0x3FF).toNat < 1024 := by omega
  have entry := filled.last
  have shown := filled.back
  rw [← window] at entry shown
  unfold Agrees
  rw [getPhysaddr_table root filled.last filled.back entry shown, mmuWalk_table root entry]
  by_cases own : ((v >>> 12) &&& 0x3FF).toNat = 0x3FF
  · have last := filled.last
    have back := filled.back
    simp only [own, pageAddress, last.present, back.present, ↓reduceIte, Option.getD_some,
      ne_eq, not_true_eq_false, iff_false]
    intro same
    have addresses := congrArg UInt32.toNat (Option.some.inj same)
    rw [mappedAddress_toNat last, mappedAddress_toNat back] at addresses
    simp only [BootBss.pageDirectory, BootBss.pageTableHigh] at addresses
    omega
  · have same : ram (bss.pageDirectory + 4 * ((v >>> 12) &&& 0x3FF).toNat) =
        ram (bss.pageTableHigh + 4 * ((v >>> 12) &&& 0x3FF).toNat) := by
      rw [filled.directory _ inside, filled.high _ inside]
      simp only [slotEntry, own, ↓reduceIte]
    rw [same]
    simp only [ne_eq, own, not_false_eq_true, iff_self]

/-- With the directory and the high table as boot.S fills them and anything in the kernel
tables, `get_physaddr` agrees with the processor on every address below the last page. -/
theorem get_physaddr_agrees_iff (v : UInt32) :
    Agrees ram (bootCr3 bss) v ↔ v.toNat < 0xFFFFF000 := by
  have bound := v.toNat_lt
  have slot := pdidx_toNat v
  have index := ptidx_toNat v
  by_cases window : (v >>> 22).toNat = 0x3FF
  · rw [agrees_window filled v window]
    omega
  · have agrees := agrees_below filled v window
    simp only [agrees, true_iff]
    omega

end Boot

/-- A layout with the tables behind a kernel of 128 KiB. -/
def sampleBss : BootBss where
  multibootInfo := 0x120000
  aligned := by decide
  lower := by decide
  upper := by decide

theorem get_physaddr_agrees_in_heap :
    Agrees (bootTables sampleBss fun _ => 0) (bootCr3 sampleBss) 0xC0B00123 ↔
      (0xC0B00123 : UInt32).toNat < 0xFFFFF000 :=
  get_physaddr_agrees_iff (fun _ _ _ _ _ => rfl) 0xC0B00123

/-- For its own window's last page `get_physaddr` gives the high table instead of the directory. -/
theorem last_page_is_translated_wrong : ¬ ∀ (bss : BootBss) (ram : Ram), Filled bss ram →
    ∀ v, Agrees ram (bootCr3 bss) v := by
  intro claim
  have filled : Filled sampleBss (bootTables sampleBss fun _ => 0) := fun _ _ _ _ _ => rfl
  have agrees := claim sampleBss _ filled 0xFFFFF000
  have window : ((0xFFFFF000 : UInt32) >>> 22).toNat = 0x3FF := by decide
  have own := (agrees_window filled 0xFFFFF000 window).mp agrees
  exact own (by decide)

end FrogOS
