import FrogOS.Heap
import FrogOS.LittleEndian
import FrogOS.PrintInfo

set_option autoImplicit false

namespace FrogOS

open ByteMemory

/-- An entry of a memory map. Behind the fields that are printed it may have any others. -/
structure MmapEntry where
  addr : UInt64
  len : UInt64
  type : UInt32
  rest : List UInt8

def MmapEntry.bytes (e : MmapEntry) : List UInt8 :=
  le64 e.addr ++ le64 e.len ++ le32 e.type ++ e.rest

/-- A tag: a memory map of whole entries, or any other with its body. -/
inductive InfoTag
  | mmap (entrySize version : UInt32) (entries : List MmapEntry) (wide : 24 ≤ entrySize.toNat)
      (whole : ∀ e ∈ entries, e.bytes.length = entrySize.toNat)
  | other (type : UInt32) (body : List UInt8) (notMmap : type ≠ tagTypeMmap)

namespace InfoTag

def type : InfoTag → UInt32
  | mmap .. => tagTypeMmap
  | other type .. => type

def entries : InfoTag → List MmapEntry
  | mmap _ _ entries .. => entries
  | other .. => []

def body : InfoTag → List UInt8
  | mmap entrySize version entries .. =>
      le32 entrySize ++ le32 version ++ entries.flatMap MmapEntry.bytes
  | other _ body _ => body

def size (tag : InfoTag) : Nat := 8 + tag.body.length

def bytes (tag : InfoTag) : List UInt8 :=
  le32 tag.type ++ le32 (UInt32.ofNat tag.size) ++ tag.body

/-- Tags start at multiples of eight. -/
def padded (tag : InfoTag) : Nat := (tag.size + 7) / 8 * 8

end InfoTag

/-- The tag that ends a block. -/
def endTag : InfoTag := .other 0 [] (by decide)

/-- The memory holds these bytes. -/
def Stored (m : Mem) (address : Nat) (xs : List UInt8) : Prop := bytes m address xs.length = xs

/-- The tags lie one after the other between two offsets, with anything as the padding. -/
def Laid (info : Mem) : Nat → List InfoTag → Nat → Prop
  | offset, [], stop => offset = stop
  | offset, tag :: tags, stop =>
      Stored info offset tag.bytes ∧ Laid info (offset + tag.padded) tags stop

/-- A block of the boot loader. -/
structure InfoBlock (info : Mem) (tags : List InfoTag) (total : Nat) : Prop where
  word : (totalSize info).toNat = total
  short : total ≤ 4096
  laid : Laid info 8 (tags ++ [endTag]) total

def MmapEntry.line (e : MmapEntry) : InfoLine := .entry e.addr e.len e.type

/-- What should be printed of the tags from an offset on. -/
def blockLines : Nat → List InfoTag → List InfoLine
  | _, [] => []
  | offset, tag :: tags =>
      .tag (UInt32.ofNat offset) tag.type (UInt32.ofNat tag.size) ::
        tag.entries.map MmapEntry.line ++ blockLines (offset + tag.padded) tags

section Bytes

variable {m : Mem} {address : Nat} {xs ys : List UInt8}

theorem stored_append :
    Stored m address (xs ++ ys) ↔ Stored m address xs ∧ Stored m (address + xs.length) ys := by
  rw [Stored, List.length_append, bytes_append]
  constructor
  · exact fun both => List.append_inj both (bytes_length _ _ _)
  · rintro ⟨first, second⟩
    rw [first, second]

theorem Stored.load32 {value : UInt32} (stored : Stored m address (le32 value)) :
    ByteMemory.load32 m address = value :=
  load32_of_bytes stored

theorem Stored.load64 {value : UInt64} (stored : Stored m address (le64 value)) :
    ByteMemory.load64 m address = value :=
  load64_of_bytes stored

end Bytes

section Entries

variable {info : Mem} {idx i : UInt32}

theorem toNat_add_small {x y : UInt32} (small : x.toNat + y.toNat < 2 ^ 32) :
    (x + y).toNat = x.toNat + y.toNat := by
  rw [UInt32.toNat_add, Nat.mod_eq_of_lt small]

theorem MmapEntry.bytes_length (e : MmapEntry) : e.bytes.length = 20 + e.rest.length := by
  simp [MmapEntry.bytes]
  omega

theorem entryLine_stored {place : UInt32} (e : MmapEntry) (small : place.toNat ≤ 8192)
    (stored : Stored info place.toNat e.bytes) : entryLine info place = e.line := by
  have eight : (8 : UInt32).toNat = 8 := rfl
  have sixteen : (16 : UInt32).toNat = 16 := rfl
  simp only [MmapEntry.bytes, stored_append, List.length_append, le64_length] at stored
  obtain ⟨⟨⟨addr, len⟩, type⟩, -⟩ := stored
  rw [entryLine, toNat_add_small (by omega), toNat_add_small (by omega), eight, sixteen,
    addr.load64, len.load64, type.load32, MmapEntry.line]

/-- The inner loop prints the entries that are left and stops behind the last. -/
theorem mmapLoop_entries (entries : List MmapEntry) (i : UInt32)
    (stored : Stored info (idx.toNat + i.toNat) (entries.flatMap MmapEntry.bytes))
    (whole : ∀ e ∈ entries, e.bytes.length = (entrySize info idx).toNat)
    (reach : i.toNat + (entries.flatMap MmapEntry.bytes).length = (tagSize info idx).toNat)
    (room : idx.toNat + (tagSize info idx).toNat ≤ 4096) :
    mmapLoop info idx (entries.length + 1) i = some (entries.map MmapEntry.line) := by
  induction entries generalizing i with
  | nil =>
      apply mmapLoop_stop
      rw [UInt32.lt_iff_toNat_lt, ← reach]
      exact Nat.lt_irrefl _
  | cons e entries ih =>
      have long := whole e List.mem_cons_self
      have least := e.bytes_length
      rw [List.flatMap_cons, stored_append] at stored
      rw [List.flatMap_cons, List.length_append] at reach
      have next : (i + entrySize info idx).toNat = i.toNat + e.bytes.length := by
        rw [toNat_add_small (by omega), long]
      have place : (idx + i).toNat = idx.toNat + i.toNat := toNat_add_small (by omega)
      have inside : i < tagSize info idx := by
        rw [UInt32.lt_iff_toNat_lt]
        omega
      have rest := ih (i + entrySize info idx) (by rw [next, ← Nat.add_assoc]; exact stored.2)
        (fun x member => whole x (List.mem_cons_of_mem _ member)) (by rw [next]; omega)
      rw [List.length_cons, mmapLoop_step inside rest,
        entryLine_stored e (by omega) (by rw [place]; exact stored.1)]
      rfl

end Entries

section Tags

variable {info : Mem} {idx size : UInt32} {tag : InfoTag}

theorem InfoTag.size_le_padded (tag : InfoTag) : tag.size ≤ tag.padded ∧ 8 ≤ tag.padded := by
  rw [InfoTag.padded, InfoTag.size]
  omega

theorem InfoTag.bytes_length (tag : InfoTag) : tag.bytes.length = tag.size := by
  simp [InfoTag.bytes, InfoTag.size]
  omega

/-- The fields of a tag are where `print_info` looks for them. -/
theorem tag_fields (stored : Stored info idx.toNat tag.bytes)
    (room : idx.toNat + tag.size ≤ 4096) :
    tagType info idx = tag.type ∧ (tagSize info idx).toNat = tag.size ∧
      Stored info (idx.toNat + 8) tag.body := by
  have four : (4 : UInt32).toNat = 4 := rfl
  rw [InfoTag.bytes, stored_append, stored_append] at stored
  obtain ⟨⟨type, size⟩, body⟩ := stored
  have sizeWord : load32 info (idx.toNat + 4) = UInt32.ofNat tag.size := size.load32
  refine ⟨type.load32, ?_, body⟩
  rw [tagSize, toNat_add_small (by omega), four, sizeWord, UInt32.toNat_ofNat']
  omega

theorem nextTag_toNat (sizeIs : (tagSize info idx).toNat = tag.size)
    (room : idx.toNat + tag.padded ≤ 4096) : (nextTag info idx).toNat = idx.toNat + tag.padded := by
  have le := tag.size_le_padded.1
  have seven : (7 : UInt32).toNat = 2 ^ 3 - 1 := rfl
  have sum : (tagSize info idx + 7).toNat = tag.size + 7 := by
    rw [toNat_add_small (by omega), sizeIs]
    rfl
  have rounded : ((tagSize info idx + 7) &&& ~~~(7 : UInt32)).toNat = tag.padded := by
    rw [UInt32.toNat_and, UInt32.toNat_not, sum, seven]
    exact and_not_mask _ 3 (by omega) (by decide)
  rw [nextTag, toNat_add_small (by omega), rounded]

theorem tagEntries_tag (stored : Stored info idx.toNat tag.bytes)
    (room : idx.toNat + tag.size ≤ 4096) :
    tagEntries info (tag.entries.length + 1) idx = some (tag.entries.map MmapEntry.line) := by
  obtain ⟨type, size, body⟩ := tag_fields stored room
  cases tag with
  | mmap stride version entries wide whole =>
      have eight : (8 : UInt32).toNat = 8 := rfl
      have sixteen : (16 : UInt32).toNat = 16 := rfl
      have sum : (InfoTag.mmap stride version entries wide whole).size =
          16 + (entries.flatMap MmapEntry.bytes).length := by
        simp [InfoTag.size, InfoTag.body]
        omega
      rw [InfoTag.body, stored_append, stored_append] at body
      obtain ⟨⟨entrySizeWord, -⟩, all⟩ := body
      have strideIs : entrySize info idx = stride := by
        rw [entrySize, toNat_add_small (by omega), eight]
        exact entrySizeWord.load32
      rw [tagEntries, type]
      change mmapLoop info idx (entries.length + 1) 16 = some (entries.map MmapEntry.line)
      apply mmapLoop_entries entries 16
      · rw [sixteen]
        exact all
      · rw [strideIs]
        exact whole
      · omega
      · omega
  | other type' body' notMmap =>
      rw [tagEntries, type]
      exact if_neg notMmap

theorem Laid.le {offset stop : Nat} {tags : List InfoTag} (laid : Laid info offset tags stop) :
    offset ≤ stop := by
  induction tags generalizing offset with
  | nil => exact Nat.le_of_eq laid
  | cons tag tags ih => exact Nat.le_trans (Nat.le_add_right _ _) (ih laid.2)

/-- The outer loop prints the tags that are left and stops behind the last. -/
theorem tagLoop_tags (info : Mem) (size : UInt32) (tags : List InfoTag) (idx : UInt32)
    (short : size.toNat ≤ 4096) (laid : Laid info idx.toNat tags size.toNat) :
    ∃ fuel, tagLoop info size fuel idx = some (blockLines idx.toNat tags) := by
  induction tags generalizing idx with
  | nil =>
      refine ⟨1, tagLoop_stop 0 ?_⟩
      have ended : idx.toNat = size.toNat := laid
      rw [UInt32.lt_iff_toNat_lt, ended]
      exact Nat.lt_irrefl _
  | cons tag tags ih =>
      obtain ⟨stored, later⟩ := laid
      have le := later.le
      obtain ⟨fits, least⟩ := tag.size_le_padded
      obtain ⟨type, sizeIs, -⟩ := tag_fields stored (by omega)
      have next := nextTag_toNat sizeIs (by omega)
      obtain ⟨fuel, rest⟩ := ih (nextTag info idx) (by rw [next]; exact later)
      have inside : idx < size := by
        rw [UInt32.lt_iff_toNat_lt]
        omega
      have sizeWord : tagSize info idx = UInt32.ofNat tag.size := by
        rw [← sizeIs, UInt32.ofNat_toNat]
      refine ⟨max (tag.entries.length + 1) fuel + 1, ?_⟩
      rw [tagLoop_step inside
        (tagEntries_mono (Nat.le_max_left _ fuel) (tagEntries_tag stored (by omega)))
        (tagLoop_mono (Nat.le_max_right _ fuel) rest), type, sizeWord, next, blockLines,
        UInt32.ofNat_toNat]

end Tags

/-- `print_info` prints the tags of a block and the entries of its memory maps, each once and in
their order, whatever is between and behind them. -/
theorem print_info_inverts_layout (info : Mem) (tags : List InfoTag) (total : Nat)
    (block : InfoBlock info tags total) (kernelStart kernelEnd mi : UInt32) :
    ∃ fuel, ∀ more, fuel ≤ more →
      printInfo info more kernelStart kernelEnd mi =
        some (.kernel kernelStart kernelEnd :: .block mi :: blockLines 8 (tags ++ [endTag])) := by
  have word := block.word
  obtain ⟨fuel, done⟩ := tagLoop_tags info (totalSize info) (tags ++ [endTag]) 8
    (by rw [word]; exact block.short) (by rw [word]; exact block.laid)
  refine ⟨fuel, fun more le => ?_⟩
  rw [printInfo, tagLoop_mono le done]
  rfl

/-- A command line of two letters and a memory map of two entries, one of them above 4 GiB. -/
def bootTags : List InfoTag :=
  [.other 1 [0x2d, 0x76, 0] (by decide),
    .mmap 24 0
      [⟨0x100000, 0x7f00000, 1, [0, 0, 0, 0]⟩, ⟨0x100000000, 0x40000000, 2, [0, 0, 0, 0]⟩]
      (by decide) (by simp; exact ⟨rfl, rfl⟩)]

def bootBlock : List UInt8 :=
  [96, 0, 0, 0, 0, 0, 0, 0,
    1, 0, 0, 0, 11, 0, 0, 0, 0x2d, 0x76, 0, 0xff, 0xff, 0xff, 0xff, 0xff,
    6, 0, 0, 0, 64, 0, 0, 0, 24, 0, 0, 0, 0, 0, 0, 0,
    0, 0, 0x10, 0, 0, 0, 0, 0, 0, 0, 0xf0, 0x07, 0, 0, 0, 0, 1, 0, 0, 0, 0, 0, 0, 0,
    0, 0, 0, 0, 1, 0, 0, 0, 0, 0, 0, 0x40, 0, 0, 0, 0, 2, 0, 0, 0, 0, 0, 0, 0,
    0, 0, 0, 0, 8, 0, 0, 0]

theorem bootBlock_laid : InfoBlock (ofList bootBlock) bootTags 96 := by
  refine ⟨by decide, by decide, ?_, ?_, ?_, rfl⟩
  · unfold Stored
    decide
  · unfold Stored
    decide
  · unfold Stored
    decide

/-- What is printed of its tags. -/
def bootLines : List InfoLine :=
  [.tag 8 1 11, .tag 24 6 64, .entry 0x100000 0x7f00000 1, .entry 0x100000000 0x40000000 2,
    .tag 88 0 8]

theorem boot_block_inverts_layout :
    ∃ fuel, ∀ more, fuel ≤ more →
      printInfo (ofList bootBlock) more 0xC0100000 0xC0180000 0xC0110000 =
        some (.kernel 0xC0100000 0xC0180000 :: .block 0xC0110000 :: bootLines) :=
  print_info_inverts_layout (ofList bootBlock) bootTags 96 bootBlock_laid 0xC0100000 0xC0180000
    0xC0110000

end FrogOS
