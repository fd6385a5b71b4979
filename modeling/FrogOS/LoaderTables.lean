import FrogOS.LongMode

set_option autoImplicit false

namespace FrogOS

open ByteMemory LongWalk

/-- The stores of `p3_loop` and `p2_loop` one after the other, each with its address and the four
bytes it puts there. -/
def loopStores (edi : Nat) (ebx : UInt32) : Nat → Nat → UInt32 → List (Nat × UInt32)
  | 0, _, _ => []
  | n + 1, ecx, eax => (edi + 8 * ecx, eax) :: loopStores edi ebx n (ecx + 1) (eax + ebx)

section Stores

variable {edi n ecx : Nat} {ebx eax : UInt32} {w : Nat × UInt32}

/-- The loop is its stores. -/
theorem entryLoop_eq_stores (edi : Nat) (ebx : UInt32) (n ecx : Nat) (eax : UInt32) (m : Mem) :
    entryLoop edi ebx n ecx eax m =
      (loopStores edi ebx n ecx eax).foldl (fun m w => store32 m w.1 w.2) m := by
  induction n generalizing ecx eax m with
  | zero => rfl
  | succ n ih =>
      rw [entryLoop, loopStores, List.foldl_cons]
      exact ih (ecx + 1) (eax + ebx) (store32 m (edi + 8 * ecx) eax)

theorem loopStores_length (edi : Nat) (ebx : UInt32) (n ecx : Nat) (eax : UInt32) :
    (loopStores edi ebx n ecx eax).length = n := by
  induction n generalizing ecx eax with
  | zero => rfl
  | succ n ih => rw [loopStores, List.length_cons, ih]

/-- Store number `k` goes to entry number `k` of the table. -/
theorem loopStores_getElem? {k : Nat} (edi : Nat) (ebx : UInt32) (ecx : Nat) (eax : UInt32)
    (inside : k < n) :
    (loopStores edi ebx n ecx eax)[k]?.map Prod.fst = some (edi + 8 * (ecx + k)) := by
  induction n generalizing ecx eax k with
  | zero => exact absurd inside (Nat.not_lt_zero k)
  | succ n ih =>
      cases k with
      | zero => rfl
      | succ k =>
          have position : ecx + (k + 1) = ecx + 1 + k := by omega
          rw [loopStores, List.getElem?_cons_succ, ih _ _ (by omega), position]

theorem mem_loopStores (member : w ∈ loopStores edi ebx n ecx eax) :
    ∃ k, k < n ∧ w.1 = edi + 8 * (ecx + k) := by
  induction n generalizing ecx eax with
  | zero => exact absurd member List.not_mem_nil
  | succ n ih =>
      rcases List.mem_cons.mp member with here | later
      · refine ⟨0, Nat.succ_pos n, ?_⟩
        rw [here, Nat.add_zero]
      · obtain ⟨k, inside, place⟩ := ih later
        refine ⟨k + 1, Nat.succ_lt_succ inside, ?_⟩
        rw [place]
        omega

end Stores

section Extent

variable (bss : LoaderBss) (m : Mem)

def p3Stores : List (Nat × UInt32) := loopStores bss.p3 0x1000 gb 0 (UInt32.ofNat bss.p2 ||| 3)

def p2Stores : List (Nat × UInt32) := loopStores bss.p2 0x200000 (512 * gb) 0 0x83

/-- A store of four bytes lies in `n` bytes from `table` on. -/
def StoredIn (table n : Nat) (w : Nat × UInt32) : Prop := table ≤ w.1 ∧ w.1 + 4 ≤ table + n

/-- Each loop keeps to the bytes reserved for its table, and nothing changes but `p4`, `p3`, `p2`
and the page of the GDT, which lie one behind the other. -/
structure StaysInTables : Prop where
  p3 : ∀ w ∈ p3Stores bss, StoredIn bss.p3 (gb * 0x1000) w
  p2 : ∀ w ∈ p2Stores bss, StoredIn bss.p2 0x1000 w
  others : ∀ m', enableLongmode bss m = some m' → Frame bss.p4 0x13000 m m'

theorem tables_eq_stores : tables bss m =
    (p2Stores bss).foldl (fun m w => store32 m w.1 w.2)
      ((p3Stores bss).foldl (fun m w => store32 m w.1 w.2) (createP4 bss m)) := by
  rw [tables, createP2, createP3, entryLoop_eq_stores, entryLoop_eq_stores]
  rfl

/-- The pointers to the directories fill only 128 bytes of their table. -/
theorem p3_stores_inside : ∀ w ∈ p3Stores bss, StoredIn bss.p3 (gb * 0x1000) w := by
  intro w member
  obtain ⟨k, inside, place⟩ := mem_loopStores member
  have count : k < 16 := inside
  rw [StoredIn, place]
  show bss.p3 ≤ bss.p3 + 8 * (0 + k) ∧ bss.p3 + 8 * (0 + k) + 4 ≤ bss.p3 + 0x10000
  omega

/-- The reservation for `p2` takes the first 512 of the 8192 stores. -/
theorem p2_store_inside_iff {k : Nat} {w : Nat × UInt32} (store : (p2Stores bss)[k]? = some w) :
    StoredIn bss.p2 0x1000 w ↔ k < 512 := by
  have inside : k < 512 * gb := by
    have short := (List.getElem?_eq_some_iff.mp store).1
    rw [p2Stores, loopStores_length] at short
    exact short
  have place := loopStores_getElem? bss.p2 0x200000 0 0x83 inside
  rw [← p2Stores, store] at place
  have address : w.1 = bss.p2 + 8 * (0 + k) := Option.some.inj place
  rw [StoredIn, address]
  omega

/-- Behind the GDT's page every eighth byte up to 60 KiB from the end of `p2` becomes the flags
of a page. -/
theorem overrun_damage {bss : LoaderBss} {m : Mem} (zeroed : bss.Zeroed m) {k : Nat}
    (behind : 1024 ≤ k) (inside : k < 512 * gb) :
    ∃ m', enableLongmode bss m = some m' ∧ m' (bss.p2 + 8 * k) = 0x83 := by
  have start := p2_eq bss
  have last := gdt_eq bss
  obtain ⟨m', done, -, frame, -⟩ := enableLongmode_ok zeroed
  have stored := (tables_directory bss m inside).1
  rw [load32_toNat, load16_toNat] at stored
  refine ⟨m', done, ?_⟩
  rw [frame _ (by omega)]
  apply UInt8.toNat_inj.mp
  have byte := (tables bss m (bss.p2 + 8 * k)).toNat_lt
  show (tables bss m (bss.p2 + 8 * k)).toNat = 131
  omega

end Extent

/-- Whatever the memory and wherever the linker puts the tables, `p2_loop` leaves its own: store
number 512 is the first one outside. -/
theorem page_tables_overrun (bss : LoaderBss) (m : Mem) : ¬ StaysInTables bss m := by
  intro stays
  have inside : 512 < 512 * gb := by decide
  have place := loopStores_getElem? bss.p2 0x200000 0 0x83 inside
  obtain ⟨w, store, -⟩ := Option.map_eq_some_iff.mp place
  have within := stays.p2 w (List.mem_of_getElem? store)
  exact absurd ((p2_store_inside_iff bss store).mp within) (Nat.lt_irrefl 512)

/-- At the default link address, in memory that was zero, a cell behind the GDT changes. -/
theorem linked_loader_overruns : ¬ StaysInTables linkedLoader fun _ => 0 := by
  intro stays
  have zeroed : linkedLoader.Zeroed fun _ => 0 := fun _ _ _ => rfl
  obtain ⟨m', done, flags⟩ := overrun_damage zeroed (Nat.le_refl 1024) (by decide)
  have kept := stays.others m' done (linkedLoader.p2 + 8 * 1024) (by decide)
  rw [flags] at kept
  exact absurd kept (by decide)

end FrogOS
