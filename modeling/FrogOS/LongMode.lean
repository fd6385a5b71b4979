import FrogOS.LongWalk

set_option autoImplicit false

namespace FrogOS

open ByteMemory LongWalk

/-- `GB`, what the loader maps. -/
def gb : Nat := 16

/-- Where the linker puts the page-aligned .bss of enable_lmode.S, by its first table. The loader
and all it writes lies in the first gigabyte. -/
structure LoaderBss where
  p4 : Nat
  aligned : p4 % 4096 = 0
  low : p4 + 0x21000 ≤ 2 ^ 30

namespace LoaderBss

variable (bss : LoaderBss)

def p3 : Nat := bss.p4 + 0x1000

def p2 : Nat := bss.p3 + gb * 0x1000

/-- gdt.S is linked behind enable_lmode.S, which reserves one page for `p2`. -/
def gdt : Nat := bss.p2 + 0x1000

/-- The .bss is zero, as the boot loader leaves it. -/
def Zeroed (m : Mem) : Prop := ∀ x, bss.p4 ≤ x → x < bss.gdt + 0x1000 → m x = 0

end LoaderBss

/-- `p3_loop` and `p2_loop`: the lower halves of 64-bit entries, from number `ecx` on. -/
def entryLoop (edi : Nat) (ebx : UInt32) : Nat → Nat → UInt32 → Mem → Mem
  | 0, _, _, m => m
  | n + 1, ecx, eax, m =>
      entryLoop edi ebx n (ecx + 1) (eax + ebx) (store32 m (edi + 8 * ecx) eax)

section Tables

variable (bss : LoaderBss)

def createP4 (m : Mem) : Mem := store32 m bss.p4 (UInt32.ofNat bss.p3 ||| 3)

def createP3 (m : Mem) : Mem := entryLoop bss.p3 0x1000 gb 0 (UInt32.ofNat bss.p2 ||| 3) m

def createP2 (m : Mem) : Mem := entryLoop bss.p2 0x200000 (512 * gb) 0 0x83 m

/-- The memory when paging goes on. -/
def tables (m : Mem) : Mem := createP2 bss (createP3 bss (createP4 bss m))

def quadBytes (quad : Nat) : List UInt8 :=
  (List.range 8).map fun i => UInt8.ofNat (quad / 2 ^ (8 * i))

def gdt64Copy : List UInt8 :=
  quadBytes 0 ++ quadBytes (1 <<< 43 ||| 1 <<< 44 ||| 1 <<< 47 ||| 1 <<< 53) ++
    quadBytes (1 <<< 44 ||| 1 <<< 47 ||| 1 <<< 53)

/-- `rep movsb` with paging on: each byte goes where the tables map its address. -/
def copyGdt : List UInt8 → Nat → Mem → Option Mem
  | [], _, m => some m
  | value :: rest, edi, m => do
      let page ← walk m bss.p4 edi
      if page.writable then copyGdt rest (edi + 1) (store8 m page.physical value) else none

def enableLongmode (m : Mem) : Option Mem :=
  copyGdt bss gdt64Copy bss.gdt (tables bss m)

end Tables

section Loop

variable {n k : Nat}

theorem entryLoop_frame (edi : Nat) (ebx eax : UInt32) (n ecx : Nat) (m : Mem) :
    Frame (edi + 8 * ecx) (8 * n) m (entryLoop edi ebx n ecx eax m) := by
  induction n generalizing ecx eax m with
  | zero => exact Frame.refl _ _ _
  | succ n ih =>
      have first := store32_frame m (edi + 8 * ecx) eax
      have rest := ih (eax + ebx) (ecx + 1) (store32 m (edi + 8 * ecx) eax)
      exact (first.mono (Nat.le_refl _) (by omega)).trans (rest.mono (by omega) (by omega))

/-- The loop never writes the upper half of an entry. -/
theorem entryLoop_upper (edi : Nat) (ebx eax : UInt32) (n ecx : Nat) (m : Mem) (k : Nat) :
    load32 (entryLoop edi ebx n ecx eax m) (edi + 8 * k + 4) = load32 m (edi + 8 * k + 4) := by
  induction n generalizing ecx eax m with
  | zero => rfl
  | succ n ih =>
      rw [entryLoop, ih]
      apply load32_frame (store32_frame m (edi + 8 * ecx) eax)
      omega

/-- The lower halves are an arithmetic progression of 32-bit numbers. -/
theorem entryLoop_lower (edi : Nat) (ebx eax : UInt32) (ecx : Nat) (m : Mem) (inside : k < n) :
    load32 (entryLoop edi ebx n ecx eax m) (edi + 8 * (ecx + k)) = eax + UInt32.ofNat k * ebx := by
  induction n generalizing k ecx eax m with
  | zero => exact absurd inside (Nat.not_lt_zero k)
  | succ n ih =>
      rw [entryLoop]
      cases k with
      | zero =>
          have kept := entryLoop_frame edi ebx (eax + ebx) n (ecx + 1)
            (store32 m (edi + 8 * ecx) eax)
          show load32 _ (edi + 8 * ecx) = eax + 0 * ebx
          rw [load32_frame kept (by omega), load32_store32, UInt32.zero_mul, UInt32.add_zero]
      | succ k =>
          have position : ecx + (k + 1) = ecx + 1 + k := by omega
          rw [position, ih _ _ _ (by omega), UInt32.ofNat_add, UInt32.add_mul, UInt32.add_assoc,
            UInt32.add_comm ebx]
          show _ = eax + (UInt32.ofNat k * ebx + 1 * ebx)
          rw [UInt32.one_mul]

end Loop

section Walk

variable {bss : LoaderBss} {m m' : Mem} {v : Nat}

/-- The upper two levels of the tables, as the walk reads them. -/
structure Linked (bss : LoaderBss) (m : Mem) : Prop where
  top : entry m bss.p4 = bss.p3 + 3
  middle : ∀ k, k < gb → entry m (bss.p3 + 8 * k) = bss.p2 + 0x1000 * k + 3

/-- The first directory, for the first gigabyte. -/
def FirstGigabyte (bss : LoaderBss) (m : Mem) : Prop :=
  ∀ k, k < 512 → entry m (bss.p2 + 8 * k) = 0x83 + 2 ^ 21 * k

theorem p3_eq (bss : LoaderBss) : bss.p3 = bss.p4 + 0x1000 := rfl

theorem p2_eq (bss : LoaderBss) : bss.p2 = bss.p4 + 0x11000 := by
  unfold LoaderBss.p2 LoaderBss.p3 gb
  omega

theorem gdt_eq (bss : LoaderBss) : bss.gdt = bss.p4 + 0x12000 := by
  rw [LoaderBss.gdt, p2_eq]

theorem Linked.frame {a n : Nat} (linked : Linked bss m) (change : Frame a n m m')
    (behind : bss.gdt ≤ a) : Linked bss m' := by
  have last := gdt_eq bss
  constructor
  · rw [entry_congr (change.agree (by omega)), linked.top]
  · intro k inside
    have start := p3_eq bss
    have count : k < 16 := inside
    rw [entry_congr (change.agree (by omega)), linked.middle k inside]

theorem FirstGigabyte.frame {a n : Nat} (first : FirstGigabyte bss m) (change : Frame a n m m')
    (behind : bss.gdt ≤ a) : FirstGigabyte bss m' := by
  intro k inside
  have start := p2_eq bss
  have last := gdt_eq bss
  rw [entry_congr (change.agree (by omega)), first k inside]

/-- The directories lie one behind the other, so the entry for a page is at the page's number. -/
theorem slot_directory (bss : LoaderBss) (v : Nat) :
    slot 1 (bss.p2 + 0x1000 * (v / 2 ^ 30)) v = bss.p2 + 8 * (v / 2 ^ 21) := by
  show bss.p2 + 0x1000 * (v / 2 ^ 30) + 8 * (v / 2 ^ 21 % 2 ^ 9) = _
  omega

theorem walk_linked (linked : Linked bss m) (below : v < gb * 2 ^ 30) :
    walk m bss.p4 v = walkFrom m v 1 (bss.p2 + 0x1000 * (v / 2 ^ 30)) true := by
  have limit : v < 16 * 2 ^ 30 := below
  have aligned := bss.aligned
  have low := bss.low
  have start := p3_eq bss
  have directories := p2_eq bss
  have topSlot : slot 3 bss.p4 v = bss.p4 := by
    show bss.p4 + 8 * (v / 2 ^ 39 % 2 ^ 9) = bss.p4
    omega
  have middleSlot : slot 2 bss.p3 v = bss.p3 + 8 * (v / 2 ^ 30) := by
    show bss.p3 + 8 * (v / 2 ^ 30 % 2 ^ 9) = _
    omega
  have number : v / 2 ^ 30 < gb := by
    show v / 2 ^ 30 < 16
    omega
  have top : entry m (slot 3 bss.p4 v) = bss.p3 + 3 := by rw [topSlot, linked.top]
  have middle : entry m (slot 2 bss.p3 v) = bss.p2 + 0x1000 * (v / 2 ^ 30) + 3 := by
    rw [middleSlot, linked.middle _ number]
  unfold walk
  rw [walkFrom_table (by omega) (by omega) top, walkFrom_table (by omega) (by omega) middle]

/-- Where the walk ends if the directory entry's lower half is the one `p2_loop` stores. -/
theorem walk_loop_entry (linked : Linked bss m) (below : v < gb * 2 ^ 30)
    (lower : (load32 m (bss.p2 + 8 * (v / 2 ^ 21))).toNat =
      (0x83 + 2 ^ 21 * (v / 2 ^ 21)) % 2 ^ 32) :
    walk m bss.p4 v = some ⟨v, true⟩ ↔
      (load32 m (bss.p2 + 8 * (v / 2 ^ 21) + 4)).toNat % 2 ^ 20 = v / 2 ^ 32 ∧
        (load32 m (bss.p2 + 8 * (v / 2 ^ 21) + 4)).toNat < 2 ^ 31 := by
  have limit : v < 16 * 2 ^ 30 := below
  have high := (load32 m (bss.p2 + 8 * (v / 2 ^ 21) + 4)).toNat_lt
  obtain ⟨e, value⟩ : ∃ e, entry m (bss.p2 + 8 * (v / 2 ^ 21)) = e := ⟨_, rfl⟩
  have maps : entry m (slot 1 (bss.p2 + 0x1000 * (v / 2 ^ 30)) v) = e := by
    rw [slot_directory, value]
  rw [entry, lower] at value
  rw [walk_linked linked below, walkFrom_page e (by omega) maps]
  have target : frame e 21 = e % 2 ^ 52 / 2 ^ 21 * 2 ^ 21 := rfl
  constructor
  · intro mapped
    split at mapped
    · have physical := congrArg Mapping.physical (Option.some.inj mapped)
      simp only [target] at physical
      omega
    · cases mapped
  · intro upper
    have executable : e / 2 ^ 63 % 2 = 0 := by omega
    have physical : frame e 21 + v % 2 ^ 21 = v := by
      rw [target]
      omega
    rw [if_pos executable, physical]

theorem FirstGigabyte.identity (first : FirstGigabyte bss m) (linked : Linked bss m)
    (below : v < 2 ^ 30) : walk m bss.p4 v = some ⟨v, true⟩ := by
  have page := first (v / 2 ^ 21) (by omega)
  have low := (load32 m (bss.p2 + 8 * (v / 2 ^ 21))).toNat_lt
  unfold entry at page
  have limit : v < gb * 2 ^ 30 := by
    show v < 16 * 2 ^ 30
    omega
  rw [walk_loop_entry linked limit (by omega)]
  omega

/-- The copy does not fault: the addresses it writes are mapped to themselves throughout. -/
theorem copyGdt_ok (linked : Linked bss m) (first : FirstGigabyte bss m) (values : List UInt8)
    (edi : Nat) (behind : bss.gdt ≤ edi) (low : edi + values.length ≤ 2 ^ 30) :
    ∃ m', copyGdt bss values edi m = some m' ∧ Frame edi values.length m m' ∧
      ∀ i, i < values.length → m' (edi + i) = ofList values i := by
  induction values generalizing m edi with
  | nil => exact ⟨m, rfl, Frame.refl _ _ _, fun i inside => absurd inside (Nat.not_lt_zero i)⟩
  | cons value rest ih =>
      rw [List.length_cons] at low
      have here : walk m bss.p4 edi = some ⟨edi, true⟩ := first.identity linked (by omega)
      have change : Frame edi 1 m (store8 m edi value) :=
        fun x outside => store8_other _ _ _ _ (by omega)
      obtain ⟨m', done, frame, filled⟩ := ih (linked.frame change behind)
        (first.frame change behind) (edi + 1) (Nat.le_succ_of_le behind) (by omega)
      refine ⟨m', ?_, ?_, ?_⟩
      · rw [copyGdt, here]
        exact done
      · rw [List.length_cons]
        exact (change.mono (Nat.le_refl _) (by omega)).trans (frame.mono (by omega) (by omega))
      · intro i inside
        cases i with
        | zero =>
            rw [Nat.add_zero, frame edi (Or.inl (Nat.lt_succ_self edi)), store8_same]
            rfl
        | succ i =>
            have position : edi + (i + 1) = edi + 1 + i := by omega
            rw [position, filled i (by simpa using inside)]
            rfl

end Walk

section Result

variable {bss : LoaderBss} {m : Mem} {v : Nat}

theorem or_flags {table : Nat} (aligned : table % 4096 = 0) (small : table < 2 ^ 32) :
    UInt32.ofNat table ||| 3 = UInt32.ofNat (table + 3) := by
  apply UInt32.toNat_inj.mp
  have shifted : table = (table / 4096) <<< 12 := by
    rw [Nat.shiftLeft_eq]
    omega
  have flags : (3 : UInt32).toNat = 3 := rfl
  rw [UInt32.toNat_or, UInt32.toNat_ofNat', UInt32.toNat_ofNat', Nat.mod_eq_of_lt small, flags,
    shifted, ← Nat.shiftLeft_add_eq_or_of_lt (by decide), ← shifted]
  omega

theorem zeroed_load (zeroed : bss.Zeroed m) {address : Nat} (lower : bss.p4 ≤ address)
    (upper : address + 4 ≤ bss.gdt + 0x1000) : load32 m address = 0 := by
  apply UInt32.toNat_inj.mp
  rw [load32_toNat, load16_toNat, load16_toNat, zeroed _ (by omega) (by omega),
    zeroed _ (by omega) (by omega), zeroed _ (by omega) (by omega), zeroed _ (by omega) (by omega)]
  rfl

/-- What `p2_loop` leaves in the lower and in the upper half of a directory entry. -/
theorem tables_directory (bss : LoaderBss) (m : Mem) {k : Nat} (inside : k < 512 * gb) :
    (load32 (tables bss m) (bss.p2 + 8 * k)).toNat = (0x83 + 2 ^ 21 * k) % 2 ^ 32 ∧
      load32 (tables bss m) (bss.p2 + 8 * k + 4) = load32 m (bss.p2 + 8 * k + 4) := by
  have start := p3_eq bss
  have directories := p2_eq bss
  constructor
  · have stored := entryLoop_lower bss.p2 0x200000 0x83 0 (createP3 bss (createP4 bss m)) inside
    rw [Nat.zero_add] at stored
    unfold tables createP2
    rw [stored, UInt32.toNat_add, UInt32.toNat_mul, UInt32.toNat_ofNat']
    show (131 + k % 2 ^ 32 * 2097152 % 2 ^ 32) % 2 ^ 32 = _
    omega
  · have pointers := entryLoop_frame bss.p3 0x1000 (UInt32.ofNat bss.p2 ||| 3) gb 0
      (createP4 bss m)
    have count : 8 * gb = 128 := rfl
    unfold tables createP2
    rw [entryLoop_upper, createP3, load32_frame pointers (by omega), createP4,
      load32_frame (store32_frame m bss.p4 _) (by omega)]

theorem tables_linked (zeroed : bss.Zeroed m) : Linked bss (tables bss m) := by
  have aligned := bss.aligned
  have low := bss.low
  have start := p3_eq bss
  have directories := p2_eq bss
  have last := gdt_eq bss
  have count : 8 * gb = 128 := rfl
  have pointers := entryLoop_frame bss.p3 0x1000 (UInt32.ofNat bss.p2 ||| 3) gb 0 (createP4 bss m)
  have pages := entryLoop_frame bss.p2 0x200000 0x83 (512 * gb) 0 (createP3 bss (createP4 bss m))
  have before (address : Nat) (small : address + 4 ≤ bss.p2) :
      load32 (tables bss m) address = load32 (createP3 bss (createP4 bss m)) address :=
    load32_frame pages (by omega)
  constructor
  · have lower : load32 (tables bss m) bss.p4 = UInt32.ofNat (bss.p3 + 3) := by
      rw [before _ (by omega), createP3, load32_frame pointers (by omega), createP4,
        load32_store32, or_flags (by omega) (by omega)]
    have upper : load32 (tables bss m) (bss.p4 + 4) = 0 := by
      rw [before _ (by omega), createP3, load32_frame pointers (by omega), createP4,
        load32_frame (store32_frame m bss.p4 _) (by omega),
        zeroed_load zeroed (by omega) (by omega)]
    rw [entry, lower, upper, UInt32.toNat_ofNat']
    show _ + 2 ^ 32 * 0 = _
    omega
  · intro k inside
    have number : k < 16 := inside
    have lower : load32 (tables bss m) (bss.p3 + 8 * k) =
        UInt32.ofNat (bss.p2 + 3) + UInt32.ofNat k * 0x1000 := by
      have stored := entryLoop_lower bss.p3 0x1000 (UInt32.ofNat bss.p2 ||| 3) 0 (createP4 bss m)
        inside
      rw [Nat.zero_add] at stored
      rw [before _ (by omega), createP3, stored, or_flags (by omega) (by omega)]
    have upper : load32 (tables bss m) (bss.p3 + 8 * k + 4) = 0 := by
      rw [before _ (by omega), createP3, entryLoop_upper, createP4,
        load32_frame (store32_frame m bss.p4 _) (by omega),
        zeroed_load zeroed (by omega) (by omega)]
    rw [entry, lower, upper, UInt32.toNat_add, UInt32.toNat_mul, UInt32.toNat_ofNat',
      UInt32.toNat_ofNat']
    show ((bss.p2 + 3) % 2 ^ 32 + k % 2 ^ 32 * 4096 % 2 ^ 32) % 2 ^ 32 + 2 ^ 32 * 0 = _
    omega

theorem tables_first (zeroed : bss.Zeroed m) : FirstGigabyte bss (tables bss m) := by
  intro k inside
  have start := p2_eq bss
  have last := gdt_eq bss
  have number : k < 512 * gb := by
    show k < 512 * 16
    omega
  have stored := tables_directory bss m number
  rw [entry, stored.1, stored.2, zeroed_load zeroed (by omega) (by omega)]
  show _ + 2 ^ 32 * 0 = _
  omega

/-- After the function the tables are those of the loops, with the GDT copy in the page behind
the first directory. -/
theorem enableLongmode_ok (zeroed : bss.Zeroed m) :
    ∃ m', enableLongmode bss m = some m' ∧ Linked bss m' ∧ Frame bss.gdt 24 (tables bss m) m' ∧
      ∀ i, i < 24 → m' (bss.gdt + i) = ofList gdt64Copy i := by
  have low := bss.low
  have last := gdt_eq bss
  have linked := tables_linked zeroed
  have length : gdt64Copy.length = 24 := by decide
  have room : bss.gdt + gdt64Copy.length ≤ 2 ^ 30 := by omega
  obtain ⟨m', done, frame, filled⟩ :=
    copyGdt_ok linked (tables_first zeroed) gdt64Copy bss.gdt (Nat.le_refl _) room
  rw [length] at frame filled
  exact ⟨m', done, linked.frame frame (Nat.le_refl _), frame, filled⟩

/-- The three descriptors lie where the entries for the first 6 MiB behind the first gigabyte
were, and none of them has the present bit. -/
theorem walk_descriptor {m' : Mem} (linked : Linked bss m')
    (filled : ∀ i, i < 24 → m' (bss.gdt + i) = ofList gdt64Copy i) (lower : 2 ^ 30 ≤ v)
    (upper : v < 2 ^ 30 + 3 * 2 ^ 21) : walk m' bss.p4 v = none := by
  have start := p2_eq bss
  have last := gdt_eq bss
  have bits : ∀ k, k < 3 → (ofList gdt64Copy (8 * k)).toNat % 2 = 0 := by decide
  have position : bss.p2 + 8 * (v / 2 ^ 21) = bss.gdt + 8 * (v / 2 ^ 21 - 512) := by omega
  have low : (m' (bss.p2 + 8 * (v / 2 ^ 21))).toNat % 2 = 0 := by
    rw [position, filled _ (by omega)]
    exact bits _ (by omega)
  have below : v < gb * 2 ^ 30 := by
    show v < 16 * 2 ^ 30
    omega
  rw [walk_linked linked below]
  apply walkFrom_absent
  rw [slot_directory, entry, load32_toNat, load16_toNat]
  omega

/-- The upper half of the directory entry for `v`, which `p2_loop` leaves as it was, holds the
upper half of the address of a page that may be executed. -/
def UpperHalf (bss : LoaderBss) (m : Mem) (v : Nat) : Prop :=
  (load32 m (bss.p2 + 8 * (v / 2 ^ 21) + 4)).toNat % 2 ^ 20 = v / 2 ^ 32 ∧
    (load32 m (bss.p2 + 8 * (v / 2 ^ 21) + 4)).toNat < 2 ^ 31

/-- A virtual address is mapped to itself exactly if no descriptor of the GDT lies on its
directory entry and the memory had the upper half of that entry right from the start. -/
theorem identity_map_iff (bss : LoaderBss) (m : Mem) (zeroed : bss.Zeroed m) (v : Nat)
    (below : v < gb * 2 ^ 30) :
    (∃ m', enableLongmode bss m = some m' ∧ walk m' bss.p4 v = some ⟨v, true⟩) ↔
      (v < 2 ^ 30 ∨ 2 ^ 30 + 3 * 2 ^ 21 ≤ v) ∧ UpperHalf bss m v := by
  have start := p2_eq bss
  have last := gdt_eq bss
  have limit : v < 16 * 2 ^ 30 := below
  have number : v / 2 ^ 21 < 512 * gb := by
    show v / 2 ^ 21 < 512 * 16
    omega
  obtain ⟨m', done, linked, frame, filled⟩ := enableLongmode_ok zeroed
  have stored := tables_directory bss m number
  have spared (apart : v < 2 ^ 30 ∨ 2 ^ 30 + 3 * 2 ^ 21 ≤ v) :
      walk m' bss.p4 v = some ⟨v, true⟩ ↔ UpperHalf bss m v := by
    have lower : load32 m' (bss.p2 + 8 * (v / 2 ^ 21)) =
        load32 (tables bss m) (bss.p2 + 8 * (v / 2 ^ 21)) := load32_frame frame (by omega)
    have upper : load32 m' (bss.p2 + 8 * (v / 2 ^ 21) + 4) =
        load32 (tables bss m) (bss.p2 + 8 * (v / 2 ^ 21) + 4) := load32_frame frame (by omega)
    rw [walk_loop_entry linked below (by rw [lower, stored.1]), upper, stored.2, UpperHalf]
  constructor
  · intro mapped
    obtain ⟨after, doneAfter, identity⟩ := mapped
    have same : m' = after := Option.some.inj (done.symm.trans doneAfter)
    rw [← same] at identity
    by_cases apart : v < 2 ^ 30 ∨ 2 ^ 30 + 3 * 2 ^ 21 ≤ v
    · exact ⟨apart, (spared apart).mp identity⟩
    · have outside := not_or.mp apart
      have behind : 2 ^ 30 ≤ v := Nat.le_of_not_lt outside.1
      have within : v < 2 ^ 30 + 3 * 2 ^ 21 := Nat.lt_of_not_le outside.2
      have absent := walk_descriptor linked filled behind within
      rw [absent] at identity
      cases identity
  · intro condition
    exact ⟨m', done, (spared condition.1).mpr condition.2⟩

/-- The loader at its default link address, in memory that was zero. -/
def linkedLoader : LoaderBss where
  p4 := 0x804A000
  aligned := by decide
  low := by decide

theorem linkedLoader_last_page :
    ∃ m', enableLongmode linkedLoader (fun _ => 0) = some m' ∧
      walk m' linkedLoader.p4 0xFFE00000 = some ⟨0xFFE00000, true⟩ :=
  (identity_map_iff linkedLoader (fun _ => 0) (fun _ _ _ => rfl) 0xFFE00000 (by decide)).mpr
    ⟨by decide, by decide, by decide⟩

/-- The second gigabyte starts with a page that is not mapped at all. -/
theorem second_gigabyte_absent :
    ¬ ∀ (bss : LoaderBss) (m : Mem), bss.Zeroed m → ∀ v, v < gb * 2 ^ 30 →
      ∃ m', enableLongmode bss m = some m' ∧ walk m' bss.p4 v = some ⟨v, true⟩ := by
  intro identity
  have zeroed : linkedLoader.Zeroed (fun _ => 0) := fun _ _ _ => rfl
  have below : 2 ^ 30 < gb * 2 ^ 30 := by decide
  obtain ⟨after, doneAfter, mapped⟩ := identity linkedLoader (fun _ => 0) zeroed (2 ^ 30) below
  obtain ⟨m', done, linked, frame, filled⟩ := enableLongmode_ok zeroed
  have same : m' = after := Option.some.inj (done.symm.trans doneAfter)
  have absent : walk m' linkedLoader.p4 (2 ^ 30) = none :=
    walk_descriptor linked filled (Nat.le_refl _) (by decide)
  rw [← same, absent] at mapped
  cases mapped

end Result

end FrogOS
