import FrogOS.HeapPartition
import FrogOS.Pcnet32Probe
import FrogOS.PrintInfoLayout
import FrogOS.PrintfReport

set_option autoImplicit false

namespace FrogOS

open ByteMemory BoundedAccess LinkedChain Numeral Tiling Printf Console

section Functions

variable (floats : FloatText) (strings : Mem) (stack : UInt32)

/-- The loop of `print_mem`. -/
def printMemLoop (h : Heap) : Nat → UInt32 → UInt32 → Console → Except Fault Console
  | 0, _, _, _ => .error .diverges
  | fuel + 1, mem, totalMem, s =>
      if mem ≠ 0 then do
        let s ← s.printf floats strings stack (asciiText "mem: %p %p %p\n")
          [mem, h.size mem, h.next mem]
        printMemLoop h fuel (h.next mem) (totalMem + h.size mem) s
      else s.printf floats strings stack (asciiText "mem: total: %p\n") [totalMem]

/-- After as many chunks as there are addresses the loop is where it has been before. -/
def printMem (h : Heap) (s : Console) : Except Fault Console :=
  printMemLoop floats strings stack h (2 ^ 32) h.highMem 0 s

/-- A call of `printf` in `print_info`: the format and its arguments. -/
def InfoLine.call : InfoLine → List UInt8 × List UInt32
  | .kernel start stop => (asciiText "0x%p - 0x%p\n", [start, stop])
  | .block mi => (asciiText "0x%p\n", [mi])
  | .tag idx type size => (asciiText "idx: 0x%lx type: %ld, size: 0x%lx\n", [idx, type, size])
  | .entry addr len type => (asciiText "0x%llx 0x%llx %ld\n",
      [addr.toUInt32, (addr >>> 32).toUInt32, len.toUInt32, (len >>> 32).toUInt32, type])

/-- One call of `printf` after the other. -/
def printCalls (s : Console) (calls : List (List UInt8 × List UInt32)) : Except Fault Console :=
  calls.foldlM (fun s call => s.printf floats strings stack call.1 call.2) s

/-- `print_info` on the console. -/
def printInfoOn (info : Mem) (fuel : Nat) (kernelStart kernelEnd mi : UInt32) (s : Console) :
    Except Fault Console :=
  match printInfo info fuel kernelStart kernelEnd mi with
  | none => .error .diverges
  | some lines => printCalls floats strings stack s (lines.map InfoLine.call)

/-- The loop of `net_print_stats`. -/
def netPrintStatsLoop (t : NetTable) : Nat → UInt16 → Console → Except Fault Console
  | 0, _, _ => .error .diverges
  | fuel + 1, i, s =>
      if i < t.num then do
        let s ← s.printf floats strings stack (asciiText "%d rx:%ld tx:%ld\n")
          [i.toUInt32, (t.devs i.toNat).rxPackets, (t.devs i.toNat).txPackets]
        netPrintStatsLoop t fuel (i + 1) s
      else .ok s

def netPrintStats (t : NetTable) (s : Console) : Except Fault Console :=
  netPrintStatsLoop floats strings stack t (2 ^ 16) 0 s

end Functions

/-- A line of `print_mem`. -/
inductive MemLine
  | chunk (mem size next : UInt32)
  | total (bytes : UInt32)
deriving DecidableEq, Repr

def memForms : List (Form MemLine) :=
  [⟨(parse (asciiText "mem: %p %p %p\n")).1, fun numbers =>
      match numbers with
      | [mem, size, next] =>
          some (.chunk (UInt32.ofInt mem) (UInt32.ofInt size) (UInt32.ofInt next))
      | _ => none⟩,
    ⟨(parse (asciiText "mem: total: %p\n")).1, fun numbers =>
      match numbers with
      | [bytes] => some (.total (UInt32.ofInt bytes))
      | _ => none⟩]

def infoForms : List (Form InfoLine) :=
  [⟨(parse (asciiText "0x%p - 0x%p\n")).1, fun numbers =>
      match numbers with
      | [start, stop] => some (.kernel (UInt32.ofInt start) (UInt32.ofInt stop))
      | _ => none⟩,
    ⟨(parse (asciiText "0x%p\n")).1, fun numbers =>
      match numbers with
      | [mi] => some (.block (UInt32.ofInt mi))
      | _ => none⟩,
    ⟨(parse (asciiText "idx: 0x%lx type: %ld, size: 0x%lx\n")).1, fun numbers =>
      match numbers with
      | [idx, type, size] => some (.tag (UInt32.ofInt idx) (UInt32.ofInt type) (UInt32.ofInt size))
      | _ => none⟩,
    ⟨(parse (asciiText "0x%llx 0x%llx %ld\n")).1, fun numbers =>
      match numbers with
      | [addr, len, type] =>
          some (.entry (UInt64.ofInt addr) (UInt64.ofInt len) (UInt32.ofInt type))
      | _ => none⟩]

/-- A line of `net_print_stats`. -/
structure StatsLine where
  dev : UInt16
  rxPackets : UInt32
  txPackets : UInt32
deriving DecidableEq, Repr

def statsForms : List (Form StatsLine) :=
  [⟨(parse (asciiText "%d rx:%ld tx:%ld\n")).1, fun numbers =>
      match numbers with
      | [dev, rx, tx] => some ⟨UInt16.ofInt dev, UInt32.ofInt rx, UInt32.ofInt tx⟩
      | _ => none⟩]

section Words

theorem ofInt_eq {x : Int} {word : UInt32} (same : x % 2 ^ 32 = word.toNat) :
    UInt32.ofInt x = word := by
  rw [UInt32.ofInt, same, Int.toNat_natCast, UInt32.ofNat_toNat]

theorem ofInt_unsigned (word : UInt32) : UInt32.ofInt (word.toNat : Int) = word := by
  have below := word.toNat_lt
  exact ofInt_eq (by omega)

theorem ofInt_signed (word : UInt32) : UInt32.ofInt word.toInt32.toInt = word := by
  have value : word.toInt32.toInt = (word.toNat : Int).bmod (2 ^ 32) :=
    BitVec.toInt_eq_toNat_bmod _
  have below := word.toNat_lt
  apply ofInt_eq
  rw [value, Int.bmod]
  omega

theorem ofInt_long (word : UInt64) : UInt64.ofInt (word.toNat : Int) = word := by
  have below := word.toNat_lt
  rw [UInt64.ofInt, Int.emod_eq_of_lt (by omega) (by omega), Int.toNat_natCast, UInt64.ofNat_toNat]

theorem ofInt_signed_long (word : UInt64) : UInt64.ofInt word.toInt64.toInt = word := by
  have value : word.toInt64.toInt = (word.toNat : Int).bmod (2 ^ 64) :=
    BitVec.toInt_eq_toNat_bmod _
  have below := word.toNat_lt
  have same : word.toInt64.toInt % 2 ^ 64 = word.toNat := by
    rw [value, Int.bmod]
    omega
  rw [UInt64.ofInt, same, Int.toNat_natCast, UInt64.ofNat_toNat]

theorem ofInt_short (word : UInt16) : UInt16.ofInt word.toUInt32.toInt32.toInt = word := by
  have value : word.toUInt32.toInt32.toInt = (word.toUInt32.toNat : Int).bmod (2 ^ 32) :=
    BitVec.toInt_eq_toNat_bmod _
  have below := word.toNat_lt
  have same : word.toUInt32.toInt32.toInt % 2 ^ 16 = word.toNat := by
    rw [value, UInt16.toNat_toUInt32, Int.bmod]
    omega
  rw [UInt16.ofInt, same, Int.toNat_natCast, UInt16.ofNat_toNat]

/-- The two words of a `long long` argument. -/
theorem words_join (x : UInt64) :
    x.toUInt32.toUInt64 ||| (x >>> 32).toUInt32.toUInt64 <<< 32 = x := by
  have below := x.toNat_lt
  have high : x.toNat / 2 ^ 32 < 2 ^ 32 := by omega
  have low : x.toUInt32.toUInt64.toNat = x.toNat % 2 ^ 32 := rfl
  have upper : ((x >>> 32).toUInt32.toUInt64 <<< 32).toNat = 2 ^ 32 * (x.toNat / 2 ^ 32) := by
    change ((x.toNat >>> 32) % 2 ^ 32) <<< 32 % 2 ^ 64 = _
    rw [Nat.shiftRight_eq_div_pow, Nat.mod_eq_of_lt high, Nat.shiftLeft_eq, Nat.mul_comm,
      Nat.mod_eq_of_lt (by omega)]
  apply UInt64.toNat_inj.mp
  rw [UInt64.toNat_or, low, upper, Nat.or_comm,
    ← Nat.two_pow_add_eq_or_of_lt (Nat.mod_lt _ (by decide))]
  omega

end Words

section Lines

variable (floats : FloatText) (strings : Mem)

theorem chunk_writesLine (mem size next : UInt32) :
    WritesLine floats strings memForms (asciiText "mem: %p %p %p\n", [mem, size, next])
      (.chunk mem size next) := by
  refine writesLine floats strings (show memForms = [] ++ _ :: _ from rfl) nofun (by decide)
    (by decide) (by decide)
    (show _ = Except.ok ([(mem.toNat : Int), size.toNat, next.toNat], []) from rfl) ?_
  simp only [ofInt_unsigned]

theorem total_writesLine (bytes : UInt32) :
    WritesLine floats strings memForms (asciiText "mem: total: %p\n", [bytes]) (.total bytes) := by
  refine writesLine floats strings (show memForms = [_] ++ _ :: _ from rfl) (by decide) (by decide)
    (by decide) (by decide) (show _ = Except.ok ([(bytes.toNat : Int)], []) from rfl) ?_
  simp only [ofInt_unsigned]

theorem info_writesLine (line : InfoLine) :
    WritesLine floats strings infoForms line.call line := by
  cases line with
  | kernel start stop =>
      refine writesLine floats strings (show infoForms = [] ++ _ :: _ from rfl) nofun (by decide)
        (by decide) (by decide)
        (show _ = Except.ok ([(start.toNat : Int), stop.toNat], []) from rfl) ?_
      simp only [ofInt_unsigned]
  | block mi =>
      refine writesLine floats strings (show infoForms = [_] ++ _ :: _ from rfl) (by decide)
        (by decide) (by decide) (by decide)
        (show _ = Except.ok ([(mi.toNat : Int)], []) from rfl) ?_
      simp only [ofInt_unsigned]
  | tag idx type size =>
      refine writesLine floats strings (show infoForms = [_, _] ++ _ :: _ from rfl) (by decide)
        (by decide) (by decide) (by decide)
        (show _ = Except.ok ([(idx.toNat : Int), type.toInt32.toInt, size.toNat], []) from rfl) ?_
      simp only [ofInt_unsigned, ofInt_signed]
  | entry addr len type =>
      let join (x : UInt64) : UInt64 := x.toUInt32.toUInt64 ||| (x >>> 32).toUInt32.toUInt64 <<< 32
      refine writesLine floats strings (show infoForms = [_, _, _] ++ _ :: _ from rfl) (by decide)
        (by decide) (by decide) (by decide)
        (show _ = Except.ok ([((join addr).toNat : Int), (join len).toNat, type.toInt32.toInt], [])
          from rfl) ?_
      simp only [ofInt_long, ofInt_signed, join, words_join]

theorem stats_writesLine (dev : UInt16) (rx tx : UInt32) :
    WritesLine floats strings statsForms (asciiText "%d rx:%ld tx:%ld\n", [dev.toUInt32, rx, tx])
      ⟨dev, rx, tx⟩ := by
  refine writesLine floats strings (show statsForms = [] ++ _ :: _ from rfl) nofun (by decide)
    (by decide) (by decide)
    (show _ = Except.ok ([dev.toUInt32.toInt32.toInt, rx.toInt32.toInt, tx.toInt32.toInt], [])
      from rfl) ?_
  simp only [ofInt_signed, ofInt_short]

end Lines

section Shows

variable {floats : FloatText} {strings : Mem} {stack : UInt32} {color : UInt8} {s : Console}
  {p : Page}

theorem printCalls_cons (call : List UInt8 × List UInt32)
    (calls : List (List UInt8 × List UInt32)) :
    printCalls floats strings stack s (call :: calls) =
      s.printf floats strings stack call.1 call.2 >>= fun s =>
        printCalls floats strings stack s calls := List.foldlM_cons

theorem printCalls_shows (onStack : stack ≠ 0) {calls : List (List UInt8 × List UInt32)}
    {texts : List (List UInt8)} (refines : Refines color s p)
    (written : List.Forall₂ (fun call text =>
      formatted floats strings call.1 call.2 = .ok (text, []) ∧ 0 ∉ text) calls texts) :
    ∃ t, printCalls floats strings stack s calls = .ok t ∧
      Refines color t (texts.flatten.foldl Page.putch p) := by
  induction written generalizing s p with
  | nil => exact ⟨s, rfl, refines⟩
  | cons head _ ih =>
      obtain ⟨t, shown, refines'⟩ := printf_page onStack refines head.1 head.2
      obtain ⟨t', rest, last⟩ := ih refines'
      refine ⟨t', ?_, ?_⟩
      · rw [printCalls_cons, shown, ok_bind, rest]
      · rw [List.flatten_cons, List.foldl_append]
        exact last

/-- Calls that each write a line put a report on the page. -/
theorem report_shows {β : Type} {forms : List (Form β)} {calls : List (List UInt8 × List UInt32)}
    {lines : List β} (onStack : stack ≠ 0) (refines : Refines color s p)
    (empty : readLine forms [] = none)
    (writes : List.Forall₂ (WritesLine floats strings forms) calls lines) :
    ∃ t text, printCalls floats strings stack s calls = .ok t ∧
      Refines color t (text.foldl Page.putch p) ∧ readReport forms text = some lines := by
  obtain ⟨texts, reads, written⟩ := report_reads empty writes
  obtain ⟨t, shown, refines'⟩ := printCalls_shows onStack refines written
  exact ⟨t, texts.flatten, shown, refines', reads⟩

end Shows

section Memory

variable {floats : FloatText} {strings : Mem} {stack : UInt32} {h : Heap} {free : List UInt32}

def chunkCall (h : Heap) (p : UInt32) : List UInt8 × List UInt32 :=
  (asciiText "mem: %p %p %p\n", [p, h.size p, h.next p])

def totalCall (bytes : UInt32) : List UInt8 × List UInt32 := (asciiText "mem: total: %p\n", [bytes])

/-- What `print_mem` should show of a free list. -/
def memLines (h : Heap) (free : List UInt32) : List MemLine :=
  free.map (fun p => .chunk p (h.size p) (h.next p)) ++ [.total (free.map h.size).sum]

/-- Over a list that ends the loop is one call for each chunk, and one for the total. -/
theorem printMemLoop_chain {fuel : Nat} {mem : UInt32} (chain : Chain h.next 0 mem free)
    (enough : free.length < fuel) (totalMem : UInt32) (s : Console) :
    printMemLoop floats strings stack h fuel mem totalMem s =
      printCalls floats strings stack s
        (free.map (chunkCall h) ++ [totalCall (totalMem + (free.map h.size).sum)]) := by
  induction free generalizing fuel mem totalMem s with
  | nil =>
      cases fuel with
      | zero => exact absurd enough (Nat.lt_irrefl 0)
      | succ fuel =>
          have null : mem = 0 := chain
          rw [printMemLoop, if_neg (not_not.mpr null), List.map_nil, List.map_nil, List.sum_nil,
            UInt32.add_zero, List.nil_append, printCalls_cons]
          exact (bind_pure _).symm
  | cons q free ih =>
      cases fuel with
      | zero => exact absurd enough (Nat.not_lt_zero _)
      | succ fuel =>
          obtain ⟨rfl, nonnull, rest⟩ := chain
          rw [printMemLoop, if_pos nonnull, List.map_cons, List.map_cons, List.sum_cons,
            ← UInt32.add_assoc, List.cons_append, printCalls_cons]
          congr 1
          funext t
          exact ih rest (Nat.lt_of_succ_lt_succ enough) (totalMem + h.size mem) t

/-- If the loop ends, so does the list. -/
theorem chain_of_printMemLoop {fuel : Nat} {mem totalMem : UInt32} {s t : Console}
    (ends : printMemLoop floats strings stack h fuel mem totalMem s = .ok t) :
    ∃ free, Chain h.next 0 mem free := by
  induction fuel generalizing mem totalMem s with
  | zero => cases ends
  | succ fuel ih =>
      rw [printMemLoop] at ends
      split at ends
      · rename_i nonnull
        obtain ⟨between, -, rest⟩ := bind_eq_ok.mp ends
        obtain ⟨free, chain⟩ := ih rest
        exact ⟨mem :: free, rfl, nonnull, chain⟩
      · rename_i null
        exact ⟨[], not_not.mp null⟩

/-- A list that ends has fewer chunks than there are addresses. -/
theorem freeList_length (chain : h.FreeList free) : free.length < 2 ^ 32 := by
  have nonnull : ∀ {mem : UInt32} {free : List UInt32}, Chain h.next 0 mem free → 0 ∉ free := by
    intro mem free chain
    induction free generalizing mem with
    | nil => exact List.not_mem_nil
    | cons q free ih =>
        rw [List.mem_cons, not_or]
        exact ⟨chain.2.1.symm, ih chain.2.2⟩
  have distinct : ((0 :: free).map UInt32.toNat).Nodup :=
    (List.nodup_cons.mpr ⟨nonnull chain, chain.nodup⟩).map fun _ _ => UInt32.toNat_inj.mp
  have fits : (0 :: free).map UInt32.toNat ⊆ List.range (2 ^ 32) := by
    intro number member
    obtain ⟨word, -, rfl⟩ := List.mem_map.mp member
    exact List.mem_range.mpr word.toNat_lt
  have count := (List.subperm_of_subset distinct fits).length_le
  rw [List.length_map, List.length_cons, List.length_range] at count
  exact count

theorem memLines_written (h : Heap) (free : List UInt32) :
    List.Forall₂ (WritesLine floats strings memForms)
      (free.map (chunkCall h) ++ [totalCall (0 + (free.map h.size).sum)]) (memLines h free) := by
  refine List.rel_append ?_ (.cons ?_ .nil)
  · rw [List.forall₂_map_left_iff, List.forall₂_map_right_iff, List.forall₂_same]
    exact fun q _ => chunk_writesLine floats strings q (h.size q) (h.next q)
  · rw [UInt32.zero_add]
    exact total_writesLine floats strings _

theorem printMem_chain (chain : h.FreeList free) (s : Console) :
    printMem floats strings stack h s = printCalls floats strings stack s
      (free.map (chunkCall h) ++ [totalCall (0 + (free.map h.size).sum)]) :=
  printMemLoop_chain chain (freeList_length chain) 0 s

theorem printMem_shows (onStack : stack ≠ 0) (chain : h.FreeList free) {color : UInt8} {s : Console}
    {p : Page} (refines : Refines color s p) :
    ∃ t text, printMem floats strings stack h s = .ok t ∧
      Refines color t (text.foldl Page.putch p) ∧
      readReport memForms text = some (memLines h free) := by
  rw [printMem_chain chain]
  exact report_shows onStack refines rfl (memLines_written h free)

/-- `print_mem` ends exactly if the free list does, and what it shows then reads back as the chunks
of the list in their order and the sum of their sizes. -/
theorem printMem_reads_back_iff (floats : FloatText) (strings : Mem) (stack : UInt32) (h : Heap)
    (color : UInt8) (s : Console) (p : Page) (onStack : stack ≠ 0) (refines : Refines color s p) :
    ((∃ t, printMem floats strings stack h s = .ok t) ↔ ∃ free, h.FreeList free) ∧
      ∀ free, h.FreeList free → ∃ t text, printMem floats strings stack h s = .ok t ∧
        Refines color t (text.foldl Page.putch p) ∧
        readReport memForms text = some (memLines h free) := by
  refine ⟨⟨fun ⟨t, ends⟩ => chain_of_printMemLoop ends, ?_⟩,
    fun free chain => printMem_shows onStack chain refines⟩
  rintro ⟨free, chain⟩
  obtain ⟨t, text, shown, -⟩ := printMem_shows onStack chain refines
  exact ⟨t, shown⟩

/-- The arena before the first call, and a chunk at `0x1000` that is its own successor. -/
theorem printMem_shows_start_not_cycle :
    let s : Console :=
      { mem := fun _ => 0, csrX := 0, csrY := 0, attrib := 0xf, crtc := ⟨0, fun _ => 0⟩ }
    let cycle : Heap := { mem := fun x => if x = 0x1005 then 0x10 else 0, highMem := 0x1000 }
    ∃ cleared, s.cls = .ok cleared ∧
      (∃ t text, printMem ⟨fun _ _ _ _ => [], fun _ _ _ _ => []⟩ (fun _ => 0) 0x2000
          (initMem 0xC0120010 fun _ => 0) cleared = .ok t ∧
        Refines s.color t (text.foldl Page.putch Page.empty) ∧
        readReport memForms text = some [.chunk 0xC0120010 0xADFFF0 0, .total 0xADFFF0]) ∧
      ¬ ∃ t, printMem ⟨fun _ _ _ _ => [], fun _ _ _ _ => []⟩ (fun _ => 0) 0x2000 cycle
        cleared = .ok t := by
  intro s cycle
  obtain ⟨cleared, clsDone, start⟩ := cls_refines s
  have first := printMem_reads_back_iff ⟨fun _ _ _ _ => [], fun _ _ _ _ => []⟩ (fun _ => 0) 0x2000
    (initMem 0xC0120010 fun _ => 0) s.color cleared Page.empty (by decide) start
  have reads := printMem_reads_back_iff ⟨fun _ _ _ _ => [], fun _ _ _ _ => []⟩ (fun _ => 0) 0x2000
    cycle s.color cleared Page.empty (by decide) start
  have whole : (initMem 0xC0120010 fun _ => 0).FreeList [0xC0120010] :=
    ⟨by decide, by decide, path_nil.mpr (by decide)⟩
  obtain ⟨t, text, shown, shows, lines⟩ := first.2 _ whole
  refine ⟨cleared, clsDone, ⟨t, text, shown, shows, lines.trans (by decide)⟩, fun ends => ?_⟩
  obtain ⟨free, chain⟩ := reads.1.mp ends
  have again : cycle.next 0x1000 = 0x1000 := by decide
  obtain ⟨rest, rfl, behind⟩ := chain.nonempty (by decide)
  rw [show cycle.highMem = 0x1000 from rfl, again] at behind
  exact absurd (congrArg List.length (behind.unique chain)) (by simp)

theorem sum_size {free : List UInt32} (fits : total (free.map h.span) < 2 ^ 32) :
    (free.map h.size).sum.toNat = total (free.map h.span) := by
  induction free with
  | nil => rfl
  | cons q free ih =>
      have whole : total ((q :: free).map h.span) =
          (h.size q).toNat + total (free.map h.span) := rfl
      rw [whole] at fits ⊢
      rw [List.map_cons, List.sum_cons, UInt32.toNat_add, ih (by omega), Nat.mod_eq_of_lt fits]

/-- After any run of calls that pick their chunks soundly `print_mem` ends, and what it shows reads
back as chunks that share the arena out with the blocks returned so far. The total is what these
leave. -/
theorem printMem_shows_arena {kernelEnd : UInt32} {grants : List Grant}
    (run : AllocRun FirstFitSound kernelEnd h grants) (placed : Placed kernelEnd)
    (floats : FloatText) (strings : Mem) (stack : UInt32) (color : UInt8) (s : Console) (p : Page)
    (onStack : stack ≠ 0) (refines : Refines color s p) :
    ∃ free bytes t text, printMem floats strings stack h s = .ok t ∧
      Refines color t (text.foldl Page.putch p) ∧
      readReport memForms text =
        some (free.map (fun q => .chunk q (h.size q) (h.next q)) ++ [.total bytes]) ∧
      HeapPartition (roundUp kernelEnd 16).toNat h grants free ∧
      bytes.toNat + total (grants.map Grant.span) =
        arenaEnd.toNat - (roundUp kernelEnd 16).toNat := by
  obtain ⟨free, inv⟩ := run.inv placed
  obtain ⟨t, text, shown, refines', reads⟩ :=
    printMem_shows onStack inv.chain refines
  have whole := inv.whole
  rw [total_append] at whole
  have top : arenaEnd.toNat < 2 ^ 32 := arenaEnd.toNat_lt
  refine ⟨free, (free.map h.size).sum, t, text, shown, refines', reads, inv.partition, ?_⟩
  rw [sum_size (by omega), Nat.add_comm, whole]

/-- Two blocks with a free chunk between them. -/
theorem printMem_shows_two_blocks :
    let s : Console :=
      { mem := fun _ => 0, csrX := 0, csrY := 0, attrib := 0xf, crtc := ⟨0, fun _ => 0⟩ }
    ∃ h cleared t text, AllocRun FirstFitSound 0xC0120010 h
        [⟨0xC0120010, 0x100, 1⟩, ⟨0xC0121000, 16, 4096⟩] ∧
      s.cls = .ok cleared ∧ printMem ⟨fun _ _ _ _ => [], fun _ _ _ _ => []⟩ (fun _ => 0) 0x2000 h
        cleared = .ok t ∧
      Refines s.color t (text.foldl Page.putch Page.empty) ∧
      readReport memForms text = some [.chunk 0xC0120110 0xEF0 0xC0121010,
        .chunk 0xC0121010 0xADEFF0 0, .total 0xADFEE0] := by
  intro s
  obtain ⟨cleared, clsDone, start⟩ := cls_refines s
  obtain ⟨h, run, list, gap, behind⟩ := two_blocks_run
  obtain ⟨free, bytes, t, text, shown, shows, lines, partition, whole⟩ := printMem_shows_arena run
    (show Placed 0xC0120010 from ⟨by decide, by decide⟩) ⟨fun _ _ _ _ => [], fun _ _ _ _ => []⟩
    (fun _ => 0) 0x2000 s.color cleared Page.empty (by decide) start
  have same : free = [0xC0120110, 0xC0121010] := partition.freeList.unique list
  obtain ⟨-, -, first, -, last⟩ := list
  have bytes : bytes = 0xADFEE0 := by
    apply UInt32.toNat_inj.mp
    have granted : total (([⟨0xC0120010, 0x100, 1⟩, ⟨0xC0121000, 16, 4096⟩] : List Grant).map
        Grant.span) = 0x110 := by decide
    have arena : arenaEnd.toNat - (roundUp 0xC0120010 16).toNat = 0xADFFF0 := by decide
    rw [granted, arena] at whole
    change _ = 0xADFEE0
    omega
  refine ⟨h, cleared, t, text, run, clsDone, shown, shows, lines.trans ?_⟩
  rw [same, bytes]
  simp [gap, behind, first, path_nil.mp last]

end Memory

section Info

variable {floats : FloatText} {strings : Mem} {stack : UInt32} {info : Mem}

theorem printInfoOn_reads (onStack : stack ≠ 0) {fuel : Nat} {kernelStart kernelEnd mi : UInt32}
    {lines : List InfoLine} (ends : printInfo info fuel kernelStart kernelEnd mi = some lines)
    {color : UInt8} {s : Console} {p : Page} (refines : Refines color s p) :
    ∃ t text, printInfoOn floats strings stack info fuel kernelStart kernelEnd mi s = .ok t ∧
      Refines color t (text.foldl Page.putch p) ∧ readReport infoForms text = some lines := by
  have written : List.Forall₂ (WritesLine floats strings infoForms) (lines.map InfoLine.call)
      lines := by
    rw [List.forall₂_map_left_iff, List.forall₂_same]
    exact fun line _ => info_writesLine floats strings line
  rw [printInfoOn, ends]
  exact report_shows onStack refines rfl written

/-- Of any block of the boot loader `print_info` shows a text that reads back as the bounds of the
kernel, the address of the block, its tags and the entries of its memory maps. -/
theorem printInfo_shows_block (floats : FloatText) (strings : Mem) (stack : UInt32)
    {tags : List InfoTag} {total : Nat} (block : InfoBlock info tags total)
    (kernelStart kernelEnd mi : UInt32) (color : UInt8) (s : Console) (p : Page)
    (onStack : stack ≠ 0) (refines : Refines color s p) :
    ∃ fuel, ∀ more, fuel ≤ more →
      ∃ t text, printInfoOn floats strings stack info more kernelStart kernelEnd mi s = .ok t ∧
        Refines color t (text.foldl Page.putch p) ∧
        readReport infoForms text =
          some (.kernel kernelStart kernelEnd :: .block mi :: blockLines 8 (tags ++ [endTag])) := by
  have word := block.word
  obtain ⟨fuel, done⟩ := tagLoop_tags info (totalSize info) (tags ++ [endTag]) 8
    (by rw [word]; exact block.short) (by rw [word]; exact block.laid)
  refine ⟨fuel, fun more le => printInfoOn_reads onStack ?_ refines⟩
  rw [printInfo, tagLoop_mono le done]
  rfl

/-- A block with a command line and a memory map. -/
theorem printInfo_shows_boot_block :
    let s : Console :=
      { mem := fun _ => 0, csrX := 0, csrY := 0, attrib := 0xf, crtc := ⟨0, fun _ => 0⟩ }
    ∃ cleared fuel t text, s.cls = .ok cleared ∧
      printInfoOn ⟨fun _ _ _ _ => [], fun _ _ _ _ => []⟩ (fun _ => 0) 0x2000 (ofList bootBlock) fuel
        0xC0100000 0xC0180000 0xC0110000 cleared = .ok t ∧
      Refines s.color t (text.foldl Page.putch Page.empty) ∧
      readReport infoForms text =
        some (.kernel 0xC0100000 0xC0180000 :: .block 0xC0110000 :: bootLines) := by
  intro s
  obtain ⟨cleared, clsDone, start⟩ := cls_refines s
  obtain ⟨fuel, shows⟩ := printInfo_shows_block ⟨fun _ _ _ _ => [], fun _ _ _ _ => []⟩ (fun _ => 0)
    0x2000 bootBlock_laid 0xC0100000 0xC0180000 0xC0110000 s.color cleared Page.empty (by decide)
    start
  obtain ⟨t, text, shown, page, reads⟩ := shows fuel (Nat.le_refl fuel)
  exact ⟨cleared, fuel, t, text, clsDone, shown, page, reads⟩

end Info

section Stats

variable {floats : FloatText} {strings : Mem} {stack : UInt32}

def statsCall (t : NetTable) (i : Nat) : List UInt8 × List UInt32 :=
  (asciiText "%d rx:%ld tx:%ld\n",
    [(UInt16.ofNat i).toUInt32, (t.devs i).rxPackets, (t.devs i).txPackets])

/-- What `net_print_stats` should show. -/
def statsLines (t : NetTable) : List StatsLine :=
  (List.range t.num.toNat).map fun i => ⟨UInt16.ofNat i, (t.devs i).rxPackets, (t.devs i).txPackets⟩

theorem netPrintStatsLoop_calls (t : NetTable) {fuel k left : Nat} (whole : k + left = t.num.toNat)
    (enough : left < fuel) (s : Console) :
    netPrintStatsLoop floats strings stack t fuel (UInt16.ofNat k) s =
      printCalls floats strings stack s ((List.range' k left).map (statsCall t)) := by
  have small := t.num.toNat_lt
  induction left generalizing fuel k s with
  | zero =>
      cases fuel with
      | zero => exact absurd enough (Nat.lt_irrefl 0)
      | succ fuel =>
          have place : (UInt16.ofNat k).toNat = k :=
            UInt16.toNat_ofNat_of_lt' (by omega : k < 2 ^ 16)
          rw [netPrintStatsLoop, if_neg (by rw [UInt16.lt_iff_toNat_lt, place]; omega)]
          rfl
  | succ left ih =>
      cases fuel with
      | zero => exact absurd enough (Nat.not_lt_zero _)
      | succ fuel =>
          have place : (UInt16.ofNat k).toNat = k :=
            UInt16.toNat_ofNat_of_lt' (by omega : k < 2 ^ 16)
          have next : UInt16.ofNat k + 1 = UInt16.ofNat (k + 1) := (UInt16.ofNat_add k 1).symm
          rw [netPrintStatsLoop, if_pos (by rw [UInt16.lt_iff_toNat_lt, place]; omega), place, next,
            List.range'_succ, List.map_cons, printCalls_cons]
          congr 1
          funext t'
          exact ih (by omega) (Nat.lt_of_succ_lt_succ enough) t'

/-- `net_print_stats` shows the counters of every device. -/
theorem netPrintStats_shows (onStack : stack ≠ 0) (t : NetTable) {color : UInt8} {s : Console}
    {p : Page} (refines : Refines color s p) :
    ∃ s' text, netPrintStats floats strings stack t s = .ok s' ∧
      Refines color s' (text.foldl Page.putch p) ∧
      readReport statsForms text = some (statsLines t) := by
  have written : List.Forall₂ (WritesLine floats strings statsForms)
      ((List.range t.num.toNat).map (statsCall t)) (statsLines t) := by
    rw [statsLines, List.forall₂_map_left_iff, List.forall₂_map_right_iff, List.forall₂_same]
    exact fun i _ => stats_writesLine floats strings _ _ _
  have calls : netPrintStatsLoop floats strings stack t (2 ^ 16) (UInt16.ofNat 0) s = _ :=
    netPrintStatsLoop_calls t (Nat.zero_add _) t.num.toNat_lt s
  rw [netPrintStats, show (0 : UInt16) = UInt16.ofNat 0 from rfl, calls, ← List.range_eq_range']
  exact report_shows onStack refines rfl written

end Stats

end FrogOS
