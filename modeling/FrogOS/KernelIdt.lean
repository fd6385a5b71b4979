import FrogOS.InterruptFrame
import FrogOS.LoaderIrqs
import FrogOS.PicVectors

set_option autoImplicit false

namespace FrogOS

open ByteMemory X86Stack IrqOp

/-- The kernel in memory: the `idt`, which may hold anything, apart from it the operand `idt_ptr`
of `lidt`, and the addresses of `irq0` to `irq48`. -/
structure KernelImage where
  idt : Nat
  idtPtr : Nat
  inside : idt + 2048 ≤ 2 ^ 32
  apart : idtPtr + 6 ≤ idt ∨ idt + 2048 ≤ idtPtr
  memory : Mem
  limit : load16 memory idtPtr = 2047
  base : load32 memory (idtPtr + 2) = UInt32.ofNat idt
  irq : Fin 49 → UInt32

/-- `idt_set_gate`. -/
def idtSetGate (idt num : Nat) (func : UInt32) (sel : UInt16) (flags : UInt8) (m : Mem) : Mem :=
  let m := store16 m (idt + 8 * num) (func &&& 0xffff).toUInt16
  let m := store16 m (idt + 8 * num + 2) sel
  let m := store8 m (idt + 8 * num + 4) 0
  let m := store8 m (idt + 8 * num + 5) flags
  store16 m (idt + 8 * num + 6) ((func >>> 16) &&& 0xffff).toUInt16

/-- The calls of `idt_set_gate` in `set_irqs`, for the numbers of a list. -/
def setGates (k : KernelImage) (nums : List (Fin 49)) (m : Mem) : Mem :=
  nums.foldl (fun m (i : Fin 49) => idtSetGate k.idt i.val (k.irq i) 0x08 0x8E m) m

/-- `set_irqs` up to its call of `idt_load`, and what that loads. -/
def setIdt (k : KernelImage) : Mem × Idtr :=
  let m := setGates k (List.finRange 49) (fill k.memory k.idt 2048 0)
  (m, { limit := load16 m k.idtPtr, base := load32 m (k.idtPtr + 2) })

/-- A gate with its type, the privilege that an instruction `int` needs, and its present bit. -/
structure IdtGate extends Gate where
  flags : UInt8

/-- What the processor finds in the table for a vector: any entry whose present bit is set. An entry
without it, or none, is an exception. -/
def fetchGate (m : Mem) (r : Idtr) (vector : Nat) : Option IdtGate :=
  let entry := r.base.toNat + 8 * vector
  if 8 * vector + 7 ≤ r.limit.toNat ∧ m (entry + 5) &&& 0x80 ≠ 0 then
    some
      { selector := load16 m (entry + 2)
        offset := (load16 m entry).toUInt32 ||| (load16 m (entry + 6)).toUInt32 <<< 16
        flags := m (entry + 5) }
  else none

section Table

variable {idt num : Nat} {m m' : Mem} {func : UInt32}

theorem idtSetGate_frame (idt num : Nat) (func : UInt32) (sel : UInt16) (flags : UInt8) (m : Mem) :
    Frame (idt + 8 * num) 8 m (idtSetGate idt num func sel flags m) := by
  intro x outside
  rw [idtSetGate, store16_frame _ _ _ _ (by omega), store8_other _ _ _ _ (by omega),
    store8_other _ _ _ _ (by omega), store16_frame _ _ _ _ (by omega),
    store16_frame _ _ _ _ (by omega)]

theorem low_half (x : UInt32) : (x &&& 0xffff).toUInt16 = UInt16.ofNat x.toNat := by
  apply UInt16.toNat_inj.mp
  rw [UInt32.toNat_toUInt16, UInt32.toNat_and, UInt16.toNat_ofNat']
  change (x.toNat &&& (2 ^ 16 - 1)) % 2 ^ 16 = _
  rw [Nat.and_two_pow_sub_one_eq_mod, Nat.mod_mod]

theorem high_half (x : UInt32) :
    ((x >>> 16) &&& 0xffff).toUInt16 = UInt16.ofNat (x.toNat / 2 ^ 16) := by
  rw [low_half, UInt32.toNat_shiftRight, Nat.shiftRight_eq_div_pow]
  rfl

theorem halves (x : UInt32) :
    (UInt16.ofNat x.toNat).toUInt32 ||| (UInt16.ofNat (x.toNat / 2 ^ 16)).toUInt32 <<< 16 = x := by
  have bound := x.toNat_lt
  have small : x.toNat % 2 ^ 16 < 2 ^ 16 := Nat.mod_lt _ (by decide)
  have high : x.toNat / 2 ^ 16 % 2 ^ 16 = x.toNat / 2 ^ 16 := Nat.mod_eq_of_lt (by omega)
  apply UInt32.toNat_inj.mp
  rw [UInt32.toNat_or, UInt32.toNat_shiftLeft, UInt16.toNat_toUInt32, UInt16.toNat_toUInt32,
    UInt16.toNat_ofNat', UInt16.toNat_ofNat', high]
  change x.toNat % 2 ^ 16 ||| (x.toNat / 2 ^ 16) <<< 16 % 2 ^ 32 = x.toNat
  rw [Nat.shiftLeft_eq, Nat.mod_eq_of_lt (by omega : x.toNat / 2 ^ 16 * 2 ^ 16 < 2 ^ 32),
    Nat.or_comm, Nat.mul_comm, ← Nat.two_pow_add_eq_or_of_lt small]
  omega

theorem store8_frame (m : Mem) (address : Nat) (value : UInt8) :
    Frame address 1 m (store8 m address value) :=
  fun x outside => store8_other _ _ _ _ (by omega)

theorem idtSetGate_gate (idt num : Nat) (func : UInt32) (m : Mem) :
    IsGate (idtSetGate idt num func 0x08 0x8E m) (idt + 8 * num) func where
  low := by
    rw [idtSetGate, load16_frame (store16_frame _ _ _) (by omega),
      load16_frame (store8_frame _ _ _) (by omega), load16_frame (store8_frame _ _ _) (by omega),
      load16_frame (store16_frame _ _ _) (by omega), load16_store16, low_half]
  selector := by
    rw [idtSetGate, load16_frame (store16_frame _ _ _) (by omega),
      load16_frame (store8_frame _ _ _) (by omega), load16_frame (store8_frame _ _ _) (by omega),
      load16_store16]
  zero := by
    rw [idtSetGate, store16_frame _ _ _ _ (by omega), store8_other _ _ _ _ (by omega), store8_same]
  flags := by
    rw [idtSetGate, store16_frame _ _ _ _ (by omega), store8_same]
  high := by
    rw [idtSetGate, load16_store16, high_half]

variable (k : KernelImage)

/-- The calls leave every gate that they do not set. -/
theorem setGates_other {nums : List (Fin 49)} {v : Nat} (other : ∀ i ∈ nums, i.val ≠ v) (m : Mem) :
    Agree (k.idt + 8 * v) 8 m (setGates k nums m) := by
  induction nums generalizing m with
  | nil => exact fun _ _ _ => rfl
  | cons i rest ih =>
      rw [List.forall_mem_cons] at other
      intro x lower upper
      rw [setGates, List.foldl_cons, ← setGates, ih other.2 _ x lower upper]
      have apart := other.1
      exact idtSetGate_frame k.idt i.val (k.irq i) 0x08 0x8E m x (by omega)

theorem setGates_gate {nums : List (Fin 49)} (distinct : nums.Nodup) {v : Fin 49} (member : v ∈ nums)
    (m : Mem) : IsGate (setGates k nums m) (k.idt + 8 * v.val) (k.irq v) := by
  induction nums generalizing m with
  | nil => cases member
  | cons i rest ih =>
      obtain ⟨fresh, distinct⟩ := List.nodup_cons.mp distinct
      rw [setGates, List.foldl_cons, ← setGates]
      rcases List.mem_cons.mp member with rfl | later
      · -- The calls behind this one are for other gates.
        apply (idtSetGate_gate k.idt v.val (k.irq v) m).congr
        apply setGates_other
        intro i here same
        exact fresh (Fin.ext same ▸ here)
      · exact ih distinct later _

theorem setGates_frame (nums : List (Fin 49)) (m : Mem) :
    Frame k.idt 392 m (setGates k nums m) := by
  induction nums generalizing m with
  | nil => exact Frame.refl _ _ _
  | cons i rest ih =>
      have bound := i.isLt
      exact ((idtSetGate_frame k.idt i.val (k.irq i) 0x08 0x8E m).mono (by omega) (by omega)).trans
        (ih _)

/-- Nothing but the table is written. -/
theorem setIdt_frame : Frame k.idt 2048 k.memory (setIdt k).1 :=
  (fill_frame k.memory k.idt 2048 0).trans
    ((setGates_frame k _ _).mono (Nat.le_refl _) (by omega))

theorem setIdt_idtr : (setIdt k).2 = { limit := 2047, base := UInt32.ofNat k.idt } := by
  have apart := k.apart
  have limit : load16 (setIdt k).1 k.idtPtr = 2047 :=
    (load16_frame (setIdt_frame k) (by omega)).trans k.limit
  have base : load32 (setIdt k).1 (k.idtPtr + 2) = UInt32.ofNat k.idt :=
    (load32_frame (setIdt_frame k) (by omega)).trans k.base
  rw [← limit, ← base]
  rfl

theorem setIdt_gate (v : Fin 49) :
    IsGate (setIdt k).1 (k.idt + 8 * v.val) (k.irq v) :=
  setGates_gate k (List.nodup_finRange 49) (List.mem_finRange v) _

theorem setIdt_empty {v : Nat} (behind : 49 ≤ v) (inside : v < 256) :
    (setIdt k).1 (k.idt + 8 * v + 5) = 0 := by
  have kept : (setIdt k).1 (k.idt + 8 * v + 5) = fill k.memory k.idt 2048 0 (k.idt + 8 * v + 5) :=
    setGates_frame k _ _ _ (by omega)
  rw [kept, fill_inside _ _ _ _ _ (by omega) (by omega)]

end Table

section Fetch

variable {k : KernelImage} {m : Mem}

theorem IsGate.offset {address : Nat} {base : UInt32} (gate : IsGate m address base) :
    (load16 m address).toUInt32 ||| (load16 m (address + 6)).toUInt32 <<< 16 = base := by
  rw [gate.low, gate.high, halves]

/-- As long as nothing is written to the table, the processor finds interrupt gates of the kernel to
the handlers of the 49 vectors, and no other vector has a present gate. -/
theorem fetchGate_setIdt (kept : Agree k.idt 2048 (setIdt k).1 m) (v : Fin 256) :
    fetchGate m (setIdt k).2 v.val =
      if inside : v.val < 49 then
        some { selector := 8, offset := k.irq ⟨v.val, inside⟩, flags := 0x8E }
      else none := by
  have bound := v.isLt
  have placed := k.inside
  have base : (UInt32.ofNat k.idt).toNat = k.idt := by
    rw [UInt32.toNat_ofNat']
    exact Nat.mod_eq_of_lt (by omega)
  have limit : 8 * v.val + 7 ≤ (2047 : UInt16).toNat := by
    change _ ≤ 2047
    omega
  rw [fetchGate, setIdt_idtr]
  simp only [base, limit, true_and]
  by_cases inside : v.val < 49
  · have still : Agree (k.idt + 8 * v.val) 8 (setIdt k).1 m :=
      fun x lower upper => kept x (by omega) (by omega)
    have gate := (setIdt_gate k ⟨v.val, inside⟩).congr still
    rw [dif_pos inside, gate.flags, if_pos (by decide), gate.selector, gate.offset]
  · rw [dif_neg inside, kept _ (by omega) (by omega), setIdt_empty k (by omega) bound,
      if_neg (by decide)]

end Fetch

/-- `set_irqs` writes nothing but the table, and as long as nothing else is written to it, the
processor finds exactly the 49 gates to `irq0` to `irq48` there, whatever the table held before:
no other entry has its present bit set. -/
theorem set_irqs_gates_exact (k : KernelImage) {m : Mem}
    (kept : Agree k.idt 2048 (setIdt k).1 m) :
    Frame k.idt 2048 k.memory (setIdt k).1 ∧ ∀ v : Fin 256, fetchGate m (setIdt k).2 v.val =
      if inside : v.val < 49 then
        some { selector := 8, offset := k.irq ⟨v.val, inside⟩, flags := 0x8E }
      else none :=
  ⟨setIdt_frame k, fetchGate_setIdt kept⟩

/-- A kernel whose `idt` is full of ones, and with `irq0` and so on 16 bytes apart. -/
def onesKernel : KernelImage where
  idt := 0x9000
  idtPtr := 0x8000
  inside := by decide
  apart := by decide
  memory := blit (fun _ => 0xff) 0x8000 (ofList [0xff, 0x07, 0x00, 0x90, 0x00, 0x00]) 0 6
  limit := by decide
  base := by decide
  irq i := 0x100000 + 16 * UInt32.ofNat i

theorem ones_kernel_gates_exact :
    Frame onesKernel.idt 2048 onesKernel.memory (setIdt onesKernel).1 ∧ ∀ v : Fin 256,
      fetchGate (setIdt onesKernel).1 (setIdt onesKernel).2 v.val =
        if inside : v.val < 49 then
          some { selector := 8, offset := onesKernel.irq ⟨v.val, inside⟩, flags := 0x8E }
        else none :=
  set_irqs_gates_exact onesKernel fun _ _ _ => rfl

/-- Whatever the controllers and the table of interrupts held before `set_irqs`, and whatever
handlers are installed and taken out after it: with the controllers that this leaves, every line but
the slave's own brings the processor by way of its interrupt gate into `irq_handler` with the number
of the line's chain in the frame, and when that returns the interrupted program goes on unchanged. -/
theorem lines_reach_their_handlers (clears : Bool) (irqHandler error : UInt32) (k : KernelImage)
    (boot : Chips) (next : UInt32 → UInt32) {fuel : Nat} {ops : List IrqOp} {s : IrqHardware}
    (ran : (IrqHardware.start boot next).run fuel ops = some s) :
    irqRun fuel (irqStart boot.toPics next) ops = some s.toIrqState ∧
      ∀ (program : Machine), Agree k.idt 2048 (setIdt k).1 program.mem →
        ∀ irq : Fin 16, irq ≠ 2 → ∃ (vector : UInt8) (inside : vector.toNat < 49) (gate : IdtGate),
          s.chips.acknowledge irq = some vector ∧ vector.toNat - 32 = irq.val ∧
          fetchGate program.mem (setIdt k).2 vector.toNat = some gate ∧
          gate.selector = 8 ∧ gate.offset = k.irq ⟨vector.toNat, inside⟩ ∧ gate.flags = 0x8E ∧
          Transparent clears gate.toGate irqHandler ⟨vector.toNat, inside⟩ error program := by
  refine ⟨?_, ?_⟩
  · rw [← IrqHardware.start_toIrqState, ← IrqHardware.run_toIrqState, ran]
    rfl
  · intro program kept irq device
    have number : (UInt8.ofNat (32 + irq.val)).toNat = 32 + irq.val :=
      UInt8.toNat_ofNat_of_lt (by have := irq.isLt; change _ < 256; omega)
    have inside : (UInt8.ofNat (32 + irq.val)).toNat < 49 := by
      rw [number]
      omega
    have gate := fetchGate_setIdt kept ⟨(UInt8.ofNat (32 + irq.val)).toNat, by omega⟩
    rw [dif_pos inside] at gate
    refine ⟨UInt8.ofNat (32 + irq.val), inside, _, ?_, ?_, gate, rfl, rfl, rfl, ?_⟩
    · exact (IrqHardware.run_initialized boot.setIrqs_initialized ran).acknowledge irq device
    · rw [number]
      exact Nat.add_sub_cancel_left 32 irq.val
    · apply other_vectors_transparent
      intro alignment
      have value := congrArg Fin.val alignment
      change (UInt8.ofNat (32 + irq.val)).toNat = 17 at value
      omega

/-- Controllers in the middle of an initialization. -/
def strayChips : Chips := ⟨⟨0, .icw3 false, 0, 0, 0⟩, ⟨0xff, .icw4, 0x70, 0xff, 0⟩⟩

/-- With a handler installed on the timer's line and one on the slave's line 11, and the first taken
out again. -/
theorem timer_line_reaches_its_handlers :
    ∃ s : IrqHardware, (IrqHardware.start strayChips fun _ => 0).run 2
        [.install 0 0x1000, .install 11 0x2000, .uninstall 0 0x1000] = some s ∧
      s.chips.master.imr = 0xfb ∧ s.chips.slave.imr = 0xf7 ∧
      irqRun 2 (irqStart strayChips.toPics fun _ => 0)
        [.install 0 0x1000, .install 11 0x2000, .uninstall 0 0x1000] = some s.toIrqState ∧
      ∀ (program : Machine), Agree onesKernel.idt 2048 (setIdt onesKernel).1 program.mem →
        ∀ irq : Fin 16, irq ≠ 2 → ∃ (vector : UInt8) (inside : vector.toNat < 49) (gate : IdtGate),
          s.chips.acknowledge irq = some vector ∧ vector.toNat - 32 = irq.val ∧
          fetchGate program.mem (setIdt onesKernel).2 vector.toNat = some gate ∧
          gate.selector = 8 ∧ gate.offset = onesKernel.irq ⟨vector.toNat, inside⟩ ∧
          gate.flags = 0x8E ∧
          Transparent true gate.toGate 0x100200 ⟨vector.toNat, inside⟩ 0 program := by
  obtain ⟨s, ran, master, slave⟩ : ∃ s, (IrqHardware.start strayChips fun _ => 0).run 2
      [.install 0 0x1000, .install 11 0x2000, .uninstall 0 0x1000] = some s ∧
        s.chips.master.imr = 0xfb ∧ s.chips.slave.imr = 0xf7 := ⟨_, rfl, rfl, rfl⟩
  exact ⟨s, ran, master, slave, lines_reach_their_handlers true 0x100200 0 onesKernel strayChips
    (fun _ => 0) ran⟩

end FrogOS
