import FrogOS.LittleEndian

set_option autoImplicit false

namespace FrogOS

open ByteMemory

/-- The loader in memory: its table `irqs` of handler addresses, directly followed by the operand
`idt_ptr` of `lidt`, and apart from both the `idt`, which may hold anything. -/
structure LoaderImage where
  irqs : Nat
  idt : Nat
  apart : irqs + 134 ≤ idt ∨ idt + 2048 ≤ irqs
  memory : Mem
  limit : load16 memory (irqs + 4 * 32) = 2047
  base : load32 memory (irqs + 4 * 32 + 2) = UInt32.ofNat idt

namespace LoaderImage

def idtPtr (l : LoaderImage) : Nat := l.irqs + 4 * 32

/-- The address of the handler with the number `i`. -/
def handler (l : LoaderImage) (i : Nat) : UInt32 := load32 l.memory (l.irqs + 4 * i)

end LoaderImage

/-- What `lidt` loads. -/
structure Idtr where
  limit : UInt16
  base : UInt32

/-- One round of the loop in `install_irqs`: four stores of four bytes to a gate of eight. -/
def installGate (esi edi ecx : Nat) (m : Mem) : Mem :=
  let ebx := load32 m (esi + 4 * ecx)
  let m := store32 m (edi + 8 * ecx) ebx
  let m := store32 m (edi + 8 * ecx + 2) 0x0008
  let m := store32 m (edi + 8 * ecx + 4) 0x8e00
  let ebx := load32 m (esi + 4 * ecx + 2)
  store32 m (edi + 8 * ecx + 6) ebx

/-- The loop from `ecx` on. -/
def gateLoop (esi edi : Nat) : Nat → Nat → Mem → Mem
  | 0, _, m => m
  | n + 1, ecx, m => gateLoop esi edi n (ecx + 1) (installGate esi edi ecx m)

/-- `install_irqs`, entered with the `ecx` that `rep movsb` in `load_gdt` leaves. -/
def installIrqs (l : LoaderImage) : Mem × Idtr :=
  let m := gateLoop l.irqs l.idt 32 0 l.memory
  (m, { limit := load16 m l.idtPtr, base := load32 m (l.idtPtr + 2) })

/-- A gate to a handler in the loader's code segment, for the kernel and with interrupts off. -/
structure IsGate (m : Mem) (address : Nat) (base : UInt32) : Prop where
  low : load16 m address = UInt16.ofNat base.toNat
  selector : load16 m (address + 2) = 8
  zero : m (address + 4) = 0
  flags : m (address + 5) = 0x8e
  high : load16 m (address + 6) = UInt16.ofNat (base.toNat / 2 ^ 16)

section Loop

variable {esi edi ecx n address : Nat} {m m' : Mem} {base : UInt32}

theorem IsGate.congr (gate : IsGate m address base) (same : Agree address 8 m m') :
    IsGate m' address base where
  low := by
    rw [load16_congr fun x lower upper => same x lower (by omega)]
    exact gate.low
  selector := by
    rw [load16_congr fun x lower upper => same x (by omega) (by omega)]
    exact gate.selector
  zero := by
    rw [same _ (by omega) (by omega)]
    exact gate.zero
  flags := by
    rw [same _ (by omega) (by omega)]
    exact gate.flags
  high := by
    rw [load16_congr fun x lower upper => same x (by omega) (by omega)]
    exact gate.high

/-- The last store of a round ends in the second byte of the next gate. -/
theorem installGate_frame (esi edi ecx : Nat) (m : Mem) :
    Frame (edi + 8 * ecx) 10 m (installGate esi edi ecx m) := by
  intro x outside
  rw [installGate, store32_frame _ _ _ _ (by omega), store32_frame _ _ _ _ (by omega),
    store32_frame _ _ _ _ (by omega), store32_frame _ _ _ _ (by omega)]

/-- The word behind a table entry, which the last store of its round leaves in the next gate. -/
theorem installGate_spill (apart : esi + 4 * ecx + 6 ≤ edi ∨ edi + 2048 ≤ esi + 4 * ecx)
    (inside : ecx < 32) : load16 (installGate esi edi ecx m) (edi + 8 * ecx + 8) =
      load16 m (esi + 4 * ecx + 4) := by
  rw [installGate, load16_store32_high, load32_high]
  rw [load16_frame (store32_frame _ _ _) (by omega), load16_frame (store32_frame _ _ _) (by omega),
    load16_frame (store32_frame _ _ _) (by omega)]

theorem installGate_gate (apart : esi + 4 * ecx + 6 ≤ edi ∨ edi + 2048 ≤ esi + 4 * ecx)
    (inside : ecx < 32) :
    IsGate (installGate esi edi ecx m) (edi + 8 * ecx) (load32 m (esi + 4 * ecx)) where
  low := by
    rw [installGate, load16_frame (store32_frame _ _ _) (by omega),
      load16_frame (store32_frame _ _ _) (by omega), load16_frame (store32_frame _ _ _) (by omega),
      load16_store32_low]
  selector := by
    rw [installGate, load16_frame (store32_frame _ _ _) (by omega),
      load16_frame (store32_frame _ _ _) (by omega), load16_store32_low]
    rfl
  zero := by
    rw [installGate, store32_frame _ _ _ _ (by omega)]
    exact store32_cell _ _ 0x8e00 0 (by decide)
  flags := by
    rw [installGate, store32_frame _ _ _ _ (by omega)]
    exact store32_cell _ _ 0x8e00 1 (by decide)
  high := by
    rw [installGate, load16_store32_low, load32_low, load32_high]
    rw [load16_frame (store32_frame _ _ _) (by omega),
      load16_frame (store32_frame _ _ _) (by omega), load16_frame (store32_frame _ _ _) (by omega)]

theorem gateLoop_frame (esi edi n ecx : Nat) (m : Mem) :
    Frame (edi + 8 * ecx) (8 * n + 2) m (gateLoop esi edi n ecx m) := by
  induction n generalizing ecx m with
  | zero => exact Frame.refl _ _ _
  | succ n ih =>
      have first := (installGate_frame esi edi ecx m).mono (b := edi + 8 * ecx)
        (k := 8 * (n + 1) + 2) (Nat.le_refl _) (by omega)
      have later := (ih (ecx + 1) (installGate esi edi ecx m)).mono (b := edi + 8 * ecx)
        (k := 8 * (n + 1) + 2) (by omega) (by omega)
      exact first.trans later

/-- The table is not written. -/
theorem gateLoop_gate (apart : esi + 134 ≤ edi ∨ edi + 2048 ≤ esi) (inside : ecx + n ≤ 32)
    {k : Nat} (lower : ecx ≤ k) (upper : k < ecx + n) :
    IsGate (gateLoop esi edi n ecx m) (edi + 8 * k) (load32 m (esi + 4 * k)) := by
  induction n generalizing ecx m with
  | zero => exact absurd upper (Nat.not_lt.mpr lower)
  | succ n ih =>
      rw [gateLoop]
      by_cases here : k = ecx
      · -- The rest of the loop starts at the next gate.
        have gate : IsGate (installGate esi edi ecx m) (edi + 8 * ecx) (load32 m (esi + 4 * ecx)) :=
          installGate_gate (by omega) (by omega)
        have kept := (gateLoop_frame esi edi n (ecx + 1) (installGate esi edi ecx m)).agree
          (b := edi + 8 * k) (k := 8) (Or.inl (by omega))
        rw [here] at kept ⊢
        exact gate.congr kept
      · have source : load32 (installGate esi edi ecx m) (esi + 4 * k) = load32 m (esi + 4 * k) :=
          load32_frame (installGate_frame esi edi ecx m) (by omega)
        rw [← source]
        exact ih (by omega) (by omega) (by omega)

/-- What the loop leaves in the gate behind its last one. -/
theorem gateLoop_spill (apart : esi + 134 ≤ edi ∨ edi + 2048 ≤ esi) (inside : ecx + n + 1 ≤ 32) :
    load16 (gateLoop esi edi (n + 1) ecx m) (edi + 8 * (ecx + n + 1)) =
      load16 m (esi + 4 * (ecx + n + 1)) := by
  induction n generalizing ecx m with
  | zero => exact installGate_spill (by omega) (by omega)
  | succ n ih =>
      have index : ecx + (n + 1) + 1 = ecx + 1 + n + 1 := by omega
      rw [gateLoop, index, ih (by omega),
        load16_frame (installGate_frame esi edi ecx m) (by omega)]

end Loop

/-- The gates of the table are there, and those behind them are as they were. -/
structure GatesExact (l : LoaderImage) (m : Mem) : Prop where
  gates : ∀ i, i < 32 → IsGate m (l.idt + 8 * i) (l.handler i)
  rest : ∀ x, 8 * 32 ≤ x → x < 2048 → m (l.idt + x) = l.memory (l.idt + x)

section Install

variable (l : LoaderImage)

theorem installIrqs_gate (i : Nat) (inside : i < 32) :
    IsGate (installIrqs l).1 (l.idt + 8 * i) (l.handler i) :=
  gateLoop_gate l.apart (Nat.le_refl 32) (Nat.zero_le i) (by omega)

/-- Behind the table stands the limit of the IDT, and its bytes end up in gate 32. -/
theorem installIrqs_spill : load16 (installIrqs l).1 (l.idt + 8 * 32) = 2047 := by
  have spill : load16 (gateLoop l.irqs l.idt (31 + 1) 0 l.memory) (l.idt + 8 * (0 + 31 + 1)) =
      load16 l.memory (l.irqs + 4 * (0 + 31 + 1)) := gateLoop_spill l.apart (by decide)
  exact spill.trans l.limit

theorem installIrqs_frame : Frame l.idt 258 l.memory (installIrqs l).1 :=
  gateLoop_frame l.irqs l.idt 32 0 l.memory

/-- The processor gets the whole table. -/
theorem installIrqs_idtr :
    (installIrqs l).2 = { limit := 2047, base := UInt32.ofNat l.idt } := by
  have apart := l.apart
  have place : l.idtPtr = l.irqs + 4 * 32 := rfl
  have limit : load16 (installIrqs l).1 l.idtPtr = 2047 :=
    (load16_frame (installIrqs_frame l) (by omega)).trans l.limit
  have base : load32 (installIrqs l).1 (l.idtPtr + 2) = UInt32.ofNat l.idt :=
    (load32_frame (installIrqs_frame l) (by omega)).trans l.base
  rw [← limit, ← base]
  rfl

end Install

/-- The gates are exact if and only if the first word of gate 32 happened to be the limit of the
IDT: the last round stores it there. -/
theorem install_irqs_exact_iff (l : LoaderImage) :
    GatesExact l (installIrqs l).1 ↔ load16 l.memory (l.idt + 8 * 32) = 2047 := by
  constructor
  · intro exact'
    rw [← installIrqs_spill l]
    symm
    apply load16_congr
    intro x lower upper
    have kept := exact'.rest (x - l.idt) (by omega) (by omega)
    rwa [Nat.add_sub_cancel' (by omega)] at kept
  · intro limit
    refine ⟨installIrqs_gate l, ?_⟩
    intro x lower upper
    by_cases first : x < 8 * 32 + 2
    · have words : load16 (installIrqs l).1 (l.idt + 8 * 32) =
          load16 l.memory (l.idt + 8 * 32) := by
        rw [installIrqs_spill, limit]
      exact agree_of_load16 words _ (by omega) (by omega)
    · exact installIrqs_frame l _ (by omega)

/-- A loader whose 32 handlers have the address zero and whose IDT is zero. -/
def zeroLoader : LoaderImage where
  irqs := 0x8000
  idt := 0x9000
  apart := by decide
  memory := blit (fun _ => 0) 0x8080 (ofList [0xff, 0x07, 0x00, 0x90, 0x00, 0x00]) 0 6
  limit := by decide
  base := by decide

/-- In the zeroed `.bss` gate 32 changes. -/
theorem zeroed_idt_overrun : ¬ GatesExact zeroLoader (installIrqs zeroLoader).1 := by
  intro exact'
  have kept := exact'.rest (8 * 32) (by decide) (by decide)
  have spill := installIrqs_spill zeroLoader
  have low := load16_toNat (installIrqs zeroLoader).1 (zeroLoader.idt + 8 * 32)
  rw [spill, kept] at low
  have zero : (zeroLoader.memory (zeroLoader.idt + 8 * 32)).toNat = 0 := by decide
  rw [zero] at low
  change 2047 = 0 + 2 ^ 8 * _ at low
  omega

end FrogOS
