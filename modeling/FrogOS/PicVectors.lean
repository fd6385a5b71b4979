import FrogOS.IrqChains

set_option autoImplicit false

namespace FrogOS

open LinkedChain IrqOp

/-- The word that a controller expects at its data port: masks, or one of the initialization words
behind the first, which has announced the fourth or not. -/
inductive Stage
  | masks
  | icw2 (four : Bool)
  | icw3 (four : Bool)
  | icw4
deriving DecidableEq, Repr

/-- An 8259 that is one of two, with the initialization words that it keeps. -/
structure Chip where
  imr : UInt8
  stage : Stage
  vectors : UInt8
  cascade : UInt8
  mode : UInt8
deriving DecidableEq, Repr

namespace Chip

/-- A first initialization word without the fourth to follow clears the fourth. -/
def command (c : Chip) (data : UInt8) : Chip :=
  if data &&& 0x10 ≠ 0 then
    { c with
      imr := 0
      stage := .icw2 (data &&& 1 ≠ 0)
      mode := if data &&& 1 ≠ 0 then c.mode else 0 }
  else c

def data (c : Chip) (data : UInt8) : Chip :=
  match c.stage with
  | .masks => { c with imr := data }
  | .icw2 four => { c with vectors := data, stage := .icw3 four }
  | .icw3 four => { c with cascade := data, stage := if four then .icw4 else .masks }
  | .icw4 => { c with mode := data, stage := .masks }

/-- The part that the masks depend on. -/
def toPic (c : Chip) : Pic8259 where
  imr := c.imr
  awaiting := match c.stage with
    | .masks => 0
    | .icw2 four => if four then 3 else 2
    | .icw3 four => if four then 2 else 1
    | .icw4 => 1

/-- The vector of a line: the controller replaces the three low bits of its second word. Before it
is initialized, and in the mode of another processor, it sends no vector. -/
def vector (c : Chip) (line : Fin 8) : Option UInt8 :=
  if c.stage = .masks ∧ c.mode &&& 1 ≠ 0 then some (c.vectors &&& 0xF8 ||| UInt8.ofNat line)
  else none

end Chip

/-- The two controllers, the slave's output on line 2 of the master. -/
structure Chips where
  master : Chip
  slave : Chip
deriving DecidableEq, Repr

namespace Chips

def toPics (c : Chips) : Pics := ⟨c.master.toPic, c.slave.toPic⟩

def outportb (c : Chips) (port : UInt16) (data : UInt8) : Chips :=
  if port = 0x20 then { c with master := c.master.command data }
  else if port = 0x21 then { c with master := c.master.data data }
  else if port = 0xA0 then { c with slave := c.slave.command data }
  else if port = 0xA1 then { c with slave := c.slave.data data }
  else c

def writes (c : Chips) (all : List (UInt16 × UInt8)) : Chips :=
  all.foldl (fun c w => c.outportb w.1 w.2) c

/-- The writes of `set_irqs`. -/
def setIrqs (c : Chips) : Chips :=
  c.writes [(0x20, 0x11), (0xA0, 0x11), (0x21, 0x20), (0xA1, 0x28), (0x21, 0x04), (0xA1, 0x02),
    (0x21, 0x01), (0xA1, 0x01), (0x21, 0xfb), (0xA1, 0xff)]

/-- The answer to the processor's acknowledge for an interrupt line. Of a line with a slave the
master only passes the number, and the slave answers if it is its own. -/
def acknowledge (c : Chips) (irq : Fin 16) : Option UInt8 :=
  if low : irq.val < 8 then
    if c.master.cascade.toNat.testBit irq.val then none else c.master.vector ⟨irq.val, low⟩
  else if c.master.cascade.toNat.testBit 2 ∧ c.slave.cascade &&& 7 = 2 then
    c.slave.vector ⟨irq.val - 8, by omega⟩
  else none

end Chips

namespace Chips

/-- The data ports read as the masks. -/
def inportb (c : Chips) (port : UInt16) : UInt8 := FrogOS.inportb c.toPics port

def irqSetMask (irq : UInt8) (c : Chips) : Chips :=
  let (port, irq) : UInt16 × UInt8 := if irq ≥ 8 then (0xA1, irq - 8) else (0x21, irq)
  let value := ((c.inportb port).toUInt32 ||| (1 : UInt32) <<< irq.toUInt32).toUInt8
  c.outportb port value

def irqClearMask (irq : UInt8) (c : Chips) : Chips :=
  if irq ≥ 16 then c
  else
    let (port, irq) : UInt16 × UInt8 := if irq ≥ 8 then (0xA1, irq - 8) else (0x21, irq)
    let value := ((c.inportb port).toUInt32 &&& ~~~((1 : UInt32) <<< irq.toUInt32)).toUInt8
    c.outportb port value

end Chips

/-- An `IrqState` with the whole controllers in the place of their masks. -/
structure IrqHardware where
  irqHandlers : Nat → UInt32
  next : UInt32 → UInt32
  chips : Chips

namespace IrqHardware

def toIrqState (s : IrqHardware) : IrqState := ⟨s.irqHandlers, s.next, s.chips.toPics⟩

/-- The state that `set_irqs` leaves. -/
def start (boot : Chips) (next : UInt32 → UInt32) : IrqHardware := ⟨fun _ => 0, next, boot.setIrqs⟩

def installIrqHandler (s : IrqHardware) (irq : Nat) (handler : UInt32) : Option IrqHardware :=
  if irq < irqCount then
    let chips := if s.irqHandlers irq = 0 then s.chips.irqClearMask (UInt8.ofNat irq) else s.chips
    some
      { irqHandlers := setHead s.irqHandlers irq handler
        next := setNext s.next handler (s.irqHandlers irq)
        chips := chips }
  else none

def uninstallIrqHandler (fuel : Nat) (s : IrqHardware) (irq : Nat) (handler : UInt32) :
    Option IrqHardware :=
  if irq < irqCount then
    (unlinkHandler fuel s.toIrqState irq handler).map fun t =>
      let chips :=
        if t.irqHandlers irq = 0 ∧ irq ≠ 2 then s.chips.irqSetMask (UInt8.ofNat irq) else s.chips
      { irqHandlers := t.irqHandlers, next := t.next, chips := chips }
  else none

def perform (fuel : Nat) (s : IrqHardware) : IrqOp → Option IrqHardware
  | .install irq handler => s.installIrqHandler irq handler
  | .uninstall irq handler => uninstallIrqHandler fuel s irq handler

def run (fuel : Nat) (s : IrqHardware) (ops : List IrqOp) : Option IrqHardware :=
  ops.foldlM (perform fuel) s

end IrqHardware

section Projection

theorem Chip.command_toPic (c : Chip) (data : UInt8) :
    (c.command data).toPic = c.toPic.command data := by
  unfold Chip.command Pic8259.command
  split
  · simp [Chip.toPic]
  · rfl

theorem Chip.data_toPic (c : Chip) (data : UInt8) :
    (c.data data).toPic = c.toPic.data data := by
  unfold Chip.data
  cases stage : c.stage with
  | masks => simp [Chip.toPic, Pic8259.data, stage]
  | icw2 four => cases four <;> simp [Chip.toPic, Pic8259.data, stage]
  | icw3 four => cases four <;> simp [Chip.toPic, Pic8259.data, stage]
  | icw4 => simp [Chip.toPic, Pic8259.data, stage]

/-- The masks of the finer controllers are those of the coarser ones. -/
theorem Chips.outportb_toPics (c : Chips) (port : UInt16) (data : UInt8) :
    (c.outportb port data).toPics = FrogOS.outportb c.toPics port data := by
  unfold Chips.outportb FrogOS.outportb
  split_ifs
  · simp [toPics, Chip.command_toPic]
  · simp [toPics, Chip.data_toPic]
  · simp [toPics, Chip.command_toPic]
  · simp [toPics, Chip.data_toPic]
  · rfl

theorem Chips.writes_toPics (c : Chips) (all : List (UInt16 × UInt8)) :
    (c.writes all).toPics = all.foldl (fun p w => FrogOS.outportb p w.1 w.2) c.toPics := by
  induction all generalizing c with
  | nil => rfl
  | cons w rest ih => exact (ih _).trans (by rw [outportb_toPics]; rfl)

theorem Chips.setIrqs_toPics (c : Chips) : c.setIrqs.toPics = FrogOS.setIrqs c.toPics :=
  c.writes_toPics _

theorem Chips.irqSetMask_toPics (irq : UInt8) (c : Chips) :
    (c.irqSetMask irq).toPics = FrogOS.irqSetMask irq c.toPics := c.outportb_toPics _ _

theorem Chips.irqClearMask_toPics (irq : UInt8) (c : Chips) :
    (c.irqClearMask irq).toPics = FrogOS.irqClearMask irq c.toPics := by
  by_cases software : irq ≥ 16
  · rw [Chips.irqClearMask, FrogOS.irqClearMask, if_pos software, if_pos software]
  · rw [Chips.irqClearMask, FrogOS.irqClearMask, if_neg software, if_neg software]
    exact c.outportb_toPics _ _

/-- `unlink_handler` leaves the controllers alone. -/
theorem unlinkHandler_pics {fuel : Nat} {s t : IrqState} {irq : Nat} {handler : UInt32}
    (done : unlinkHandler fuel s irq handler = some t) : t.pics = s.pics := by
  rw [unlinkHandler] at done
  split at done
  · rw [← Option.some.inj done]
  · obtain ⟨next, -, whole⟩ := Option.map_eq_some_iff.mp done
    rw [← whole]

namespace IrqHardware

theorem start_toIrqState (boot : Chips) (next : UInt32 → UInt32) :
    (start boot next).toIrqState = irqStart boot.toPics next := by
  rw [toIrqState, start, irqStart, boot.setIrqs_toPics]

/-- One call, seen through the masks. -/
theorem perform_toIrqState (fuel : Nat) (s : IrqHardware) (op : IrqOp) :
    (s.perform fuel op).map toIrqState = op.perform fuel s.toIrqState := by
  cases op with
  | install irq handler =>
      rw [perform, IrqOp.perform, installIrqHandler, FrogOS.installIrqHandler]
      by_cases inside : irq < irqCount
      · rw [if_pos inside, if_pos inside]
        by_cases empty : s.irqHandlers irq = 0
        · simp [toIrqState, empty, Chips.irqClearMask_toPics]
        · simp [toIrqState, empty]
      · rw [if_neg inside, if_neg inside]
        rfl
  | uninstall irq handler =>
      rw [perform, IrqOp.perform, uninstallIrqHandler, FrogOS.uninstallIrqHandler]
      by_cases inside : irq < irqCount
      · rw [if_pos inside, if_pos inside]
        cases unlinked : unlinkHandler fuel s.toIrqState irq handler with
        | none => rfl
        | some t =>
            have same : t.pics = s.chips.toPics := unlinkHandler_pics unlinked
            by_cases masks : t.irqHandlers irq = 0 ∧ irq ≠ 2
            · simp only [Option.map_some, if_pos masks, toIrqState, Chips.irqSetMask_toPics, same]
            · simp only [Option.map_some, if_neg masks, toIrqState, ← same]
      · rw [if_neg inside, if_neg inside]
        rfl

/-- The whole controllers change nothing about the chains and the masks. -/
theorem run_toIrqState (fuel : Nat) (s : IrqHardware) (ops : List IrqOp) :
    (s.run fuel ops).map toIrqState = irqRun fuel s.toIrqState ops := by
  induction ops generalizing s with
  | nil => rfl
  | cons op rest ih =>
      have first := perform_toIrqState fuel s op
      rw [run, irqRun, List.foldlM_cons, List.foldlM_cons, ← first]
      cases s.perform fuel op with
      | none => rfl
      | some t => exact ih t

end IrqHardware

end Projection

section Kept

/-- The words that `set_irqs` leaves. -/
structure Chips.Initialized (c : Chips) : Prop where
  master : c.master.stage = .masks ∧ c.master.vectors = 0x20 ∧ c.master.cascade = 0x04 ∧
    c.master.mode = 0x01
  slave : c.slave.stage = .masks ∧ c.slave.vectors = 0x28 ∧ c.slave.cascade = 0x02 ∧
    c.slave.mode = 0x01

/-- Wherever an initialization stood before. -/
theorem Chips.setIrqs_initialized (c : Chips) : c.setIrqs.Initialized :=
  ⟨⟨rfl, rfl, rfl, rfl⟩, ⟨rfl, rfl, rfl, rfl⟩⟩

variable {c : Chips}

theorem Chip.data_masks {c : Chip} (ready : c.stage = .masks) (value : UInt8) :
    c.data value = { c with imr := value } := by
  simp only [Chip.data, ready]

/-- New masks change no word. -/
theorem Chips.Initialized.mask (init : c.Initialized) {port : UInt16}
    (mask : port = 0x21 ∨ port = 0xA1) (value : UInt8) : (c.outportb port value).Initialized := by
  rcases mask with rfl | rfl
  · change Chips.Initialized ⟨c.master.data value, c.slave⟩
    rw [Chip.data_masks init.master.1]
    exact ⟨init.master, init.slave⟩
  · change Chips.Initialized ⟨c.master, c.slave.data value⟩
    rw [Chip.data_masks init.slave.1]
    exact ⟨init.master, init.slave⟩

theorem Chips.Initialized.irqSetMask (init : c.Initialized) (irq : UInt8) :
    (c.irqSetMask irq).Initialized := by
  by_cases high : irq ≥ 8
  · rw [Chips.irqSetMask, if_pos high]
    exact init.mask (Or.inr rfl) _
  · rw [Chips.irqSetMask, if_neg high]
    exact init.mask (Or.inl rfl) _

theorem Chips.Initialized.irqClearMask (init : c.Initialized) (irq : UInt8) :
    (c.irqClearMask irq).Initialized := by
  by_cases software : irq ≥ 16
  · rw [Chips.irqClearMask, if_pos software]
    exact init
  · by_cases high : irq ≥ 8
    · rw [Chips.irqClearMask, if_neg software, if_pos high]
      exact init.mask (Or.inr rfl) _
    · rw [Chips.irqClearMask, if_neg software, if_neg high]
      exact init.mask (Or.inl rfl) _

theorem IrqHardware.perform_initialized {fuel : Nat} {s t : IrqHardware} {op : IrqOp}
    (init : s.chips.Initialized) (done : s.perform fuel op = some t) : t.chips.Initialized := by
  cases op with
  | install irq handler =>
      rw [perform, installIrqHandler] at done
      split at done
      · rw [← Option.some.inj done]
        dsimp only
        split_ifs
        · exact init.irqClearMask _
        · exact init
      · cases done
  | uninstall irq handler =>
      rw [perform, uninstallIrqHandler] at done
      split at done
      · obtain ⟨u, -, rest⟩ := Option.map_eq_some_iff.mp done
        rw [← rest]
        dsimp only
        split_ifs
        · exact init.irqSetMask _
        · exact init
      · cases done

theorem IrqHardware.run_initialized {fuel : Nat} {s t : IrqHardware} {ops : List IrqOp}
    (init : s.chips.Initialized) (ran : s.run fuel ops = some t) : t.chips.Initialized := by
  induction ops generalizing s with
  | nil =>
      rw [← Option.some.inj ran]
      exact init
  | cons op rest ih =>
      obtain ⟨u, first, later⟩ := Option.bind_eq_some_iff.mp ran
      exact ih (perform_initialized init first) later

/-- Every line but the one of the slave has the vector behind the exceptions that goes with its
number. -/
theorem Chips.Initialized.acknowledge (init : c.Initialized) (irq : Fin 16) (device : irq ≠ 2) :
    c.acknowledge irq = some (UInt8.ofNat (32 + irq.val)) := by
  obtain ⟨⟨ready, vectors, cascade, mode⟩, ready', vectors', cascade', mode'⟩ := init
  unfold Chips.acknowledge Chip.vector
  rw [ready, vectors, cascade, mode, ready', vectors', cascade', mode']
  revert irq
  decide

end Kept

end FrogOS
