import FrogOS.InterruptFrame
import FrogOS.IrqChains

set_option autoImplicit false

namespace FrogOS.IrqDispatch

open LinkedChain IrqOp

/-- The in-service registers of the two controllers. Bit 0 has the highest priority. -/
structure InService where
  master : UInt8
  slave : UInt8
deriving DecidableEq, Repr

namespace InService

def idle : InService := ⟨0, 0⟩

/-- A non-specific EOI clears the lowest bit that is set. -/
def endOfInterrupt (isr : UInt8) : UInt8 := isr &&& (isr - 1)

/-- A write of `0x20` to a command port is such an EOI. -/
def command (s : InService) (port : UInt16) (data : UInt8) : InService :=
  if data ≠ 0x20 then s
  else if port = 0x20 then { s with master := endOfInterrupt s.master }
  else if port = 0xA0 then { s with slave := endOfInterrupt s.slave }
  else s

/-- The subtraction turns the lowest bit set into a borrow, so the mask drops it and no other. -/
theorem endOfInterrupt_spec (isr : UInt8) (busy : isr ≠ 0) :
    ∃ k : Fin 8, isr.toNat.testBit k = true ∧ (∀ i < k, isr.toNat.testBit i = false) ∧
      ∀ i : Fin 8, (endOfInterrupt isr).toNat.testBit i = (isr.toNat.testBit i && i != k) := by
  have table : ∀ n : Fin 256, UInt8.ofNat n.val ≠ 0 →
      ∃ k : Fin 8, (UInt8.ofNat n.val).toNat.testBit k = true ∧
        (∀ i < k, (UInt8.ofNat n.val).toNat.testBit i = false) ∧
        ∀ i : Fin 8, (endOfInterrupt (UInt8.ofNat n.val)).toNat.testBit i =
          ((UInt8.ofNat n.val).toNat.testBit i && i != k) := by
    decide +kernel
  have this := table ⟨isr.toNat, isr.toNat_lt⟩
  rw [UInt8.ofNat_toNat] at this
  exact this busy

end InService

/-- What reaches the processor: an interrupt line, the two kinds of spurious interrupt that have
gone away when the processor asks which it was, and the system call. -/
inductive Interrupt
  | line (irq : Fin 16)
  | spuriousMaster
  | spuriousSlave
  | software
deriving DecidableEq, Repr

namespace Interrupt

/-- `set_irqs` puts the master's lines at 0x20 and the slave's at 0x28. -/
def vector : Interrupt → Nat
  | line irq => if irq.val < 8 then 0x20 + irq.val else 0x28 + (irq.val - 8)
  | spuriousMaster => 0x20 + 7
  | spuriousSlave => 0x28 + 7
  | software => 48

def serviceBit (k : Nat) : UInt8 := 1 <<< UInt8.ofNat k

/-- The bits that the controllers set when the processor takes the interrupt. The slave hangs on
the master's line 2, which is in service also while the slave's interrupt is spurious. -/
def accept : Interrupt → InService → InService
  | line irq, s =>
      if irq.val < 8 then { s with master := s.master ||| serviceBit irq.val }
      else ⟨s.master ||| serviceBit 2, s.slave ||| serviceBit (irq.val - 8)⟩
  | spuriousMaster, s => s
  | spuriousSlave, s => { s with master := s.master ||| serviceBit 2 }
  | software, s => s

/-- A line of the slave asks for the interrupt, and has not gone away again. -/
def FromSlave : Interrupt → Prop
  | line irq => 8 ≤ irq.val
  | _ => False

instance : (i : Interrupt) → Decidable i.FromSlave
  | line irq => inferInstanceAs (Decidable (8 ≤ irq.val))
  | spuriousMaster => isFalse id
  | spuriousSlave => isFalse id
  | software => isFalse id

end Interrupt

/-- What `irq_handler` does to the outside, in order. -/
inductive IrqAction
  | call (handler data : UInt32)
  | out (port : UInt16) (data : UInt8)
deriving DecidableEq, Repr

/-- The fields of an `irq_handler_t` that are not links. -/
structure HandlerFields where
  handler : UInt32 → UInt32
  data : UInt32 → UInt32

/-- The machine as the handlers see it: `frame` is what `r` points to, and `world` is everything
else that they may change. -/
structure IrqMachine (σ : Type) where
  irq : IrqState
  isr : InService
  frame : Regs
  world : σ
  log : List IrqAction

section Model

variable {σ : Type} (fields : HandlerFields)
  (effect : UInt32 → UInt32 → Regs × σ → Regs × σ)

/-- `ptr->handler(r, ptr->data)`. The function may do anything to the frame and to `world`. -/
def callHandler (ptr : UInt32) (s : IrqMachine σ) : IrqMachine σ :=
  let after := effect (fields.handler ptr) (fields.data ptr) (s.frame, s.world)
  { s with
    frame := after.1
    world := after.2
    log := s.log ++ [.call (fields.handler ptr) (fields.data ptr)] }

/-- The loop of `irq_handler`; `none` when it takes `fuel` rounds or more. -/
def handlerLoop : Nat → UInt32 → IrqMachine σ → Option (IrqMachine σ)
  | 0, _, _ => none
  | fuel + 1, ptr, s =>
      if ptr = 0 then some s
      else handlerLoop fuel (s.irq.next ptr) (callHandler fields effect ptr s)

def IrqMachine.outportb (s : IrqMachine σ) (port : UInt16) (data : UInt8) : IrqMachine σ :=
  { s with
    irq := { s.irq with pics := FrogOS.outportb s.irq.pics port data }
    isr := s.isr.command port data
    log := s.log ++ [.out port data] }

/-- `none` for an exception, after which the processor halts, and for a number behind the table.
The EOIs go by the number that the handlers leave in the frame. -/
def irqHandler (fuel : Nat) (s : IrqMachine σ) : Option (IrqMachine σ) :=
  if s.frame.intNo < 32 ∨ irqCount ≤ (s.frame.intNo - 32).toNat then none
  else do
    let s ← handlerLoop fields effect fuel (s.irq.irqHandlers (s.frame.intNo - 32).toNat) s
    let s := if s.frame.intNo ≥ 40 then s.outportb 0xA0 0x20 else s
    return s.outportb 0x20 0x20

/-- The entry code puts the number into the frame, next to the registers of the program. The gate
lets no other interrupt in before the handler returns. -/
def interrupt (fuel : Nat) (s : IrqMachine σ) (e : Interrupt × Regs) : Option (IrqMachine σ) :=
  irqHandler fields effect fuel
    { s with
      isr := e.1.accept s.isr
      frame := { e.2 with intNo := UInt32.ofNat e.1.vector } }

def interrupts (fuel : Nat) (s : IrqMachine σ) (events : List (Interrupt × Regs)) :
    Option (IrqMachine σ) :=
  events.foldlM (interrupt fields effect fuel) s

end Model

section Purpose

variable {σ : Type} (fields : HandlerFields)
  (effect : UInt32 → UInt32 → Regs × σ → Regs × σ) (handlers : Nat → List UInt32)

/-- What the handlers of a list leave of the frame and the rest. -/
def handled (list : List UInt32) (c : Regs × σ) : Regs × σ :=
  list.foldl (fun c h => effect (fields.handler h) (fields.data h) c) c

/-- What the handlers of an interrupt's line leave. -/
def afterHandlers (e : Interrupt × Regs) (world : σ) : Regs × σ :=
  handled fields effect (handlers (e.1.vector - 32))
    ({ e.2 with intNo := UInt32.ofNat e.1.vector }, world)

def eois (intNo : UInt32) : List IrqAction :=
  if intNo ≥ 40 then [.out 0xA0 0x20, .out 0x20 0x20] else [.out 0x20 0x20]

/-- For each interrupt every handler of the line in order, each with its own data, and behind them
the EOIs. -/
def dispatched : List (Interrupt × Regs) → σ → List IrqAction
  | [], _ => []
  | e :: events, world =>
      let after := afterHandlers fields effect handlers e world
      (handlers (e.1.vector - 32)).map (fun h => .call (fields.handler h) (fields.data h)) ++
        (eois after.1.intNo ++ dispatched events after.2)

/-- The handlers of the slave's lines leave a number of the slave in the frame. -/
def KeepsSlave : List (Interrupt × Regs) → σ → Prop
  | [], _ => True
  | e :: events, world =>
      let after := afterHandlers fields effect handlers e world
      (e.1.FromSlave → after.1.intNo ≥ 40) ∧ KeepsSlave events after.2

/-- The EOIs that go with a number, at the controllers. -/
def InService.ended (isr : InService) (intNo : UInt32) : InService :=
  (if intNo ≥ 40 then isr.command 0xA0 0x20 else isr).command 0x20 0x20

end Purpose

section Proofs

variable {σ : Type} (fields : HandlerFields)
  (effect : UInt32 → UInt32 → Regs × σ → Regs × σ)
  {s : IrqMachine σ} {handlers : Nat → List UInt32} {fuel : Nat}

/-- The loop runs through the chain and changes nothing that the controllers or the chains are
made of. -/
theorem handlerLoop_chain {ptr : UInt32} {list : List UInt32}
    (chain : Chain s.irq.next 0 ptr list) (enough : list.length < fuel) :
    ∃ s', handlerLoop fields effect fuel ptr s = some s' ∧ s'.irq = s.irq ∧ s'.isr = s.isr ∧
      (s'.frame, s'.world) = handled fields effect list (s.frame, s.world) ∧
      s'.log = s.log ++ list.map fun h => .call (fields.handler h) (fields.data h) := by
  induction list generalizing fuel ptr s with
  | nil =>
      obtain ⟨more, rfl⟩ := Nat.exists_eq_add_of_lt enough
      have null : ptr = 0 := chain
      refine ⟨s, ?_, rfl, rfl, rfl, ?_⟩
      · rw [handlerLoop, if_pos null]
      · rw [List.map_nil, List.append_nil]
  | cons h rest ih =>
      obtain ⟨start, nonnull, tail⟩ := chain
      cases fuel with
      | zero => exact absurd enough (Nat.not_lt_zero _)
      | succ fuel =>
          rw [List.length_cons] at enough
          have shorter : rest.length < fuel := by omega
          obtain ⟨s', done, irq, isr, left, log⟩ :=
            ih (s := callHandler fields effect h s) tail shorter
          rw [handlerLoop, start, if_neg nonnull]
          refine ⟨s', done, irq, isr, left, ?_⟩
          rw [log, List.map_cons]
          simp [callHandler]

/-- An EOI is no initialization word and no mask. -/
theorem outportb_eoi (p : Pics) : outportb p 0xA0 0x20 = p ∧ outportb p 0x20 0x20 = p :=
  ⟨rfl, rfl⟩

theorem vector_bounds (i : Interrupt) : 32 ≤ i.vector ∧ i.vector - 32 < irqCount := by
  unfold irqCount
  cases i with
  | line irq =>
      have bound := irq.isLt
      simp only [Interrupt.vector]
      split <;> omega
  | spuriousMaster => decide
  | spuriousSlave => decide
  | software => decide

/-- The number in the frame selects the line of the interrupt. -/
theorem vector_line (i : Interrupt) :
    ¬ UInt32.ofNat i.vector < 32 ∧ (UInt32.ofNat i.vector - 32).toNat = i.vector - 32 := by
  obtain ⟨low, high⟩ := vector_bounds i
  unfold irqCount at high
  have number : (UInt32.ofNat i.vector).toNat = i.vector :=
    UInt32.toNat_ofNat_of_lt' (by omega : i.vector < 2 ^ 32)
  have gate : 32 ≤ UInt32.ofNat i.vector := by
    rw [UInt32.le_iff_toNat_le, number]
    exact low
  refine ⟨UInt32.not_lt.mpr gate, ?_⟩
  rw [UInt32.toNat_sub_of_le _ _ gate, number]
  rfl

/-- On idle controllers the EOIs end an interrupt unless it is the slave's and its number is not. -/
theorem ended_idle_iff (i : Interrupt) (intNo : UInt32) :
    (i.accept .idle).ended intNo = .idle ↔ (i.FromSlave → intNo ≥ 40) := by
  have lines (high : Bool) : ∀ irq : Fin 16,
      (if high = true then ((Interrupt.line irq).accept .idle).command 0xA0 0x20
        else (Interrupt.line irq).accept .idle).command 0x20 0x20 = .idle ↔
      ((Interrupt.line irq).FromSlave → high = true) := by
    revert high
    decide +kernel
  cases i with
  | line irq => simpa [InService.ended] using lines (decide (intNo ≥ 40)) irq
  | _ =>
      unfold InService.ended
      split_ifs <;> simp [Interrupt.accept, Interrupt.FromSlave] <;> rfl

/-- One interrupt. -/
theorem interrupt_dispatched
    (chains : ∀ line < irqCount, Chain s.irq.next 0 (s.irq.irqHandlers line) (handlers line))
    (enough : ∀ line < irqCount, (handlers line).length < fuel) (e : Interrupt × Regs) :
    let after := afterHandlers fields effect handlers e s.world
    ∃ t, interrupt fields effect fuel s e = some t ∧ t.irq = s.irq ∧ t.world = after.2 ∧
      t.isr = (e.1.accept s.isr).ended after.1.intNo ∧
      t.log = s.log ++
        ((handlers (e.1.vector - 32)).map (fun h => .call (fields.handler h) (fields.data h)) ++
          eois after.1.intNo) := by
  intro after
  obtain ⟨-, inside⟩ := vector_bounds e.1
  obtain ⟨gate, line⟩ := vector_line e.1
  obtain ⟨t, done, irq, isr, left, log⟩ := handlerLoop_chain fields effect
    (s := { s with
      isr := e.1.accept s.isr
      frame := { e.2 with intNo := UInt32.ofNat e.1.vector } })
    (chains _ inside) (enough _ inside)
  have frame : t.frame = after.1 := congrArg Prod.fst left
  have world : t.world = after.2 := congrArg Prod.snd left
  rw [interrupt, irqHandler]
  simp only [line]
  rw [if_neg (not_or.mpr ⟨gate, Nat.not_le.mpr inside⟩), done]
  rw [← frame, ← world]
  by_cases slave : t.frame.intNo ≥ 40
  · refine ⟨_, rfl, ?_, ?_, ?_, ?_⟩ <;>
      simp [slave, IrqMachine.outportb, irq, isr, log, outportb_eoi, InService.ended, eois]
  · refine ⟨_, rfl, ?_, ?_, ?_, ?_⟩ <;>
      simp [slave, IrqMachine.outportb, irq, isr, log, outportb_eoi, InService.ended, eois]

theorem interrupts_dispatched
    (chains : ∀ line < irqCount, Chain s.irq.next 0 (s.irq.irqHandlers line) (handlers line))
    (enough : ∀ line < irqCount, (handlers line).length < fuel)
    (events : List (Interrupt × Regs)) :
    ∃ s', interrupts fields effect fuel s events = some s' ∧ s'.irq = s.irq ∧
      s'.log = s.log ++ dispatched fields effect handlers events s.world := by
  induction events generalizing s with
  | nil =>
      refine ⟨s, rfl, rfl, ?_⟩
      rw [dispatched, List.append_nil]
  | cons e rest ih =>
      obtain ⟨t, first, irq, world, -, log⟩ :=
        interrupt_dispatched fields effect chains enough e
      rw [← irq] at chains
      obtain ⟨s', done, irq', log'⟩ := ih chains
      refine ⟨s', ?_, irq'.trans irq, ?_⟩
      · rw [interrupts, List.foldlM_cons, first]
        exact done
      · rw [log', log, world, dispatched]
        simp only [List.append_assoc]

/-- The controllers are idle after each interrupt, or stay busy behind the first that took the
slave's number away. -/
theorem interrupts_idle_iff
    (chains : ∀ line < irqCount, Chain s.irq.next 0 (s.irq.irqHandlers line) (handlers line))
    (idle : s.isr = .idle) (enough : ∀ line < irqCount, (handlers line).length < fuel)
    (events : List (Interrupt × Regs)) :
    (∀ front, front <+: events →
      ∃ t, interrupts fields effect fuel s front = some t ∧ t.isr = .idle) ↔
      KeepsSlave fields effect handlers events s.world := by
  induction events generalizing s with
  | nil =>
      refine ⟨fun _ => trivial, ?_⟩
      rintro - front empty
      rw [List.prefix_nil.mp empty]
      exact ⟨s, rfl, idle⟩
  | cons e rest ih =>
      obtain ⟨t, first, irq, world, isr, -⟩ := interrupt_dispatched fields effect chains enough e
      have step (front : List (Interrupt × Regs)) :
          interrupts fields effect fuel s (e :: front) =
            interrupts fields effect fuel t front := by
        rw [interrupts, List.foldlM_cons, first]
        rfl
      rw [idle] at isr
      rw [← irq] at chains
      rw [KeepsSlave, ← world, ← ended_idle_iff, ← isr]
      constructor
      · intro all
        obtain ⟨t', reached, ended⟩ := all [e] (List.prefix_append [e] rest)
        rw [step] at reached
        cases reached
        refine ⟨ended, (ih chains ended).mp fun front starts => ?_⟩
        rw [← step]
        exact all (e :: front) (List.cons_prefix_cons.mpr ⟨rfl, starts⟩)
      · rintro ⟨ended, later⟩ front starts
        cases front with
        | nil => exact ⟨s, rfl, idle⟩
        | cons e' front =>
            obtain ⟨rfl, shorter⟩ := List.cons_prefix_cons.mp starts
            rw [step]
            exact (ih chains ended).mpr later front shorter

end Proofs

/-- Whatever interrupts come in whatever order, and whatever the handlers do to the frame: each
interrupt runs every handler of its line once, in the order of the chain, which is most recently
installed first, and only then ends the interrupt. The controllers are idle after every one exactly
if no handlers of a line of the slave leave a number below the slave's in the frame. -/
theorem every_interrupt_is_dispatched {σ : Type} (fields : HandlerFields)
    (effect : UInt32 → UInt32 → Regs × σ → Regs × σ) (s : IrqMachine σ)
    (handlers : Nat → List UInt32)
    (chains : ∀ line < irqCount, Chain s.irq.next 0 (s.irq.irqHandlers line) (handlers line))
    (idle : s.isr = .idle) (fuel : Nat)
    (enough : ∀ line < irqCount, (handlers line).length < fuel)
    (events : List (Interrupt × Regs)) :
    (∃ s', interrupts fields effect fuel s events = some s' ∧ s'.irq = s.irq ∧
      s'.log = s.log ++ dispatched fields effect handlers events s.world) ∧
    ((∀ front, front <+: events →
      ∃ t, interrupts fields effect fuel s front = some t ∧ t.isr = .idle) ↔
      KeepsSlave fields effect handlers events s.world) ∧
    (∀ line < irqCount, (handlers line).Nodup) ∧
    ∀ pics next ops, Proper ops → irqRun (ops.length + 1) (irqStart pics next) ops = some s.irq →
      ∀ line < irqCount, handlers line = installed ops line := by
  refine ⟨interrupts_dispatched fields effect chains enough events,
    interrupts_idle_iff fields effect chains idle enough events, ?_, ?_⟩
  · exact fun line inside => (chains line inside).nodup
  · intro pics next ops proper ran line inside
    obtain ⟨t, done, inv⟩ := irqRun_inv pics next proper (Nat.lt_succ_self ops.length)
    have same : t = s.irq := Option.some.inj (done.symm.trans ran)
    have chain := inv.chain line inside
    rw [same] at chain
    exact (chains line inside).unique chain

/-- The registers of a program. -/
def someRegs : Regs := ⟨0, 0, 16, 16, 1, 2, 3, 4, 5, 6, 7, 8, 0, 0, 0x1000, 8, 0x202, 0, 0⟩

/-- Handlers that put an answer into the frame. -/
def answering (_handler _data : UInt32) (c : Regs × Unit) : Regs × Unit :=
  ({ c.1 with eax := 1 }, c.2)

/-- The timer, the slave's last line for real and spuriously, and a system call. -/
def timerEvents : List (Interrupt × Regs) :=
  [(.line 0, someRegs), (.line 15, someRegs), (.spuriousSlave, someRegs), (.software, someRegs)]

theorem timer_interrupts_are_dispatched :
    ∃ s : IrqMachine Unit,
      irqRun 5 (irqStart ⟨⟨0, 0⟩, ⟨0, 0⟩⟩ fun _ => 0) timerOps = some s.irq ∧
      (∃ s', interrupts ⟨id, fun _ => 0⟩ answering 5 s timerEvents = some s' ∧ s'.irq = s.irq ∧
        s'.log = [.call 0xC0110020 0, .out 0x20 0x20, .out 0xA0 0x20, .out 0x20 0x20,
          .out 0xA0 0x20, .out 0x20 0x20, .call 0xC0110010 0, .out 0xA0 0x20, .out 0x20 0x20]) ∧
      (∀ front, front <+: timerEvents →
        ∃ t, interrupts ⟨id, fun _ => 0⟩ answering 5 s front = some t ∧ t.isr = .idle) ∧
      ∀ line < irqCount, (installed timerOps line).Nodup := by
  obtain ⟨irq, ran, inv⟩ := irqRun_inv ⟨⟨0, 0⟩, ⟨0, 0⟩⟩ (fun _ => 0) timerOps_proper
    (show timerOps.length < 5 by decide)
  have short (line : Nat) (_ : line < irqCount) : (installed timerOps line).length < 5 :=
    Nat.lt_of_le_of_lt (installed_length_le timerOps line) (by decide)
  have keeps : KeepsSlave ⟨id, fun _ => 0⟩ answering (installed timerOps) timerEvents () :=
    ⟨by decide, by decide, by decide, by decide, trivial⟩
  obtain ⟨runs, idle, distinct, -⟩ := every_interrupt_is_dispatched ⟨id, fun _ => 0⟩ answering
    ⟨irq, .idle, someRegs, (), []⟩ (installed timerOps) (fun line inside => inv.chain line inside)
    rfl 5 short timerEvents
  exact ⟨⟨irq, .idle, someRegs, (), []⟩, ran, runs, idle.mpr keeps, distinct⟩

/-- A handler of line 12 that lowers the number in the frame leaves the slave's line in service. -/
theorem lowered_number_blocks_slave :
    ∃ (s : IrqMachine Unit) (handlers : Nat → List UInt32),
      (∀ line < irqCount, Chain s.irq.next 0 (s.irq.irqHandlers line) (handlers line)) ∧
      s.isr = .idle ∧
      ∃ s', interrupts ⟨id, fun _ => 0⟩ (fun _ _ c => ({ c.1 with intNo := 32 }, c.2)) 2 s
        [(.line 12, someRegs)] = some s' ∧ s'.isr = ⟨0, 0x10⟩ := by
  refine ⟨⟨⟨fun line => if line = 12 then 0x1000 else 0, fun _ => 0, ⟨⟨0, 0⟩, ⟨0, 0⟩⟩⟩, .idle,
    someRegs, (), []⟩, fun line => if line = 12 then [0x1000] else [], ?_, rfl, _, rfl, rfl⟩
  intro line _
  dsimp only
  split_ifs
  · exact ⟨rfl, by decide, rfl⟩
  · rfl

end FrogOS.IrqDispatch
