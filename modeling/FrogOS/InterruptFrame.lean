import FrogOS.X86Stack

set_option autoImplicit false

namespace FrogOS

open ByteMemory X86Stack

/-- The macro `INTERRUPT`, for an interrupt that comes without an error code. -/
def interrupt (id : UInt32) : List Instr := [.cli, .pushImm 0, .pushImm id]

/-- The macro `INTERRUPT_WITH_ERROR`. -/
def interruptWithError (id : UInt32) : List Instr := [.cli, .pushImm id]

/-- The entries `irq0` to `irq48`. -/
def irqEntries : List (List Instr) :=
  [interrupt 0, interrupt 1, interrupt 2, interrupt 3, interrupt 4, interrupt 5, interrupt 6,
    interrupt 7, interruptWithError 8, interrupt 9, interruptWithError 10, interruptWithError 11,
    interruptWithError 12, interruptWithError 13, interruptWithError 14, interrupt 15,
    interrupt 16, interrupt 17, interrupt 18, interrupt 19, interrupt 20, interrupt 21,
    interrupt 22, interrupt 23, interrupt 24, interrupt 25, interrupt 26, interrupt 27,
    interrupt 28, interrupt 29, interrupt 30, interrupt 31, interrupt 32, interrupt 33,
    interrupt 34, interrupt 35, interrupt 36, interrupt 37, interrupt 38, interrupt 39,
    interrupt 40, interrupt 41, interrupt 42, interrupt 43, interrupt 44, interrupt 45,
    interrupt 46, interrupt 47, interrupt 48]

def irqEntry (vector : Fin 49) : List Instr := irqEntries.getD vector []

/-- `irq_stub` up to its call of `irq_handler`. -/
def irqStub (irqHandler : UInt32) : List Instr :=
  [.pushal, .pushSeg .ds, .pushSeg .es, .pushSeg .fs, .pushSeg .gs,
    .movImm .eax 0x10, .movSeg .ds .eax, .movSeg .es .eax, .movSeg .fs .eax, .movSeg .gs .eax,
    .movReg .eax .esp, .pushReg .eax, .movImm .eax irqHandler]

/-- `irq_stub` from the return of `irq_handler` on. -/
def irqReturn : List Instr :=
  [.popReg .eax, .popSeg .gs, .popSeg .fs, .popSeg .es, .popSeg .ds, .popal, .addImm .esp 8, .iret]

/-- `struct regs`. -/
structure Regs where
  (gs fs es ds : UInt32)
  (edi esi ebp esp ebx edx ecx eax : UInt32)
  (intNo errCode : UInt32)
  (eip cs eflags useresp ss : UInt32)

def loadRegs (m : Mem) (r : UInt32) : Regs where
  gs := load32 m (wordAt r 0)
  fs := load32 m (wordAt r 1)
  es := load32 m (wordAt r 2)
  ds := load32 m (wordAt r 3)
  edi := load32 m (wordAt r 4)
  esi := load32 m (wordAt r 5)
  ebp := load32 m (wordAt r 6)
  esp := load32 m (wordAt r 7)
  ebx := load32 m (wordAt r 8)
  edx := load32 m (wordAt r 9)
  ecx := load32 m (wordAt r 10)
  eax := load32 m (wordAt r 11)
  intNo := load32 m (wordAt r 12)
  errCode := load32 m (wordAt r 13)
  eip := load32 m (wordAt r 14)
  cs := load32 m (wordAt r 15)
  eflags := load32 m (wordAt r 16)
  useresp := load32 m (wordAt r 17)
  ss := load32 m (wordAt r 18)

section Stub

variable {s t : Machine} {slots : List Slot} (clears : Bool)

/-- What `irq_stub` saves. -/
def saved (c : Cpu) (esp : UInt32) : List Slot :=
  [.selector (c.seg .gs), .selector (c.seg .fs), .selector (c.seg .es), .selector (c.seg .ds),
    .word (c.reg .edi), .word (c.reg .esi), .word (c.reg .ebp), .word esp, .word (c.reg .ebx),
    .word (c.reg .edx), .word (c.reg .ecx), .word (c.reg .eax)]

/-- What follows the pushes of `irq_stub` passes the stack pointer. -/
theorem kernel_segments (irqHandler : UInt32) (v : Machine) :
    let u := run clears ((irqStub irqHandler).drop 5) v
    u.esp = v.esp - 4 ∧ u.mem = store32 v.mem (v.esp - 4).toNat v.esp := by
  simp only [irqStub, List.drop_succ_cons, List.drop_zero, run, List.foldl_cons, List.foldl_nil,
    step, Machine.push, Machine.esp, Machine.setReg, Machine.setSeg, Cpu.setReg, Cpu.setSeg,
    Function.update_self, Function.update_of_ne, ne_eq, reduceCtorEq, not_false_eq_true, and_self]

theorem saves_registers (irqHandler : UInt32) (pushed : Pushed s slots t)
    (short : slots.length < 2 ^ 28) :
    Pushed s (saved s.cpu t.esp ++ slots) (run clears ((irqStub irqHandler).take 5) t) := by
  have ds := (pushed.pushal short).segment clears .ds (by simp; omega)
  have es := ds.segment clears .es (by simp; omega)
  have fs := es.segment clears .fs (by simp; omega)
  exact fs.segment clears .gs (by simp; omega)

/-- At the call the argument points to what is saved above it. -/
theorem irqStub_calls (irqHandler : UInt32) (pushed : Pushed s slots t)
    (short : slots.length < 2 ^ 28) :
    (run clears (irqStub irqHandler) t).esp = s.esp - 4 * UInt32.ofNat (slots.length + 13) ∧
      Stacked (run clears (irqStub irqHandler) t).mem (run clears (irqStub irqHandler) t).esp
        (.word ((run clears (irqStub irqHandler) t).esp + 4) :: (saved s.cpu t.esp ++ slots)) := by
  have parts : run clears (irqStub irqHandler) t = run clears ((irqStub irqHandler).drop 5)
      (run clears ((irqStub irqHandler).take 5) t) := by
    rw [run, run, run, ← List.foldl_append, List.take_append_drop]
  have saves := saves_registers clears irqHandler pushed short
  obtain ⟨esp, mem⟩ := kernel_segments clears irqHandler
    (run clears ((irqStub irqHandler).take 5) t)
  have length : (saved s.cpu t.esp ++ slots).length + 1 = slots.length + 13 := by
    have count : (saved s.cpu t.esp).length = 12 := rfl
    rw [List.length_append, count]
    omega
  rw [parts, esp, mem, UInt32.sub_add_cancel]
  constructor
  · rw [saves.esp, Pushed.lower, length]
  · exact saves.stack.push (store32_frame _ _ _) (load32_store32 _ _ _) (by omega)

/-- The registers after the return. -/
theorem irqReturn_cpu (t : Machine) :
    (run clears irqReturn t).cpu =
      { reg := fun
          | .edi => t.word 5
          | .esi => t.word 6
          | .ebp => t.word 7
          | .esp => t.esp + 72
          | .ebx => t.word 9
          | .edx => t.word 10
          | .ecx => t.word 11
          | .eax => t.word 12
        seg := fun
          | .gs => (t.word 1).toUInt16
          | .fs => (t.word 2).toUInt16
          | .es => (t.word 3).toUInt16
          | .ds => (t.word 4).toUInt16
        eip := t.word 15
        cs := (t.word 16).toUInt16
        eflags := t.word 17 } := by
  have one (esp : UInt32) (k : Nat) : wordAt (esp + 4) k = wordAt esp (1 + k) :=
    wordAt_add esp 4 k 1 rfl
  have two (esp : UInt32) (k : Nat) : wordAt (esp + 8) k = wordAt esp (2 + k) :=
    wordAt_add esp 8 k 2 rfl
  have eight (esp : UInt32) (k : Nat) : wordAt (esp + 32) k = wordAt esp (8 + k) :=
    wordAt_add esp 32 k 8 rfl
  have total (esp : UInt32) : esp + 4 + 4 + 4 + 4 + 4 + 32 + 8 + 12 = esp + 72 := by
    grind
  simp only [run, irqReturn, List.foldl_cons, List.foldl_nil, step, Machine.popal, Machine.iret,
    Machine.word, Machine.esp, Machine.setReg, Machine.setSeg, Cpu.setReg, Cpu.setSeg,
    Function.update_self, Function.update_of_ne, ne_eq, reduceCtorEq, not_false_eq_true,
    one, two, eight, total, Nat.reduceAdd, Cpu.mk.injEq, and_self, and_true]
  constructor
  · funext r
    cases r <;> rfl
  · funext g
    cases g <;> rfl

end Stub

/-- The vectors for which the processor pushes an error code. -/
def pushesError (vector : Fin 49) : Bool :=
  vector = 8 || 10 ≤ vector && vector ≤ 14 || vector = 17

/-- The error code that comes with an interrupt, if any. -/
def pushedCode (vector : Fin 49) (error : UInt32) : Option UInt32 :=
  if pushesError vector then some error else none

/-- The machine when the interrupt `vector` calls `irq_handler`. -/
def atCall (clears : Bool) (gate : Gate) (irqHandler : UInt32) (vector : Fin 49) (error : UInt32)
    (s : Machine) : Machine :=
  run clears (irqEntry vector ++ irqStub irqHandler)
    (deliver clears gate (pushedCode vector error) s)

/-- The argument of a function at its call. -/
def argument (t : Machine) : UInt32 := t.word 0

/-- The frame of an interrupt shows the interrupted registers. -/
structure FrameMatches (c : Cpu) (vector : Fin 49) (code : UInt32) (r : Regs) : Prop where
  intNo : r.intNo = UInt32.ofNat vector
  errCode : r.errCode = code
  eip : r.eip = c.eip
  cs : r.cs.toUInt16 = c.cs
  eflags : r.eflags = c.eflags
  edi : r.edi = c.reg .edi
  esi : r.esi = c.reg .esi
  ebp : r.ebp = c.reg .ebp
  ebx : r.ebx = c.reg .ebx
  edx : r.edx = c.reg .edx
  ecx : r.ecx = c.reg .ecx
  eax : r.eax = c.reg .eax
  ds : r.ds.toUInt16 = c.seg .ds
  es : r.es.toUInt16 = c.seg .es
  fs : r.fs.toUInt16 = c.seg .fs
  gs : r.gs.toUInt16 = c.seg .gs

/-- `irq_handler` came back and left the frame as it was. All else it may have changed, its
argument, which the stub pops, included. -/
structure Returned (t t' : Machine) : Prop where
  esp : t'.esp = t.esp
  frame : ∀ k, k < 17 →
    load32 t'.mem (wordAt (argument t) k) = load32 t.mem (wordAt (argument t) k)

/-- An interrupt is passed on as it is and leaves no trace. -/
structure Transparent (clears : Bool) (gate : Gate) (irqHandler : UInt32) (vector : Fin 49)
    (error : UInt32) (s : Machine) : Prop where
  frame : FrameMatches s.cpu vector ((pushedCode vector error).getD 0)
    (loadRegs (atCall clears gate irqHandler vector error s).mem
      (argument (atCall clears gate irqHandler vector error s)))
  resumes : ∀ t', Returned (atCall clears gate irqHandler vector error s) t' →
    (run clears irqReturn t').cpu = s.cpu

section Vectors

variable (clears : Bool) (gate : Gate) (irqHandler error : UInt32) (s : Machine) {vector : Fin 49}

/-- What an interrupt without a missing or superfluous word has on the stack. -/
def frameSlots (c : Cpu) (vector : Fin 49) (code : UInt32) (esp : UInt32) : List Slot :=
  saved c esp ++
    [.word (UInt32.ofNat vector), .word code, .word c.eip, .selector c.cs, .word c.eflags]

theorem irqEntry_cases (vector : Fin 49) :
    pushesError vector = false ∧ irqEntry vector = interrupt (UInt32.ofNat vector) ∨
      pushesError vector = true ∧ irqEntry vector = interruptWithError (UInt32.ofNat vector) ∨
      vector = 17 := by
  revert vector
  decide

/-- The entries of the other vectors fill the frame up to its error code. -/
theorem entry_frame (other : vector ≠ 17) :
    Pushed s [.word (UInt32.ofNat vector), .word ((pushedCode vector error).getD 0),
      .word s.cpu.eip, .selector s.cpu.cs, .word s.cpu.eflags]
      (run clears (irqEntry vector) (deliver clears gate (pushedCode vector error) s)) := by
  have delivered := Pushed.deliver clears gate (pushedCode vector error) s
  rcases irqEntry_cases vector with ⟨bare, entry⟩ | ⟨coded, entry⟩ | excluded
  · have none : pushedCode vector error = none := by simp [pushedCode, bare]
    rw [none] at delivered ⊢
    rw [entry]
    exact ((delivered.cli clears).word 0 (by simp)).word _ (by simp)
  · have some : pushedCode vector error = some error := by simp [pushedCode, coded]
    rw [some] at delivered ⊢
    rw [entry]
    exact (delivered.cli clears).word _ (by simp)
  · exact absurd excluded other

/-- Vector 17 has the zero of `INTERRUPT` on top of its error code. -/
theorem entry_shifted :
    Pushed s [.word 17, .word 0, .word error, .word s.cpu.eip, .selector s.cpu.cs,
      .word s.cpu.eflags]
      (run clears (irqEntry 17) (deliver clears gate (pushedCode 17 error) s)) :=
  (((Pushed.deliver clears gate (pushedCode 17 error) s).cli clears).word 0
    (by simp [pushedCode, pushesError])).word 17 (by simp [pushedCode, pushesError])

/-- All that `irq_handler` gets, and what lies below it. -/
theorem atCall_frame (other : vector ≠ 17) :
    ∃ esp, (atCall clears gate irqHandler vector error s).esp = s.esp - 72 ∧
      Stacked (atCall clears gate irqHandler vector error s).mem
        (atCall clears gate irqHandler vector error s).esp
        (.word ((atCall clears gate irqHandler vector error s).esp + 4) ::
          frameSlots s.cpu vector ((pushedCode vector error).getD 0) esp) := by
  have calls := irqStub_calls clears irqHandler (entry_frame clears gate error s other) (by simp)
  have parts : atCall clears gate irqHandler vector error s = run clears (irqStub irqHandler)
      (run clears (irqEntry vector) (deliver clears gate (pushedCode vector error) s)) := by
    rw [atCall, run, List.foldl_append]
    rfl
  rw [parts]
  exact ⟨_, calls.1, calls.2⟩

theorem argument_of_stacked {t : Machine} {slots : List Slot}
    (stacked : Stacked t.mem t.esp (.word (t.esp + 4) :: slots)) : argument t = t.esp + 4 :=
  stacked.word (k := 0) rfl

theorem frame_matches {m : Mem} {r esp code : UInt32} {c : Cpu}
    (stacked : Stacked m r (frameSlots c vector code esp)) :
    FrameMatches c vector code (loadRegs m r) where
  intNo := stacked.word (k := 12) rfl
  errCode := stacked.word (k := 13) rfl
  eip := stacked.word (k := 14) rfl
  cs := stacked.selector (k := 15) rfl
  eflags := stacked.word (k := 16) rfl
  edi := stacked.word (k := 4) rfl
  esi := stacked.word (k := 5) rfl
  ebp := stacked.word (k := 6) rfl
  ebx := stacked.word (k := 8) rfl
  edx := stacked.word (k := 9) rfl
  ecx := stacked.word (k := 10) rfl
  eax := stacked.word (k := 11) rfl
  ds := stacked.selector (k := 3) rfl
  es := stacked.selector (k := 2) rfl
  fs := stacked.selector (k := 1) rfl
  gs := stacked.selector (k := 0) rfl

/-- From the frame the interrupted registers come back, whatever is below it. -/
theorem return_restores {t : Machine} {esp code : UInt32} {c : Cpu}
    (above : c.reg .esp = t.esp + 72)
    (stacked : Stacked t.mem (t.esp + 4) (frameSlots c vector code esp)) :
    (run clears irqReturn t).cpu = c := by
  have place (k : Nat) : wordAt t.esp (1 + k) = wordAt (t.esp + 4) k :=
    (wordAt_add t.esp 4 k 1 rfl).symm
  have word (k : Nat) (value : UInt32)
      (found : (frameSlots c vector code esp)[k]? = some (.word value)) :
      t.word (1 + k) = value := by
    rw [Machine.word, place]
    exact stacked.word found
  have selector (k : Nat) (value : UInt16)
      (found : (frameSlots c vector code esp)[k]? = some (.selector value)) :
      (t.word (1 + k)).toUInt16 = value := by
    rw [Machine.word, place]
    exact stacked.selector found
  rw [irqReturn_cpu]
  cases c with
  | mk reg seg cs eip eflags =>
      rw [Cpu.mk.injEq]
      refine ⟨?_, ?_, selector 15 cs rfl, word 14 eip rfl, word 16 eflags rfl⟩
      · funext r
        cases r with
        | eax => exact word 11 _ rfl
        | ecx => exact word 10 _ rfl
        | edx => exact word 9 _ rfl
        | ebx => exact word 8 _ rfl
        | esp => exact above.symm
        | ebp => exact word 6 _ rfl
        | esi => exact word 5 _ rfl
        | edi => exact word 4 _ rfl
      · funext g
        cases g with
        | ds => exact selector 3 _ rfl
        | es => exact selector 2 _ rfl
        | fs => exact selector 1 _ rfl
        | gs => exact selector 0 _ rfl

/-- The frame of 17 words is all that has to be left alone. -/
theorem Returned.stacked {t t' : Machine} {esp code : UInt32} {c : Cpu} (returned : Returned t t')
    (stacked : Stacked t.mem t.esp (.word (t.esp + 4) :: frameSlots c vector code esp)) :
    Stacked t'.mem (t'.esp + 4) (frameSlots c vector code esp) := by
  have frame := returned.frame
  rw [argument_of_stacked stacked] at frame
  intro k slot found
  have inside : k < 17 := (List.getElem?_eq_some_iff.mp found).1
  rw [returned.esp]
  exact (stacked.pop k slot found).same (frame k inside)

theorem other_vectors_transparent (other : vector ≠ 17) :
    Transparent clears gate irqHandler vector error s := by
  obtain ⟨esp, low, stacked⟩ := atCall_frame clears gate irqHandler error s other
  constructor
  · rw [argument_of_stacked stacked]
    exact frame_matches stacked.pop
  · intro t' returned
    apply return_restores clears _ (returned.stacked stacked)
    rw [returned.esp, low, UInt32.sub_add_cancel]
    rfl

/-- After an alignment check the stack pointer comes back a word too low. -/
theorem alignment_check_esp :
    (run clears irqReturn (atCall clears gate irqHandler 17 error s)).cpu.reg .esp =
      s.esp - 4 := by
  have calls := irqStub_calls clears irqHandler (entry_shifted clears gate error s) (by simp)
  have parts : atCall clears gate irqHandler 17 error s = run clears (irqStub irqHandler)
      (run clears (irqEntry 17) (deliver clears gate (pushedCode 17 error) s)) := by
    rw [atCall, run, List.foldl_append]
    rfl
  rw [irqReturn_cpu]
  change (atCall clears gate irqHandler 17 error s).esp + 72 = _
  rw [parts, calls.1]
  change s.esp - 76 + 72 = _
  grind

theorem alignment_check_not_transparent :
    ¬ Transparent clears gate irqHandler 17 error s := by
  intro transparent
  have resumed := transparent.resumes _ ⟨rfl, fun _ _ => rfl⟩
  have low := alignment_check_esp clears gate irqHandler error s
  rw [resumed] at low
  have value := congrArg UInt32.toNat low
  change s.esp.toNat = _ at value
  rw [UInt32.toNat_sub, show (4 : UInt32).toNat = 4 from rfl] at value
  omega

end Vectors

/-- An interrupt is transparent unless its vector is 17: the processor pushes an error code and the
entry a zero besides. -/
theorem interrupt_transparent_iff (clears : Bool) (gate : Gate) (irqHandler : UInt32)
    (vector : Fin 49) (error : UInt32) (s : Machine) :
    Transparent clears gate irqHandler vector error s ↔ vector ≠ 17 := by
  constructor
  · rintro transparent rfl
    exact alignment_check_not_transparent clears gate irqHandler error s transparent
  · exact other_vectors_transparent clears gate irqHandler error s

/-- A kernel at 1 MiB with its stack below 2 MiB. -/
def runningKernel : Machine where
  cpu := {
    reg := fun r => if r = .esp then 0x200000 else 0
    seg := fun _ => 0x10
    cs := 8
    eip := 0x100000
    eflags := 0x40202 }
  mem := fun _ => 0

/-- With an alignment check it goes on 4 bytes below its stack pointer. -/
theorem kernel_alignment_check_not_transparent :
    ¬ Transparent true ⟨8, 0x100100⟩ 0x100200 17 0 runningKernel :=
  alignment_check_not_transparent true ⟨8, 0x100100⟩ 0x100200 0 runningKernel

end FrogOS
