import FrogOS.MainLoop
import FrogOS.Net
import FrogOS.Reports

set_option autoImplicit false

namespace FrogOS

open ByteMemory BoundedAccess LinkedChain Numeral Printf Console

/-- The texts that the main loop hands to `puts`. -/
def putsTexts : List String := ["Pause\n", "Print Screen\n", "Halting:", "Divide by zero:"]

/-- Where the linker has put the texts for `puts` and the buffer of `eth_ntoa`, and an address on
the stack. -/
structure Image where
  strings : Mem
  literal : String → UInt32
  literals : ∀ t ∈ putsTexts, characters strings (literal t) = asciiText t
  stack : UInt32
  onStack : stack ≠ 0
  buff : UInt32
  present : buff ≠ 0
  room : buff.toNat + 18 ≤ 2 ^ 32

/-- A frame in the memory, with the length that its descriptor gives. -/
structure ReceivedFrame where
  mem : Mem
  frame : UInt32
  len : UInt16

/-- What a step of the main program finds. -/
structure Kernel where
  heap : Heap
  net : NetTable
  /-- What `net_process` finds in the receive rings of the cards that need work. -/
  frames : List ReceivedFrame
  /-- The memory from `multiboot_info` on. -/
  info : Mem
  /-- A bound on the rounds of the loops of `print_info`. -/
  rounds : Nat
  kernelStart : UInt32
  kernelEnd : UInt32
  multibootInfo : UInt32
  /-- `tsc1` and `tsc2`, which the asm statement reads, but does not set. -/
  tsc1 : UInt32
  tsc2 : UInt32
  /-- The word at `0x46c`. -/
  biosTicks : UInt32
  pitCounter : UInt64

/-- The main loop and the screen. -/
structure Shell where
  loop : MainLoop
  screen : Console

inductive ShellFault
  | decode (fault : DecodeFault)
  | screen (fault : Fault)

/-- A byte of the keyboard, an interrupt of the card with what its handler reads, or a step of the
main program with what it finds. Interrupts come between two texts. -/
inductive ShellAction
  | byte (c : UInt8)
  | card (csr0 : UInt32) (pitCounter : UInt64)
  | work (k : Kernel)

/-- What is for the main loop itself. -/
def ShellAction.loop : ShellAction → Option LoopAction
  | byte c => some (.byte c)
  | card _ _ => none
  | work _ => some .work

/-- What may print: a command, a received frame, an interrupt of the card. -/
inductive Output
  | command (k : Kernel) (effect : Effect)
  | frame (received : ReceivedFrame)
  | interrupt (csr0 : UInt32) (pitCounter : UInt64)

def Output.effect : Output → Option Effect
  | command _ effect => some effect
  | _ => none

section Functions

variable (floats : FloatText) (image : Image)

def perform (k : Kernel) (s : Console) : Effect → Except Fault Console
  | .text t =>
      if t = "Rebooting\n" then s.printf floats image.strings image.stack (asciiText t) []
      else s.puts image.strings (image.literal t)
  | .putch c => s.putch c
  | .time => do
      let s ← s.printf floats image.strings image.stack (asciiText "%lu %lu %lu\n")
        [k.tsc1, k.tsc2, k.biosTicks]
      s.printf floats image.strings image.stack (asciiText "%llu\n")
        [k.pitCounter.toUInt32, (k.pitCounter >>> 32).toUInt32]
  -- `irq48_handler`, which `cmain` installs, with the registers that the asm statement loads.
  | .syscall =>
      s.printf floats image.strings image.stack (asciiText "SYSCALL: %x%x\n") [0xDEAD, 0xBEEF]
  | .printMem => printMem floats image.strings image.stack k.heap s
  | .netPrintStats => netPrintStats floats image.strings image.stack k.net s
  | .printInfo =>
      printInfoOn floats image.strings image.stack k.info k.rounds k.kernelStart k.kernelEnd
        k.multibootInfo s
  | .reset | .halt | .divide | .cli => .ok s

/-- `ether_process_frame` on the console. The branches for IPv4 and ARP print nothing. -/
def etherProcessFrameOn (f : ReceivedFrame) (s : Console) : Except Fault Console := do
  let type := ntohs (load16 f.mem (f.frame.toNat + 12))
  if type < 1536 then return s
  if type = 0x0842 then
    let (_, s) ← wakeOnLan floats image.buff image.stack f.frame f.len f.mem s
    return s
  else return s

/-- `pcnet32_irq_handler` on the console. -/
def pcnet32IrqHandlerOn (csr0 : UInt32) (pitCounter : UInt64) (s : Console) :
    Except Fault Console :=
  if csr0 &&& 0x600 ≠ 0 then .ok s
  else
    s.printf floats image.strings image.stack (asciiText "hmm... %lld csr0: %x\n")
      [pitCounter.toUInt32, (pitCounter >>> 32).toUInt32, csr0]

def Output.print (s : Console) : Output → Except Fault Console
  | command k effect => perform floats image k s effect
  | frame received => etherProcessFrameOn floats image received s
  | interrupt csr0 pitCounter => pcnet32IrqHandlerOn floats image csr0 pitCounter s

namespace MainLoop

def follow (s : MainLoop) (action : ShellAction) : Except DecodeFault MainLoop :=
  match action.loop with
  | some action => s.next action
  | none => .ok s

/-- What prints in one step. Where no key is left, the main program goes through `hlt` and
`net_process` back to the condition. -/
def prints (s : MainLoop) : ShellAction → List Output
  | .byte _ => []
  | .card csr0 pitCounter => [.interrupt csr0 pitCounter]
  | .work k =>
      match s.phase with
      | .loop => if kbdIsempty s.kbd.queue then k.frames.map .frame else []
      | .switch c => (serve c).map (.command k)
      | _ => []

/-- What prints in a run. -/
def printed : MainLoop → List ShellAction → List Output
  | _, [] => []
  | s, action :: rest =>
      s.prints action ++
        match s.follow action with
        | .ok t => t.printed rest
        | .error _ => []

end MainLoop

namespace Shell

def next (s : Shell) (action : ShellAction) : Except ShellFault Shell := do
  let loop ← (s.loop.follow action).mapError .decode
  let screen ←
    ((s.loop.prints action).foldlM (Output.print floats image) s.screen).mapError .screen
  return ⟨loop, screen⟩

def run (s : Shell) (actions : List ShellAction) : Except ShellFault Shell :=
  actions.foldlM (next floats image) s

end Shell

end Functions

/-- A line of the two that show the time. -/
inductive TimeLine
  | words (tsc1 tsc2 biosTicks : UInt32)
  | ticks (pitCounter : UInt64)
deriving DecidableEq, Repr

def timeForms : List (Form TimeLine) :=
  [⟨(parse (asciiText "%lu %lu %lu\n")).1, fun numbers =>
      match numbers with
      | [a, b, c] => some (.words (UInt32.ofInt a) (UInt32.ofInt b) (UInt32.ofInt c))
      | _ => none⟩,
    ⟨(parse (asciiText "%llu\n")).1, fun numbers =>
      match numbers with
      | [ticks] => some (.ticks (UInt64.ofInt ticks))
      | _ => none⟩]

/-- A line of the handler of the card. -/
structure CardLine where
  pitCounter : UInt64
  csr0 : UInt32
deriving DecidableEq, Repr

def cardForms : List (Form CardLine) :=
  [⟨(parse (asciiText "hmm... %lld csr0: %x\n")).1, fun numbers =>
      match numbers with
      | [ticks, csr0] => some ⟨UInt64.ofInt ticks, UInt32.ofInt csr0⟩
      | _ => none⟩]

/-- What the text of a command says. -/
def Effect.Shows (k : Kernel) (text : List UInt8) : Effect → Prop
  | .text t => text = asciiText t
  | .putch c => text = [c]
  | .time => readReport timeForms text =
      some [.words k.tsc1 k.tsc2 k.biosTicks, .ticks k.pitCounter]
  | .syscall => text = asciiText "SYSCALL: deadbeef\n"
  | .printMem => ∃ free, k.heap.FreeList free ∧
      readReport memForms text = some (memLines k.heap free)
  | .netPrintStats => readReport statsForms text = some (statsLines k.net)
  | .printInfo => ∃ lines,
      FrogOS.printInfo k.info k.rounds k.kernelStart k.kernelEnd k.multibootInfo = some lines ∧
        readReport infoForms text = some lines
  | .reset | .halt | .divide | .cli => text = []

/-- What is shown of a frame: of one for Wake-on-LAN its length, its sender and its receiver. -/
def ReceivedFrame.text (f : ReceivedFrame) : List UInt8 :=
  if ntohs (load16 f.mem (f.frame.toNat + 12)) = 0x0842 then
    asciiText "WOL: " ++ (decimal f.len.toNat ++ (asciiText " " ++
      (colons (bytes f.mem (f.frame.toNat + 6) 6) ++ (asciiText " -> " ++
        (colons (bytes f.mem f.frame.toNat 6) ++ asciiText "\n")))))
  else []

/-- What the text of an output says. -/
def Output.Shows (output : Output) (text : List UInt8) : Prop :=
  match output with
  | command k effect => effect.Shows k text
  | frame received => text = received.text
  | interrupt csr0 pitCounter =>
      if csr0 &&& 0x600 ≠ 0 then text = []
      else readReport cardForms text = some [⟨pitCounter, csr0⟩]

/-- The loops of a report come to an end. -/
def Kernel.Sound (k : Kernel) : Effect → Prop
  | .printMem => ∃ free, k.heap.FreeList free
  | .printInfo => ∃ lines,
      printInfo k.info k.rounds k.kernelStart k.kernelEnd k.multibootInfo = some lines
  | _ => True

/-- And a frame lies in the memory and apart from the buffer of `eth_ntoa`. -/
def Output.Sound (image : Image) : Output → Prop
  | command k effect => k.Sound effect
  | frame f => f.frame.toNat + 14 ≤ 2 ^ 32 ∧
      (f.frame.toNat + 6 ≤ image.buff.toNat ∨ image.buff.toNat + 18 ≤ f.frame.toNat)
  | interrupt _ _ => True

/-- A text is one of the five. -/
def Effect.Known (e : Effect) : Prop := ∀ t, e = .text t → t = "Rebooting\n" ∨ t ∈ putsTexts

theorem known_of_serve (c : UInt32) : ∀ e ∈ serve c, e.Known := by
  have other : ∀ e ∈ otherKey c, e.Known := by
    rw [otherKey]
    split_ifs <;> simp [Effect.Known]
  have branch {p : Prop} [Decidable p] {yes no : List Effect} (front : ∀ e ∈ yes, e.Known)
      (back : ∀ e ∈ no, e.Known) : ∀ e ∈ if p then yes else no, e.Known := by
    split_ifs
    · exact front
    · exact back
  rw [serve]
  generalize c &&& 0x7f = key
  refine branch (by simp [Effect.Known]) (branch (by simp [Effect.Known, putsTexts]) ?_)
  refine branch (by simp [Effect.Known, putsTexts]) (branch (by simp [Effect.Known, putsTexts]) ?_)
  refine branch (by simp [Effect.Known, putsTexts]) (branch (by simp [Effect.Known]) ?_)
  refine branch (by simp [Effect.Known]) (branch (by simp [Effect.Known]) ?_)
  refine branch (by simp [Effect.Known]) (branch (by simp [Effect.Known]) ?_)
  exact branch (List.forall_mem_cons.mpr ⟨nofun, other⟩) other

/-- A frame that shows something is none for the network. -/
theorem etherProcessFrame_shown (s : NetState) (f : ReceivedFrame) (some : f.text ≠ []) :
    etherProcessFrame s (window f.mem f.frame.toNat 1600) f.len = .ok s := by
  by_cases wake : ntohs (load16 f.mem (f.frame.toNat + 12)) = 0x0842
  · have read : (window f.mem f.frame.toNat 1600).read16 12 =
        .ok (load16 f.mem (f.frame.toNat + 12)) :=
      Block.read16_ok (by decide : 12 + 2 ≤ 1600)
    rw [etherProcessFrame, read, ok_bind]
    simp only [wake]
    rfl
  · exact absurd (if_neg wake) some

section Outputs

variable {floats : FloatText} {image : Image} {color : UInt8} {k : Kernel} {s : Console} {p : Page}

theorem time_shows (refines : Refines color s p) :
    ∃ t text, perform floats image k s .time = .ok t ∧
      Refines color t (text.foldl Page.putch p) ∧ Effect.time.Shows k text := by
  have written : List.Forall₂ (WritesLine floats image.strings timeForms)
      [(asciiText "%lu %lu %lu\n", [k.tsc1, k.tsc2, k.biosTicks]),
        (asciiText "%llu\n", [k.pitCounter.toUInt32, (k.pitCounter >>> 32).toUInt32])]
      [.words k.tsc1 k.tsc2 k.biosTicks, .ticks k.pitCounter] := by
    refine .cons ?_ (.cons ?_ .nil)
    · refine writesLine floats image.strings (show timeForms = [] ++ _ :: _ from rfl) nofun
        (by decide) (by decide) (by decide) (show _ = Except.ok
          ([(k.tsc1.toNat : Int), k.tsc2.toNat, k.biosTicks.toNat], []) from rfl) ?_
      simp only [ofInt_unsigned]
    · refine writesLine floats image.strings (show timeForms = [_] ++ _ :: _ from rfl) (by decide)
        (by decide) (by decide) (by decide) (show _ = Except.ok ([((k.pitCounter.toUInt32.toUInt64 |||
          (k.pitCounter >>> 32).toUInt32.toUInt64 <<< 32).toNat : Int)], []) from rfl) ?_
      simp only [words_join, ofInt_long]
  obtain ⟨t, text, shown, refines', reads⟩ := report_shows image.onStack refines rfl written
  refine ⟨t, text, ?_, refines', reads⟩
  rw [← shown, printCalls_cons, perform]
  congr 1
  funext s'
  rw [printCalls_cons]
  exact (bind_pure _).symm

/-- Each command shows its text. -/
theorem perform_shows {effect : Effect} (known : effect.Known) (sound : k.Sound effect)
    (refines : Refines color s p) :
    ∃ t text, perform floats image k s effect = .ok t ∧
      Refines color t (text.foldl Page.putch p) ∧ effect.Shows k text := by
  cases effect with
  | text t =>
      by_cases rebooting : t = "Rebooting\n"
      · subst rebooting
        obtain ⟨t', shown, refines'⟩ := printf_page image.onStack refines
          (show formatted floats image.strings (asciiText "Rebooting\n") [] =
            .ok (asciiText "Rebooting\n", []) from rfl) (by decide)
        exact ⟨t', _, shown, refines', rfl⟩
      · have member := (known t rfl).resolve_left rebooting
        have same := image.literals t member
        have small : ∀ t ∈ putsTexts, (asciiText t).length < 2 ^ 31 := by decide
        have short : (characters image.strings (image.literal t)).length < 2 ^ 31 := by
          rw [same]
          exact small t member
        obtain ⟨t', shown, refines'⟩ := putchAll_refines refines (asciiText t)
        refine ⟨t', _, ?_, refines', rfl⟩
        rw [perform, if_neg rebooting, puts_eq short, same]
        exact shown
  | putch c =>
      obtain ⟨t, shown, refines'⟩ := putch_refines refines c
      exact ⟨t, [c], shown, refines', rfl⟩
  | time => exact time_shows refines
  | syscall =>
      obtain ⟨t, shown, refines'⟩ := printf_page image.onStack refines
        (show formatted floats image.strings (asciiText "SYSCALL: %x%x\n") [0xDEAD, 0xBEEF] =
          .ok (asciiText "SYSCALL: deadbeef\n", []) from rfl) (by decide)
      exact ⟨t, _, shown, refines', rfl⟩
  | printMem =>
      obtain ⟨free, chain⟩ := sound
      obtain ⟨t, text, shown, refines', reads⟩ := printMem_shows image.onStack chain refines
      exact ⟨t, text, shown, refines', free, chain, reads⟩
  | netPrintStats => exact netPrintStats_shows image.onStack k.net refines
  | printInfo =>
      obtain ⟨lines, ends⟩ := sound
      obtain ⟨t, text, shown, refines', reads⟩ := printInfoOn_reads image.onStack ends refines
      exact ⟨t, text, shown, refines', lines, ends, reads⟩
  | _ => exact ⟨s, [], rfl, refines, rfl⟩

variable (floats) in
/-- Only a frame for Wake-on-LAN shows something. -/
theorem frame_shows {f : ReceivedFrame} (sound : (Output.frame f).Sound image)
    (refines : Refines color s p) :
    ∃ t, etherProcessFrameOn floats image f s = .ok t ∧
      Refines color t (f.text.foldl Page.putch p) := by
  by_cases wake : ntohs (load16 f.mem (f.frame.toNat + 12)) = 0x0842
  · obtain ⟨m', t, shown, -, refines'⟩ := wakeOnLan_shows floats f.len f.mem
      refines image.present image.room image.onStack sound.1 sound.2
    refine ⟨t, ?_, ?_⟩
    · simp only [etherProcessFrameOn, wake, shown]
      rfl
    · rw [ReceivedFrame.text, if_pos wake]
      exact refines'
  · refine ⟨s, ?_, ?_⟩
    · simp only [etherProcessFrameOn, wake, ↓reduceIte, ite_self]
      rfl
    · rw [ReceivedFrame.text, if_neg wake]
      exact refines

theorem interrupt_shows (csr0 : UInt32) (pitCounter : UInt64) (refines : Refines color s p) :
    ∃ t text, pcnet32IrqHandlerOn floats image csr0 pitCounter s = .ok t ∧
      Refines color t (text.foldl Page.putch p) ∧
      (Output.interrupt csr0 pitCounter).Shows text := by
  by_cases work : csr0 &&& 0x600 ≠ 0
  · exact ⟨s, [], if_pos work, refines, by rw [Output.Shows, if_pos work]⟩
  · have written : WritesLine floats image.strings cardForms (asciiText "hmm... %lld csr0: %x\n",
        [pitCounter.toUInt32, (pitCounter >>> 32).toUInt32, csr0]) ⟨pitCounter, csr0⟩ := by
      refine writesLine floats image.strings (show cardForms = [] ++ _ :: _ from rfl) nofun
        (by decide) (by decide) (by decide) (show _ = Except.ok ([((pitCounter.toUInt32.toUInt64 |||
          (pitCounter >>> 32).toUInt32.toUInt64 <<< 32).toInt64.toInt : Int), csr0.toNat], [])
          from rfl) ?_
      simp only [words_join, ofInt_signed_long, ofInt_unsigned]
    obtain ⟨t, text, shown, refines', reads⟩ :=
      report_shows image.onStack refines rfl (.cons written .nil)
    refine ⟨t, text, ?_, refines', by rw [Output.Shows, if_neg work]; exact reads⟩
    rw [pcnet32IrqHandlerOn, if_neg work, ← shown, printCalls_cons]
    exact (bind_pure _).symm

/-- The commands among the outputs have known texts. -/
def Output.Known (output : Output) : Prop := ∀ effect ∈ output.effect, effect.Known

theorem print_shows {output : Output} (known : output.Known) (sound : output.Sound image)
    (refines : Refines color s p) :
    ∃ t text, output.print floats image s = .ok t ∧
      Refines color t (text.foldl Page.putch p) ∧ output.Shows text := by
  cases output with
  | command k effect => exact perform_shows (known effect rfl) sound refines
  | frame f =>
      obtain ⟨t, shown, refines'⟩ := frame_shows floats sound refines
      exact ⟨t, f.text, shown, refines', rfl⟩
  | interrupt csr0 pitCounter => exact interrupt_shows csr0 pitCounter refines

/-- One output after the other. -/
theorem printAll_shows {outputs : List Output} (known : ∀ o ∈ outputs, o.Known)
    (sound : ∀ o ∈ outputs, o.Sound image) (refines : Refines color s p) :
    ∃ t texts, outputs.foldlM (Output.print floats image) s = .ok t ∧
      List.Forall₂ Output.Shows outputs texts ∧
      Refines color t (texts.flatten.foldl Page.putch p) := by
  induction outputs generalizing s p with
  | nil => exact ⟨s, [], rfl, .nil, refines⟩
  | cons output outputs ih =>
      obtain ⟨knownHere, knownLater⟩ := List.forall_mem_cons.mp known
      obtain ⟨soundHere, soundLater⟩ := List.forall_mem_cons.mp sound
      obtain ⟨t, text, shown, refines', shows⟩ := print_shows knownHere soundHere refines
      obtain ⟨t', texts, later, all, last⟩ := ih knownLater soundLater refines'
      refine ⟨t', text :: texts, ?_, .cons shows all, ?_⟩
      · rw [List.foldlM_cons, shown]
        exact later
      · rw [List.flatten_cons, List.foldl_append]
        exact last

end Outputs

section Run

variable {floats : FloatText} {image : Image} {color : UInt8} {p : Page} {s : Shell}
  {loop : MainLoop}

theorem prints_known (loop : MainLoop) (action : ShellAction) :
    ∀ o ∈ loop.prints action, o.Known := by
  intro o member effect same
  cases action with
  | byte c => cases member
  | card csr0 pitCounter =>
      rw [MainLoop.prints, List.mem_singleton] at member
      subst member
      cases same
  | work k =>
      rw [MainLoop.prints] at member
      split at member
      · split at member
        · obtain ⟨f, -, rfl⟩ := List.mem_map.mp member
          cases same
        · cases member
      · obtain ⟨_, inside, rfl⟩ := List.mem_map.mp member
        cases same
        exact known_of_serve _ effect inside
      · cases member

/-- The commands that a step prints are those that the main loop adds. -/
theorem follow_effects {t : MainLoop} {action : ShellAction} (step : loop.follow action = .ok t) :
    t.effects = loop.effects ++ (loop.prints action).filterMap Output.effect := by
  cases action with
  | byte c =>
      obtain ⟨kbd, -, same⟩ := bind_eq_ok.mp (show loop.next (.byte c) = .ok t from step)
      rw [← Except.ok.inj same]
      exact (List.append_nil _).symm
  | card csr0 pitCounter =>
      cases step
      exact (List.append_nil _).symm
  | work k =>
      cases step
      have commands (c : UInt32) :
          ((serve c).map (Output.command k)).filterMap Output.effect = serve c := by
        rw [List.filterMap_map]
        exact List.filterMap_some
      have frames : (k.frames.map Output.frame).filterMap Output.effect = [] := by
        rw [List.filterMap_map]
        exact List.filterMap_eq_nil_iff.mpr fun _ _ => rfl
      rw [MainLoop.prints]
      unfold MainLoop.work
      split
      · rename_i phase
        simp only [phase]
        split
        · rw [frames, List.append_nil]
        · exact (List.append_nil _).symm
      all_goals (rename_i phase; simp [phase, commands])

/-- The main loop of a run of the shell. -/
theorem followAll_run {loop t : MainLoop} {actions : List ShellAction}
    (runs : loop.run (actions.filterMap ShellAction.loop) = .ok t) :
    actions.foldlM MainLoop.follow loop = .ok t := by
  induction actions generalizing loop with
  | nil => exact runs
  | cons action actions ih =>
      cases forMe : action.loop with
      | none =>
          rw [List.filterMap_cons_none forMe] at runs
          have stays : loop.follow action = .ok loop := by rw [MainLoop.follow, forMe]
          rw [List.foldlM_cons, stays]
          exact ih runs
      | some step =>
          rw [List.filterMap_cons_some forMe, MainLoop.run, List.foldlM_cons] at runs
          obtain ⟨between, first, later⟩ := bind_eq_ok.mp runs
          have goes : loop.follow action = .ok between := by
            rw [MainLoop.follow, forMe]
            exact first
          rw [List.foldlM_cons, goes]
          exact ih later

/-- However the bytes, the interrupts and the steps of the main program follow each other. -/
theorem shell_run {actions : List ShellAction} {t : MainLoop}
    (runs : actions.foldlM MainLoop.follow s.loop = .ok t)
    (sound : ∀ o ∈ s.loop.printed actions, o.Sound image) (refines : Refines color s.screen p) :
    ∃ screen texts, s.run floats image actions = .ok ⟨t, screen⟩ ∧
      List.Forall₂ Output.Shows (s.loop.printed actions) texts ∧
      Refines color screen (texts.flatten.foldl Page.putch p) ∧
      t.effects = s.loop.effects ++ (s.loop.printed actions).filterMap Output.effect := by
  induction actions generalizing s p with
  | nil =>
      cases runs
      exact ⟨s.screen, [], rfl, .nil, refines, (List.append_nil _).symm⟩
  | cons action actions ih =>
      rw [List.foldlM_cons] at runs
      obtain ⟨between, step, later⟩ := bind_eq_ok.mp runs
      have split : s.loop.printed (action :: actions) =
          s.loop.prints action ++ between.printed actions := by rw [MainLoop.printed, step]
      rw [split, List.forall_mem_append] at sound
      obtain ⟨screen, texts, shown, shows, refines'⟩ :=
        printAll_shows (prints_known s.loop action) sound.1 refines
      obtain ⟨last, texts', ran, shows', page, effects⟩ :=
        @ih (texts.flatten.foldl Page.putch p) ⟨between, screen⟩ later sound.2 refines'
      refine ⟨last, texts ++ texts', ?_, ?_, ?_, ?_⟩
      · have next : s.next floats image action = .ok ⟨between, screen⟩ := by
          rw [Shell.next, step, shown]
          rfl
        rw [Shell.run, List.foldlM_cons, next]
        exact ran
      · rw [split]
        exact List.rel_append shows shows'
      · rw [List.flatten_append, List.foldl_append]
        exact page
      · rw [split, effects, follow_effects step, List.filterMap_append, List.append_assoc]

end Run

/-- The bytes of the keyboard. -/
def shellBytes (actions : List ShellAction) : List UInt8 :=
  scanned (actions.filterMap ShellAction.loop)

/-- The main program waits for a key, or has left the loop. -/
def Shell.Idle (s : Shell) : Prop :=
  s.loop.phase = .left ∨ s.loop.phase = .loop ∧ kbdIsempty s.loop.kbd.queue = true

theorem distance_idle {s : Shell} (idle : s.Idle) : LoopInv.distance s.loop = 0 := by
  rcases idle with left | ⟨loop, empty⟩
  · simp [LoopInv.distance, left]
  · have none : s.loop.kbd.queue.kbdSize = 0 := by simpa [kbdIsempty] using empty
    simp [LoopInv.distance, loop, none]

/-- From the scancodes to the screen, up to the first r, h, z or c: while the keyboard sends complete
sequences, without Pause and Print Screen before that key and never into a full queue, no access
leaves the video cells or the tables. The screen shows the texts of all that prints in their order:
what the card's interrupts report, the frames for Wake-on-LAN, and a first part of the commands that
were typed, each as its command found it; once the main program waits, all of them. -/
theorem shell_shows_commands (floats : FloatText) (image : Image) (sequences : List KeySequence)
    (plain : ∀ key ∈ untilLeft 0 sequences, key.announced = none) (actions : List ShellAction)
    (typed : shellBytes actions <+: KeySequence.stream sequences)
    (room : mainLoopStart.roomy (actions.filterMap ShellAction.loop) = true)
    (sound : ∀ o ∈ mainLoopStart.printed actions, o.Sound image)
    (color : UInt8) (screen : Console) (p : Page) (refines : Refines color screen p) :
    ∃ s texts, (Shell.mk mainLoopStart screen).run floats image actions = .ok s ∧
      List.Forall₂ Output.Shows (mainLoopStart.printed actions) texts ∧
      Refines color s.screen (texts.flatten.foldl Page.putch p) ∧
      (mainLoopStart.printed actions).filterMap Output.effect <+: commands 0 sequences ∧
      (shellBytes actions = KeySequence.stream sequences → s.Idle →
        (mainLoopStart.printed actions).filterMap Output.effect = commands 0 sequences) := by
  obtain ⟨whole, all, read⟩ := decodeAll_stream sequences (k := kbdStart) rfl
  have enqueued : whole.enqueued = Stroke.outputs KeySequence.decoded 0 sequences := read.enqueued
  obtain ⟨rest, bytes⟩ := typed
  rw [← bytes, decodeAll_append] at all
  obtain ⟨k, done, remaining⟩ := bind_eq_ok.mp all
  obtain ⟨loop, taken, reached, inv, same⟩ :=
    LoopInv.start.run (actions.filterMap ShellAction.loop) ⟨rfl, rfl, rfl⟩ done room
  obtain ⟨last, texts, ran, shows, page, effects⟩ :=
    @shell_run floats image color p ⟨mainLoopStart, screen⟩ actions loop (followAll_run reached)
      sound refines
  have printed : (mainLoopStart.printed actions).filterMap Output.effect = loop.effects :=
    effects.symm
  have all' := (commands_iff sequences 0).mpr plain
  refine ⟨⟨loop, last⟩, texts, ran, shows, page, ?_, ?_⟩
  · have sent := decodeAll_enqueued rest remaining
    rw [← same.enqueued, inv.history, enqueued] at sent
    obtain ⟨later, total⟩ := sent
    rw [printed, ← all', inv.effects, ← total, List.append_assoc]
    exact served_prefix _ _
  · intro complete idle
    have nothing : rest = [] := by
      rw [complete] at bytes
      exact List.append_right_eq_self.mp bytes
    rw [nothing] at remaining
    have end' : k = whole := Except.ok.inj remaining
    rw [printed, inv.served_all (distance_idle idle), same.enqueued, end', enqueued, all']

/-- The texts for `puts`, one behind the other from `0x1000` on. -/
def sampleTexts : List UInt8 :=
  asciiText "Pause\n" ++ 0 :: (asciiText "Print Screen\n" ++ 0 :: (asciiText "Halting:" ++
    0 :: (asciiText "Divide by zero:" ++ [0])))

def sampleLiteral (t : String) : UInt32 :=
  if t = "Pause\n" then 0x1000
  else if t = "Print Screen\n" then 0x1007
  else if t = "Halting:" then 0x1015
  else 0x101E

def sampleImage : Image where
  strings := fun x => sampleTexts.getD (x - 0x1000) 0
  literal := sampleLiteral
  literals := by
    intro t member
    have near : ∀ t ∈ putsTexts,
        stringBytes (fun x => sampleTexts.getD (x - 0x1000) 0) 16 (sampleLiteral t) =
          asciiText t ∧ (asciiText t).length < 16 := by decide
    obtain ⟨same, short⟩ := near t member
    have whole := stringBytes_prefix (fun x => sampleTexts.getD (x - 0x1000) 0)
      (by decide : 16 ≤ 2 ^ 31) (same.symm ▸ short)
    rw [characters, whole, same]
  stack := 0x8000
  onStack := by decide
  buff := 0x2000
  present := by decide
  room := by decide

/-- The arena is one chunk, and a frame for Wake-on-LAN has come. -/
def sampleKernel : Kernel where
  heap := initMem 0xC0120010 fun _ => 0
  net := { devs := fun _ => .cleared, num := 0, bound := by decide }
  frames := [⟨wakeMem, 0x3000, 60⟩]
  info := fun _ => 0
  rounds := 1
  kernelStart := 0xC0100000
  kernelEnd := 0xC0180000
  multibootInfo := 0xC0110000
  tsc1 := 0
  tsc2 := 0
  biosTicks := 0
  pitCounter := 0

/-- The card reports, and the keys b and m are pressed and released while the main program is at
work. -/
def sampleActions : List ShellAction :=
  [.card 0x181 5, .byte 0x30, .byte 0xB0, .work sampleKernel, .work sampleKernel,
    .work sampleKernel, .byte 0x32, .work sampleKernel, .byte 0xB2, .work sampleKernel,
    .work sampleKernel, .work sampleKernel, .work sampleKernel, .work sampleKernel]

theorem shell_shows_b_and_mem :
    let s : Console :=
      { mem := fun _ => 0, csrX := 0, csrY := 0, attrib := 0xf, crtc := ⟨0, fun _ => 0⟩ }
    ∃ cleared shell card mem, s.cls = .ok cleared ∧
      (Shell.mk mainLoopStart cleared).run ⟨fun _ _ _ _ => [], fun _ _ _ _ => []⟩ sampleImage
        sampleActions = .ok shell ∧
      readReport cardForms card = some [⟨5, 0x181⟩] ∧
      readReport memForms mem = some [.chunk 0xC0120010 0xADFFF0 0, .total 0xADFFF0] ∧
      Refines s.color shell.screen ((card ++ 98 :: (mem ++
        asciiText "WOL: 60 52:54:00:12:34:56 -> ff:ff:ff:ff:ff:ff\n")).foldl Page.putch
          Page.empty) := by
  intro s
  obtain ⟨cleared, clsDone, start⟩ := cls_refines s
  have printed : mainLoopStart.printed sampleActions = [.interrupt 0x181 5,
      .command sampleKernel (.putch 98), .command sampleKernel .printMem,
      .frame ⟨wakeMem, 0x3000, 60⟩] := rfl
  have free : sampleKernel.heap.FreeList [0xC0120010] :=
    ⟨by decide, by decide, path_nil.mpr (by decide)⟩
  have sound : ∀ o ∈ mainLoopStart.printed sampleActions, o.Sound sampleImage := by
    rw [printed]
    simp only [List.forall_mem_cons, List.not_mem_nil, false_implies, implies_true, and_true]
    exact ⟨trivial, trivial, ⟨_, free⟩, by decide, by decide⟩
  obtain ⟨shell, texts, ran, shows, page, -⟩ := shell_shows_commands
    ⟨fun _ _ _ _ => [], fun _ _ _ _ => []⟩ sampleImage
    [.plain 0x30 (by decide), .plain 0xB0 (by decide), .plain 0x32 (by decide),
      .plain 0xB2 (by decide)] (by decide) sampleActions (List.prefix_refl _) (by decide +kernel)
    sound s.color cleared Page.empty start
  rw [printed] at shows
  -- One text for each of the four outputs.
  obtain _ | ⟨report, _ | ⟨rfl, _ | ⟨⟨list, chain, reads⟩, _ | ⟨rfl, _ | _⟩⟩⟩⟩ := shows
  rename_i card mem
  rw [chain.unique free] at reads
  have wake : asciiText "WOL: 60 52:54:00:12:34:56 -> ff:ff:ff:ff:ff:ff\n" =
      (ReceivedFrame.mk wakeMem 0x3000 60).text := by decide
  refine ⟨cleared, shell, card, mem, clsDone, ran, report, reads.trans (by decide), ?_⟩
  rw [wake]
  simpa using page

end FrogOS
