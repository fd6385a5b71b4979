import FrogOS.KeyTables

set_option autoImplicit false

namespace FrogOS

open BoundedAccess CircularBuffer

/-- What the main loop of `cmain` does for a key: a text of its own, a character, or what the
function it calls or the instruction it executes does. -/
inductive Effect
  | text (s : String)
  | putch (c : UInt8)
  | reset
  | halt
  | divide
  | time
  | syscall
  | printMem
  | netPrintStats
  | printInfo
  | cli
deriving DecidableEq, Repr

/-- The last case of the switch. -/
def otherKey (c : UInt32) : List Effect := if c &&& 0x80 = 0 then [.putch c.toUInt8] else []

/-- The switch over `c&0x7f`. -/
def serve (c : UInt32) : List Effect :=
  let key := c &&& 0x7f
  if key = 'r'.val then [.text "Rebooting\n", .reset]
  else if key = keyPause.toUInt32 then [.text "Pause\n"]
  else if key = keyPrtsc.toUInt32 then [.text "Print Screen\n"]
  else if key = 'h'.val then [.text "Halting:", .halt]
  else if key = 'z'.val then [.text "Divide by zero:", .divide]
  else if key = 't'.val then [.time]
  else if key = 's'.val then [.syscall]
  else if key = 'm'.val then [.printMem]
  else if key = 'n'.val then [.netPrintStats]
  else if key = 'p'.val then [.printInfo]
  -- `case 'c'` has no `break`.
  else if key = 'c'.val then .cli :: otherKey c
  else otherKey c

/-- The keys after which the loop does not just go on: reset, return, exception, and interrupts
off. -/
def leaves (c : UInt32) : Bool :=
  let key := c &&& 0x7f
  key = 'r'.val || key = 'h'.val || key = 'z'.val || key = 'c'.val

/-- Where the main program stands. -/
inductive Phase
  /-- At the condition `!kbd_isempty()`. Without a key it goes by way of `hlt`, which the timer
  ends, and `net_process` back to it. What `net_process` prints on this way is no effect of a
  key: the actions of the shell put it between the effects. -/
  | loop
  /-- At the test of `kbd_dequeue`. -/
  | dequeue
  /-- Before `disable()` in `kbd_dequeue`. -/
  | take
  /-- At the switch. -/
  | switch (c : UInt32)
  | left
deriving DecidableEq, Repr

structure MainLoop where
  kbd : Kbd
  phase : Phase
  effects : List Effect

def mainLoopStart : MainLoop where
  kbd := kbdStart
  phase := .loop
  effects := []

/-- A byte of the keyboard interrupts the main program, or the main program goes on. -/
inductive LoopAction
  | byte (c : UInt8)
  | work
deriving DecidableEq, Repr

namespace MainLoop

def work (s : MainLoop) : MainLoop :=
  match s.phase with
  | .loop => if kbdIsempty s.kbd.queue then s else { s with phase := .dequeue }
  | .dequeue => { s with phase := if kbdIsempty s.kbd.queue then .switch 0 else .take }
  | .take =>
      let (c, queue) := kbdTake s.kbd.queue
      { s with kbd := { s.kbd with queue }, phase := .switch c }
  | .switch c =>
      { s with phase := if leaves c then .left else .loop, effects := s.effects ++ serve c }
  | .left => s

def next (s : MainLoop) : LoopAction → Except DecodeFault MainLoop
  | .byte c => do
      let kbd ← decode c s.kbd
      .ok { s with kbd }
  | .work => .ok s.work

def run (s : MainLoop) (actions : List LoopAction) : Except DecodeFault MainLoop :=
  actions.foldlM next s

/-- No byte comes while the queue is full. -/
def roomy : MainLoop → List LoopAction → Bool
  | _, [] => true
  | s, .byte c :: rest =>
      s.kbd.queue.kbdSize ≠ kbdQueueSize &&
        match s.next (.byte c) with
        | .ok t => t.roomy rest
        | .error _ => true
  | s, .work :: rest => s.work.roomy rest

end MainLoop

/-- The two parts of `kbd_dequeue` with nothing in between are a call of it. -/
theorem MainLoop.work_dequeue (s : MainLoop) (calls : s.phase = .dequeue)
    (found : s.kbd.queue.kbdSize ≠ 0) :
    s.work.work = { s with
      kbd := { s.kbd with queue := (kbdDequeue s.kbd.queue).2 }
      phase := .switch (kbdDequeue s.kbd.queue).1 } := by
  simp [work, calls, kbdIsempty, found, kbdDequeue]

/-- The bytes among the actions. -/
def scanned (actions : List LoopAction) : List UInt8 :=
  actions.filterMap fun action =>
    match action with
    | .byte c => some c
    | .work => none

/-- What is done for one event after the other, up to the one the loop is left with. -/
def served : List UInt32 → List Effect
  | [] => []
  | c :: rest => serve c ++ if leaves c then [] else served rest

/-- The text that a key has to itself. -/
def KeySequence.announced : KeySequence → Option String
  | .pause => some "Pause\n"
  | .printScreenMake => some "Print Screen\n"
  | _ => none

/-- What is to be done for the sequences up to the first r, h, z or c: the texts for Pause and
Print Screen, and for any other key what the loop does with its event. -/
def commands : UInt32 → List KeySequence → List Effect
  | _, [] => []
  | before, s :: rest =>
      let events := (s.decoded before).events before
      let own := match s.announced with
        | some text => [.text text]
        | none => served events
      own ++ if events.any leaves then []
        else commands ((s.decoded before).shiftstate before) rest

/-- The sequences before the first r, h, z or c. -/
def untilLeft : UInt32 → List KeySequence → List KeySequence
  | _, [] => []
  | before, s :: rest =>
      if ((s.decoded before).events before).any leaves then []
      else s :: untilLeft ((s.decoded before).shiftstate before) rest

section Low

/-- Of an event and a mask of one byte only the low byte counts. -/
theorem and_low (x m : UInt32) (small : m.toNat < 2 ^ 8) :
    x &&& m = x.toUInt8.toUInt32 &&& m := by
  apply UInt32.toNat_inj.mp
  rw [UInt32.toNat_and, UInt32.toNat_and, UInt8.toNat_toUInt32, UInt32.toNat_toUInt8]
  apply Nat.eq_of_testBit_eq
  intro i
  rw [Nat.testBit_and, Nat.testBit_and, Nat.testBit_mod_two_pow]
  by_cases low : i < 8
  · simp [low]
  · have larger : 2 ^ 8 ≤ 2 ^ i := Nat.pow_le_pow_right (by decide) (by omega)
    have clear : m.toNat.testBit i = false :=
      Nat.testBit_lt_two_pow (Nat.lt_of_lt_of_le small larger)
    simp [clear]

theorem leaves_low (x : UInt32) : leaves x = leaves x.toUInt8.toUInt32 := by
  unfold leaves
  rw [and_low x 0x7f (by decide)]

theorem serve_low (x : UInt32) : serve x = serve x.toUInt8.toUInt32 := by
  have other : otherKey x = otherKey x.toUInt8.toUInt32 := by
    unfold otherKey
    rw [and_low x 0x80 (by decide), UInt8.toUInt8_toUInt32]
  unfold serve
  rw [and_low x 0x7f (by decide), other]

/-- The seven bits of `c&0x7f` never make a Pause or a Print Screen. -/
theorem announced_lost {s : KeySequence} {text : String} (special : s.announced = some text)
    (before : UInt32) :
    ∃ c, (s.decoded before).events before = [c] ∧ serve c = [] ∧ leaves c = false := by
  have lost (key : UInt8) (silent : serve key.toUInt32 = [])
      (stays : leaves key.toUInt32 = false) :
      serve (event before key) = [] ∧ leaves (event before key) = false := by
    rw [serve_low, leaves_low, event_key]
    exact ⟨silent, stays⟩
  cases s with
  | pause => exact ⟨_, rfl, lost keyPause rfl rfl⟩
  | printScreenMake => exact ⟨_, rfl, lost keyPrtsc rfl rfl⟩
  | _ => exact absurd special nofun

end Low

section Commands

variable {xs ys : List UInt32}

theorem served_stay (stay : ∀ c ∈ xs, leaves c = false) :
    served (xs ++ ys) = served xs ++ served ys := by
  induction xs with
  | nil => rfl
  | cons c rest ih =>
      have here := stay c List.mem_cons_self
      have later := ih fun x member => stay x (List.mem_cons_of_mem c member)
      simp only [List.cons_append, served, here, Bool.false_eq_true, ↓reduceIte, later,
        List.append_assoc]

/-- Nothing is done for what comes after the loop is left. -/
theorem served_left (left : xs.any leaves = true) : served (xs ++ ys) = served xs := by
  induction xs with
  | nil => cases left
  | cons c rest ih =>
      rw [List.any_cons, Bool.or_eq_true] at left
      rw [List.cons_append, served, served]
      by_cases here : leaves c = true
      · rw [if_pos here, if_pos here]
      · rw [if_neg here, if_neg here, ih (left.resolve_left here)]

theorem served_prefix (xs ys : List UInt32) : served xs <+: served (xs ++ ys) := by
  by_cases left : xs.any leaves = true
  · exact ⟨[], by rw [List.append_nil, served_left left]⟩
  · have stay : ∀ c ∈ xs, leaves c = false := by simpa using left
    rw [served_stay stay]
    exact List.prefix_append _ _

/-- A sequence has at most one event. -/
theorem served_events (stroke : Stroke) (before : UInt32) :
    served (stroke.events before ++ ys) = served (stroke.events before) ++
      if (stroke.events before).any leaves then [] else served ys := by
  by_cases left : (stroke.events before).any leaves = true
  · rw [served_left left, if_pos left, List.append_nil]
  · have stay : ∀ c ∈ stroke.events before, leaves c = false := by simpa using left
    rw [served_stay stay, if_neg left]

/-- The commands that are missing. -/
theorem commands_length (sequences : List KeySequence) (before : UInt32) :
    (commands before sequences).length =
      (served (Stroke.outputs KeySequence.decoded before sequences)).length +
        ((untilLeft before sequences).filter fun s => s.announced.isSome).length := by
  induction sequences generalizing before with
  | nil => rfl
  | cons s rest ih =>
      rw [Stroke.outputs, served_events, commands, untilLeft]
      cases special : s.announced with
      | some text =>
          obtain ⟨c, event, silent, stays⟩ := announced_lost special before
          simp [event, served, silent, stays, ih, special]
          omega
      | none =>
          by_cases left : ((s.decoded before).events before).any leaves = true
          · simp [left]
          · simp [left, ih, special]
            omega

/-- The loop does what it should for a stream up to the key it is left with exactly if neither
Pause nor Print Screen comes before that. -/
theorem commands_iff (sequences : List KeySequence) (before : UInt32) :
    served (Stroke.outputs KeySequence.decoded before sequences) = commands before sequences ↔
      ∀ s ∈ untilLeft before sequences, s.announced = none := by
  constructor
  · intro same
    have length := commands_length sequences before
    rw [← same, Nat.left_eq_add, List.length_eq_zero_iff, List.filter_eq_nil_iff] at length
    intro s member
    simpa using length s member
  · induction sequences generalizing before with
    | nil => exact fun _ => rfl
    | cons s rest ih =>
        intro plain
        rw [Stroke.outputs, served_events, commands]
        rw [untilLeft] at plain
        by_cases left : ((s.decoded before).events before).any leaves = true
        · cases special : s.announced with
          | some text =>
              obtain ⟨c, event, -, stays⟩ := announced_lost special before
              simp [event, stays] at left
          | none => simp [left]
        · rw [if_neg left, List.forall_mem_cons] at plain
          rw [if_neg left, plain.1, ih _ plain.2, if_neg left]

end Commands

section Decoder

/-- From this state and with these modifiers the result does not depend on the queue: it is a
fault, or a stroke and the next state. -/
def UniformAt (state shift : UInt32) (f : Kbd → Except DecodeFault Kbd) : Prop :=
  (∃ fault, ∀ k : Kbd, k.kbdState = state → k.kbdShiftstate = shift → f k = .error fault) ∨
    ∃ (stroke : Stroke) (after : UInt32), ∀ k : Kbd, k.kbdState = state →
      k.kbdShiftstate = shift → f k = .ok { stroke.perform k with kbdState := after }

def Uniform (f : Kbd → Except DecodeFault Kbd) : Prop := ∀ state shift, UniformAt state shift f

theorem UniformAt.congr {state shift : UInt32} {f g : Kbd → Except DecodeFault Kbd}
    (uniform : UniformAt state shift g)
    (same : ∀ k : Kbd, k.kbdState = state → k.kbdShiftstate = shift → f k = g k) :
    UniformAt state shift f := by
  rcases uniform with ⟨fault, failed⟩ | ⟨stroke, after, done⟩
  · exact Or.inl ⟨fault, fun k at' modifiers =>
      (same k at' modifiers).trans (failed k at' modifiers)⟩
  · exact Or.inr ⟨stroke, after, fun k at' modifiers =>
      (same k at' modifiers).trans (done k at' modifiers)⟩

namespace Uniform

variable {f g : Kbd → Except DecodeFault Kbd} {c : UInt8}

theorem stroke (stroke : Stroke) (after : UInt32) :
    Uniform fun k => .ok { stroke.perform k with kbdState := after } :=
  fun _ _ => Or.inr ⟨stroke, after, fun _ _ _ => rfl⟩

/-- A branch on the decoder's state. -/
theorem ite (p : UInt32 → Prop) [DecidablePred p] (yes : Uniform f) (no : Uniform g) :
    Uniform fun k => if p k.kbdState then f k else g k := by
  intro state shift
  by_cases holds : p state
  · apply (yes state shift).congr
    intro k at' _
    exact if_pos (at' ▸ holds)
  · apply (no state shift).congr
    intro k at' _
    exact if_neg (at' ▸ holds)

/-- The tables are read with the modifiers. -/
theorem plain (c : UInt8) : Uniform fun k =>
    plainStroke k.kbdShiftstate c >>= fun stroke =>
      .ok { stroke.perform k with kbdState := 0 } := by
  intro state shift
  cases read : plainStroke shift c with
  | error fault =>
      refine Or.inl ⟨fault, ?_⟩
      intro k _ modifiers
      simp only [modifiers, read]
      rfl
  | ok stroke =>
      refine Or.inr ⟨stroke, 0, ?_⟩
      intro k _ modifiers
      simp only [modifiers, read]
      rfl

theorem again (uniform : Uniform f) : Uniform fun k => f { k with kbdState := 0 } := by
  intro state shift
  rcases uniform 0 shift with ⟨fault, failed⟩ | ⟨stroke, after, done⟩
  · exact Or.inl ⟨fault, fun k _ modifiers => failed { k with kbdState := 0 } rfl modifiers⟩
  · refine Or.inr ⟨stroke, after, ?_⟩
    intro k _ modifiers
    refine (done { k with kbdState := 0 } rfl modifiers).trans ?_
    rw [perform_from]

end Uniform

/-- One step for each branch of `decode`, in its order. -/
theorem decodeWith_uniform {again : UInt8 → Kbd → Except DecodeFault Kbd} {c : UInt8}
    (uniform : Uniform (again c)) : Uniform (decodeWith again c) := by
  refine .ite (fun state => (state = 0 ∧ c = 0xE0) ∨ (state = 0 ∧ c = 0xE1) ∨
    (state = 0xE1 ∧ c = 0x1D) ∨ (state = 0x1D ∧ c = 0x45) ∨ (state = 0x2E1 ∧ c = 0x9D))
    (.stroke .nothing c.toUInt32) ?_
  refine .ite (fun state => state = 0x45 ∧ c = 0xE1) (.stroke .nothing 0x2E1) ?_
  refine .ite (fun state => state = 0x9D ∧ c = 0xC5) (.stroke (.key keyPause) 0) ?_
  refine .ite (fun state => state = 0xE02A ∧ c = 0xE0) (.stroke .nothing 0x2AE0) ?_
  refine .ite (fun state => state = 0x2AE0 ∧ c = 0x37) (.stroke (.key keyPrtsc) 0) ?_
  refine .ite (fun state => state = 0xE0 ∧ c = 0x2A) (.stroke .nothing 0xE02A) ?_
  refine .ite (fun state => state = 0xE0) (.stroke (extendedStroke c) 0) ?_
  exact .ite (fun state => state = 0) (.plain c) uniform.again

theorem decode_uniform (c : UInt8) : Uniform (decode c) := by
  have nested (depth : Nat) : Uniform (decodeNested depth c) := by
    induction depth with
    | zero => exact fun _ _ => Or.inl ⟨.nesting, fun _ _ _ => rfl⟩
    | succ depth ih => exact decodeWith_uniform ih
  exact nested 2

/-- The two decoders have read the same bytes, whatever their queues hold. -/
structure SameReading (k k' : Kbd) : Prop where
  kbdState : k.kbdState = k'.kbdState
  kbdShiftstate : k.kbdShiftstate = k'.kbdShiftstate
  enqueued : k.enqueued = k'.enqueued

/-- The event that the main program has taken out of the queue and not served yet. -/
def Phase.held : Phase → List UInt32
  | .switch c => [c]
  | _ => []

/-- What was enqueued has been taken by the main loop, in order, or waits, and what was taken has
been served up to the key the loop was left with. -/
structure LoopInv (taken : List UInt32) (s : MainLoop) : Prop where
  valid : s.kbd.queue.Valid
  history : s.kbd.enqueued = taken ++ (s.phase.held ++ s.kbd.queue.entries)
  effects : s.effects = served taken
  stays : s.phase ≠ .left → ∀ c ∈ taken, leaves c = false
  left : s.phase = .left → taken.any leaves = true
  occupied : s.phase = .dequeue ∨ s.phase = .take → 0 < s.kbd.queue.kbdSize

namespace LoopInv

variable {s t : MainLoop} {taken : List UInt32} {k k' : Kbd} {c : UInt8}

theorem start : LoopInv [] mainLoopStart where
  valid := KbdQueue.start_valid
  history := rfl
  effects := rfl
  stays := fun _ _ member => absurd member List.not_mem_nil
  left := nofun
  occupied := by rintro (phase | phase) <;> cases phase

/-- With room a stroke puts its events behind those that wait. -/
theorem perform (inv : LoopInv taken s) (room : s.kbd.queue.kbdSize ≠ kbdQueueSize)
    (stroke : Stroke) (after : UInt32) :
    LoopInv taken { s with kbd := { stroke.perform s.kbd with kbdState := after } } := by
  obtain ⟨valid, entries⟩ := Stroke.perform_queue s.kbd stroke inv.valid
  have appended : (stroke.perform s.kbd).queue.entries =
      s.kbd.queue.entries ++ stroke.events s.kbd.kbdShiftstate := by
    rw [entries]
    cases stroke with
    | key c =>
        have length := KbdQueue.entries_length inv.valid
        have size := inv.valid.size
        simp only [kbdQueueSize] at room size
        exact offer_room (by omega) _
    | _ => exact (List.append_nil _).symm
  constructor
  · exact valid
  · change (stroke.perform s.kbd).enqueued =
      taken ++ (s.phase.held ++ (stroke.perform s.kbd).queue.entries)
    rw [Stroke.perform_enqueued, inv.history, appended]
    simp only [List.append_assoc]
  · exact inv.effects
  · exact inv.stays
  · exact inv.left
  · intro phase
    have before := inv.occupied phase
    have length := KbdQueue.entries_length inv.valid
    have length' := KbdQueue.entries_length valid
    change 0 < (stroke.perform s.kbd).queue.kbdSize
    rw [appended, List.length_append] at length'
    omega

/-- A byte is decoded as it is without a reader. -/
theorem byte (inv : LoopInv taken s) (room : s.kbd.queue.kbdSize ≠ kbdQueueSize)
    (same : SameReading s.kbd k) (done : decode c k = .ok k') :
    ∃ t, s.next (.byte c) = .ok t ∧ LoopInv taken t ∧ SameReading t.kbd k' := by
  rcases decode_uniform c k.kbdState k.kbdShiftstate with ⟨fault, failed⟩ | ⟨stroke, after, read⟩
  · rw [failed k rfl rfl] at done
    cases done
  · rw [read k rfl rfl] at done
    rw [← Except.ok.inj done]
    refine ⟨_, ?_, inv.perform room stroke after, ?_⟩
    · rw [MainLoop.next, read s.kbd same.kbdState same.kbdShiftstate]
      rfl
    · constructor
      · rfl
      · change (stroke.perform s.kbd).kbdShiftstate = (stroke.perform k).kbdShiftstate
        rw [Stroke.perform_kbdShiftstate, Stroke.perform_kbdShiftstate, same.kbdShiftstate]
      · change (stroke.perform s.kbd).enqueued = (stroke.perform k).enqueued
        rw [Stroke.perform_enqueued, Stroke.perform_enqueued, same.enqueued, same.kbdShiftstate]

/-- How far the main loop is from waiting for a key. -/
def distance (s : MainLoop) : Nat :=
  match s.phase with
  | .loop => 4 * s.kbd.queue.kbdSize.toNat
  | .dequeue => 4 * s.kbd.queue.kbdSize.toNat - 1
  | .take => 4 * s.kbd.queue.kbdSize.toNat - 2
  | .switch _ => 4 * s.kbd.queue.kbdSize.toNat + 1
  | .left => 0

theorem size_pos (inv : LoopInv taken s) (found : kbdIsempty s.kbd.queue = false) :
    0 < s.kbd.queue.kbdSize := by
  have size := inv.valid.size.1
  have other : s.kbd.queue.kbdSize ≠ 0 := by simpa [kbdIsempty] using found
  omega

/-- Between its tests the main program only moves on. -/
theorem advance (inv : LoopInv taken s) {phase : Phase} (stays : s.phase ≠ .left)
    (goes : phase ≠ .left) (held : phase.held = s.phase.held)
    (found : 0 < s.kbd.queue.kbdSize) : LoopInv taken { s with phase } where
  valid := inv.valid
  history := by
    rw [held]
    exact inv.history
  effects := inv.effects
  stays := fun _ => inv.stays stays
  left := fun gone => absurd gone goes
  occupied := fun _ => found

/-- `kbd_dequeue` takes the oldest event. -/
theorem take (inv : LoopInv taken s) (phase : s.phase = .take) : LoopInv taken s.work := by
  obtain ⟨valid, entries⟩ := KbdQueue.take_spec inv.valid (inv.occupied (Or.inr phase))
  have history := inv.history
  rw [phase, entries] at history
  simp only [MainLoop.work, phase]
  constructor
  · exact valid
  · exact history
  · exact inv.effects
  · exact fun _ => inv.stays (by simp [phase])
  · exact nofun
  · simp

/-- An event is served and the loop goes on, or it is left. -/
theorem switch (inv : LoopInv taken s) {c : UInt32} (phase : s.phase = .switch c) :
    LoopInv (taken ++ [c]) s.work := by
  have stays := inv.stays (by simp [phase])
  have history := inv.history
  rw [phase] at history
  simp only [MainLoop.work, phase]
  constructor
  · exact inv.valid
  · change s.kbd.enqueued = _
    rw [history]
    by_cases leaving : leaves c = true <;> simp [Phase.held, leaving]
  · change s.effects ++ serve c = served (taken ++ [c])
    rw [served_stay stays, inv.effects, served, served]
    simp
  · intro going x member
    rcases List.mem_append.mp member with old | new
    · exact stays x old
    · rw [List.mem_singleton.mp new]
      simpa using going
  · intro gone
    have leaving : leaves c = true := by simpa using gone
    simp [leaving]
  · intro other
    by_cases leaving : leaves c = true <;> simp [leaving] at other

theorem work_inv (inv : LoopInv taken s) : ∃ taken', LoopInv taken' s.work := by
  cases phase : s.phase with
  | loop =>
      refine ⟨taken, ?_⟩
      cases empty : kbdIsempty s.kbd.queue with
      | true => simpa [MainLoop.work, phase, empty] using inv
      | false =>
          simp only [MainLoop.work, phase, empty]
          exact inv.advance (by simp [phase]) (by simp) (by simp [phase, Phase.held])
            (inv.size_pos empty)
  | dequeue =>
      have found := inv.occupied (Or.inl phase)
      have waiting : kbdIsempty s.kbd.queue = false := by
        simp [kbdIsempty]
        omega
      refine ⟨taken, ?_⟩
      simp only [MainLoop.work, phase, waiting]
      exact inv.advance (by simp [phase]) (by simp) (by simp [phase, Phase.held]) found
  | take => exact ⟨taken, inv.take phase⟩
  | switch c => exact ⟨_, inv.switch phase⟩
  | left =>
      refine ⟨taken, ?_⟩
      simpa [MainLoop.work, phase] using inv

/-- The main program leaves the decoder alone. -/
theorem work_decoder (s : MainLoop) : SameReading s.work.kbd s.kbd := by
  unfold MainLoop.work
  split
  · split <;> exact ⟨rfl, rfl, rfl⟩
  all_goals exact ⟨rfl, rfl, rfl⟩

/-- Each round brings it closer to where it waits for a key. -/
theorem work_distance (inv : LoopInv taken s) : distance s.work ≤ distance s - 1 := by
  have size := inv.valid.size.1
  have occupied := inv.occupied
  cases phase : s.phase with
  | loop =>
      cases empty : kbdIsempty s.kbd.queue with
      | true =>
          have none : s.kbd.queue.kbdSize = 0 := by simpa [kbdIsempty] using empty
          simp [MainLoop.work, phase, empty, distance, none]
      | false => simp [MainLoop.work, phase, empty, distance]
  | dequeue =>
      have found := occupied (Or.inl phase)
      have waiting : kbdIsempty s.kbd.queue = false := by
        simp [kbdIsempty]
        omega
      simp [MainLoop.work, phase, waiting, distance]
      omega
  | take =>
      have found := occupied (Or.inr phase)
      simp [MainLoop.work, phase, distance, kbdTake]
      omega
  | switch c =>
      by_cases leaving : leaves c = true <;> simp [MainLoop.work, phase, distance, leaving]
  | left => simp [MainLoop.work, phase, distance]

/-- However the bytes and the main program take turns, with room for each byte. -/
theorem run (actions : List LoopAction) (inv : LoopInv taken s) (same : SameReading s.kbd k)
    (done : decodeAll (scanned actions) k = .ok k') (room : s.roomy actions = true) :
    ∃ t taken', s.run actions = .ok t ∧ LoopInv taken' t ∧ SameReading t.kbd k' := by
  induction actions generalizing s taken k with
  | nil =>
      rw [← Except.ok.inj done]
      exact ⟨s, taken, rfl, inv, same⟩
  | cons action rest ih =>
      cases action with
      | byte c =>
          rw [MainLoop.roomy, Bool.and_eq_true] at room
          obtain ⟨next, decoded, later⟩ := bind_eq_ok.mp done
          obtain ⟨t, step, kept, follows⟩ := inv.byte (by simpa using room.1) same decoded
          rw [step] at room
          obtain ⟨u, taken', ended, after⟩ := ih kept follows later room.2
          refine ⟨u, taken', ?_, after⟩
          rw [MainLoop.run, List.foldlM_cons, step]
          exact ended
      | work =>
          obtain ⟨taken', kept⟩ := inv.work_inv
          have decoder := work_decoder s
          have follows : SameReading s.work.kbd k := ⟨decoder.kbdState.trans same.kbdState,
            decoder.kbdShiftstate.trans same.kbdShiftstate, decoder.enqueued.trans same.enqueued⟩
          exact ih kept follows done room

/-- Left alone the main program gets to where it waits for a key or is left. -/
theorem drain (rounds : Nat) (inv : LoopInv taken s) (enough : distance s ≤ rounds) :
    ∃ t taken', s.run (List.replicate rounds .work) = .ok t ∧ LoopInv taken' t ∧
      t.kbd.enqueued = s.kbd.enqueued ∧ distance t = 0 := by
  induction rounds generalizing s taken with
  | zero => exact ⟨s, taken, rfl, inv, rfl, Nat.le_zero.mp enough⟩
  | succ rounds ih =>
      obtain ⟨taken', kept⟩ := inv.work_inv
      have closer := inv.work_distance
      obtain ⟨t, last, ended, after, enqueued, waits⟩ := ih kept (by omega)
      exact ⟨t, last, ended, after, enqueued.trans (work_decoder s).enqueued, waits⟩

/-- There it has served everything up to the key it was left with. -/
theorem served_all (inv : LoopInv taken s) (waits : distance s = 0) :
    s.effects = served s.kbd.enqueued := by
  have history := inv.history
  have length := KbdQueue.entries_length inv.valid
  have size := inv.valid.size.1
  have occupied := inv.occupied
  rw [inv.effects, history]
  cases phase : s.phase with
  | loop =>
      have none : s.kbd.queue.entries = [] := by
        simp only [distance, phase] at waits
        apply List.length_eq_zero_iff.mp
        omega
      rw [none]
      simp [Phase.held]
  | left => rw [served_left (inv.left phase)]
  | dequeue =>
      have found := occupied (Or.inl phase)
      simp only [distance, phase] at waits
      omega
  | take =>
      have found := occupied (Or.inr phase)
      simp only [distance, phase] at waits
      omega
  | switch c => simp [distance, phase] at waits

end LoopInv

end Decoder

/-- The calls of `kbd_enqueue` only add to those before. -/
theorem decodeAll_enqueued {k k' : Kbd} (stream : List UInt8) (done : decodeAll stream k = .ok k') :
    k.enqueued <+: k'.enqueued := by
  induction stream generalizing k with
  | nil =>
      exact ⟨[], by rw [List.append_nil, ← Except.ok.inj done]⟩
  | cons c rest ih =>
      rw [decodeAll_cons] at done
      obtain ⟨next, step, later⟩ := bind_eq_ok.mp done
      have grows : k.enqueued <+: next.enqueued := by
        rcases decode_uniform c k.kbdState k.kbdShiftstate with ⟨fault, failed⟩ |
          ⟨stroke, after, read⟩
        · rw [failed k rfl rfl] at step
          cases step
        · rw [read k rfl rfl] at step
          rw [← Except.ok.inj step]
          change k.enqueued <+: (stroke.perform k).enqueued
          rw [Stroke.perform_enqueued]
          exact List.prefix_append _ _
      exact grows.trans (ih later)

/-- In every run in which the keyboard sends complete sequences and no byte comes while the queue
is full: without Pause and Print Screen before the first r, h, z or c the loop never does anything
but the commands in their order, and once it has caught up with the keyboard it has done just the
commands exactly if there is none of the two. -/
theorem key_codes_survive_iff (sequences : List KeySequence) (actions : List LoopAction)
    (typed : scanned actions <+: KeySequence.stream sequences)
    (room : mainLoopStart.roomy actions = true) :
    ∃ s, mainLoopStart.run actions = .ok s ∧
      ((∀ key ∈ untilLeft 0 sequences, key.announced = none) →
        s.effects <+: commands 0 sequences) ∧
      (scanned actions = KeySequence.stream sequences → ∃ rounds, ∀ more, rounds ≤ more →
        ∃ t, s.run (List.replicate more .work) = .ok t ∧
          (t.effects = commands 0 sequences ↔
            ∀ key ∈ untilLeft 0 sequences, key.announced = none)) := by
  obtain ⟨whole, all, read⟩ := decodeAll_stream sequences (k := kbdStart) rfl
  obtain ⟨rest, bytes⟩ := typed
  rw [← bytes, decodeAll_append] at all
  obtain ⟨k, done, remaining⟩ := bind_eq_ok.mp all
  obtain ⟨s, taken, reached, inv, same⟩ := LoopInv.start.run actions ⟨rfl, rfl, rfl⟩ done room
  have enqueued : whole.enqueued = Stroke.outputs KeySequence.decoded 0 sequences := read.enqueued
  refine ⟨s, reached, ?_, ?_⟩
  · intro plain
    rw [← (commands_iff sequences 0).mpr plain, ← enqueued, inv.effects]
    have sent := decodeAll_enqueued rest remaining
    rw [← same.enqueued, inv.history] at sent
    obtain ⟨later, total⟩ := sent
    rw [← total, List.append_assoc]
    exact served_prefix _ _
  · intro complete
    refine ⟨LoopInv.distance s, ?_⟩
    intro more enough
    obtain ⟨t, last, ended, caught, events, waits⟩ := inv.drain more enough
    refine ⟨t, ended, ?_⟩
    have nothing : rest = [] := by
      rw [complete] at bytes
      exact List.append_right_eq_self.mp bytes
    rw [nothing] at remaining
    have end' : k = whole := Except.ok.inj remaining
    rw [caught.served_all waits, events, same.enqueued, end', enqueued]
    exact commands_iff sequences 0

/-- The keys b, Pause and h while the main loop is at work, and the loop left after them. -/
def pausedTyping : List LoopAction :=
  [.byte 0x30, .work, .byte 0xB0, .byte 0xE1, .work, .byte 0x1D, .byte 0x45, .work, .byte 0xE1,
    .byte 0x9D, .work, .byte 0xC5, .byte 0x23]

def pausedSequences : List KeySequence :=
  [.plain 0x30 (by decide), .plain 0xB0 (by decide), .pause, .plain 0x23 (by decide)]

theorem paused_typing_is_served :
    ∃ s, mainLoopStart.run pausedTyping = .ok s ∧
      ((∀ key ∈ untilLeft 0 pausedSequences, key.announced = none) →
        s.effects <+: commands 0 pausedSequences) ∧
      (scanned pausedTyping = KeySequence.stream pausedSequences → ∃ rounds, ∀ more,
        rounds ≤ more → ∃ t, s.run (List.replicate more .work) = .ok t ∧
          (t.effects = commands 0 pausedSequences ↔
            ∀ key ∈ untilLeft 0 pausedSequences, key.announced = none)) :=
  key_codes_survive_iff pausedSequences pausedTyping (List.prefix_refl _) (by decide +kernel)

def pauseKey : List LoopAction := KeySequence.pause.bytes.map .byte

/-- The Pause key alone does not print its text, however long the main loop goes on. -/
theorem pause_is_lost : ¬ ∃ rounds, ∀ more, rounds ≤ more →
    ∃ s t, mainLoopStart.run pauseKey = .ok s ∧ s.run (List.replicate more .work) = .ok t ∧
      t.effects = commands 0 [.pause] := by
  rintro ⟨rounds, claim⟩
  have decoded := decodeAll_sequence (k := kbdStart) rfl .pause
  obtain ⟨s, taken, reached, inv, same⟩ := LoopInv.start.run pauseKey ⟨rfl, rfl, rfl⟩ decoded
    (by decide +kernel)
  obtain ⟨s', t, pressed, ended, prints⟩ := claim (rounds + LoopInv.distance s) (by omega)
  obtain ⟨t', last, drained, caught, events, waits⟩ :=
    inv.drain (rounds + LoopInv.distance s) (by omega)
  rw [reached] at pressed
  cases pressed
  rw [drained] at ended
  cases ended
  have silent := caught.served_all waits
  rw [events, same.enqueued, prints] at silent
  exact absurd silent (by decide)

end FrogOS
