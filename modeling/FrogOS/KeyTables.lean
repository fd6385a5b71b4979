import FrogOS.KeyModifiers

set_option autoImplicit false

namespace FrogOS

open BoundedAccess CircularBuffer

/-- Pause, and Print Screen going down. -/
def longSequences : List (List UInt8) :=
  [[0xE1, 0x1D, 0x45, 0xE1, 0x9D, 0xC5], [0xE0, 0x2A, 0xE0, 0x37]]

/-- A long sequence starts with these bytes and goes on. -/
def begins (front : List UInt8) : Bool :=
  longSequences.any fun s => front.isPrefixOf s && front.length < s.length

/-- The byte `c` ends a sequence: it is the second after E0 or the last of a long one. -/
def completes (pending : List UInt8) (c : UInt8) : Bool :=
  pending = [0xE0] || pending ++ [c] ∈ longSequences

/-- The bytes of the sequence under way when `c` comes behind those of `pending`. A byte that
does not go on with a sequence may begin another one. -/
def follow (pending : List UInt8) (c : UInt8) : List UInt8 :=
  if begins (pending ++ [c]) then pending ++ [c]
  else if completes pending c then []
  else if begins [c] then [c]
  else []

/-- `c` belongs to no longer sequence. -/
def Alone (pending : List UInt8) (c : UInt8) : Prop :=
  begins (pending ++ [c]) = false ∧ completes pending c = false ∧ begins [c] = false

instance (pending : List UInt8) (c : UInt8) : Decidable (Alone pending c) :=
  inferInstanceAs (Decidable (_ ∧ _ ∧ _))

/-- But for its highest bit, a byte that stands for a key by itself is at most 0x58. -/
def KnownCodes : List UInt8 → List UInt8 → Prop
  | _, [] => True
  | pending, c :: rest => (Alone pending c → c &&& 0x7F ≤ 0x58) ∧ KnownCodes (follow pending c) rest

/-- The four bits of `kbd_shiftstate`. -/
def modifierBits : UInt32 := kbdShift ||| kbdCtrl ||| kbdAlt ||| kbdInsert

/-- A key with its modifiers, and not the 0 of an empty queue. -/
structure IsEvent (value : UInt32) : Prop where
  nonzero : value ≠ 0
  key : 1 ≤ value.toUInt8 ∧ value.toUInt8 ≤ 0xA0
  modifiers : value >>> 8 &&& ~~~modifierBits = 0

/-- An input of the keyboard's queue: the handler reads a byte, or the main program does one of the
two parts of `kbd_dequeue`. -/
inductive KbdInput
  | byte (c : UInt8)
  | test
  | take
deriving DecidableEq, Repr

structure KbdSession where
  kbd : Kbd
  /-- A call of `kbd_dequeue` has seen a nonempty queue and not yet disabled interrupts. -/
  committed : Bool
  /-- Whether the calls of `kbd_dequeue` found the queue empty, and what they returned. -/
  dequeued : List (Bool × UInt32)

def kbdSessionStart : KbdSession where
  kbd := kbdStart
  committed := false
  dequeued := []

/-- Only one call of `kbd_dequeue` is under way at a time. -/
def KbdSession.next (s : KbdSession) : KbdInput → Except DecodeFault KbdSession
  | .byte c => do
      let kbd ← decode c s.kbd
      .ok { s with kbd }
  | .test =>
      if s.committed then .ok s
      else if kbdIsempty s.kbd.queue then .ok { s with dequeued := s.dequeued ++ [(true, 0)] }
      else .ok { s with committed := true }
  | .take =>
      if s.committed then
        let (c, queue) := kbdTake s.kbd.queue
        .ok { kbd := { s.kbd with queue }, committed := false
              dequeued := s.dequeued ++ [(false, c)] }
      else .ok s

def KbdSession.run (s : KbdSession) (inputs : List KbdInput) : Except DecodeFault KbdSession :=
  inputs.foldlM KbdSession.next s

/-- The two parts with nothing in between are a call of `kbd_dequeue`. -/
theorem KbdSession.next_dequeue (s : KbdSession) (free : s.committed = false) :
    (s.next .test >>= fun t => t.next .take) =
      .ok { s with
        kbd := { s.kbd with queue := (kbdDequeue s.kbd.queue).2 }
        dequeued := s.dequeued ++ [(kbdIsempty s.kbd.queue, (kbdDequeue s.kbd.queue).1)] } := by
  by_cases empty : s.kbd.queue.kbdSize = 0
  · simp [next, free, kbdIsempty, kbdDequeue, empty, ok_bind]
  · simp [next, free, kbdIsempty, kbdDequeue, empty, ok_bind]

/-- The bytes among the inputs. -/
def received (inputs : List KbdInput) : List UInt8 :=
  inputs.filterMap fun input =>
    match input with
    | .byte c => some c
    | _ => none

/-- No read is outside a table and no call of `decode` nested twice, or there would be no result;
what was enqueued are events, and a call of `kbd_dequeue` that returned 0 found the queue empty. -/
def StaysInside (inputs : List KbdInput) : Prop :=
  ∃ s, kbdSessionStart.run inputs = .ok s ∧ (∀ value ∈ s.kbd.enqueued, IsEvent value) ∧
    ∀ empty value, (empty, value) ∈ s.dequeued → value = 0 → empty = true

/-- A state of `decode` inside a long sequence, with the byte that goes on with it. -/
structure Midway where
  pending : List UInt8
  state : UInt32
  expected : UInt8
  stroke : Stroke
  next : UInt32
deriving DecidableEq

def midways : List Midway :=
  [⟨[0xE1], 0xE1, 0x1D, .nothing, 0x1D⟩,
    ⟨[0xE1, 0x1D], 0x1D, 0x45, .nothing, 0x45⟩,
    ⟨[0xE1, 0x1D, 0x45], 0x45, 0xE1, .nothing, 0x2E1⟩,
    ⟨[0xE1, 0x1D, 0x45, 0xE1], 0x2E1, 0x9D, .nothing, 0x9D⟩,
    ⟨[0xE1, 0x1D, 0x45, 0xE1, 0x9D], 0x9D, 0xC5, .key keyPause, 0⟩,
    ⟨[0xE0, 0x2A], 0xE02A, 0xE0, .nothing, 0x2AE0⟩,
    ⟨[0xE0, 0x2A, 0xE0], 0x2AE0, 0x37, .key keyPrtsc, 0⟩]

/-- The bytes of the sequence under way are those of `pending` when `kbd_state` is `state`. -/
def Tracks (pending : List UInt8) (state : UInt32) : Prop :=
  (pending = [] ∧ state = 0) ∨ (pending = [0xE0] ∧ state = 0xE0) ∨
    ∃ m ∈ midways, m.pending = pending ∧ m.state = state

instance (pending : List UInt8) (state : UInt32) : Decidable (Tracks pending state) :=
  inferInstanceAs (Decidable (_ ∨ _ ∨ _))

/-- What `decode` may do: it changes the four modifier bits, or enqueues a key code. -/
def Stroke.Sound : Stroke → Prop
  | .key c => 1 ≤ c ∧ c ≤ 0xA0
  | stroke => stroke.mask &&& ~~~modifierBits = 0

instance (stroke : Stroke) : Decidable stroke.Sound := by
  unfold Stroke.Sound
  cases stroke <;> exact inferInstance

section Strokes

theorem extendedStroke_sound (c : UInt8) : (extendedStroke c).Sound := by
  revert c
  apply forall_byte
  decide +kernel

theorem getD_mem_cons (xs : List UInt8) (i : Nat) : xs.getD i 0 ∈ 0 :: xs := by
  rw [List.getD_eq_getElem?_getD]
  cases entry : xs[i]? with
  | none => exact List.mem_cons_self
  | some value => exact List.mem_cons_of_mem 0 (List.mem_of_getElem? entry)

theorem scancodes_sound : ∀ decoded ∈ 0 :: scancodes,
    (makeStroke decoded).Sound ∧ (breakStroke decoded).Sound := by
  decide +kernel

theorem shiftScancodes_sound : ∀ decoded ∈ 0 :: shiftScancodes, (makeStroke decoded).Sound := by
  decide +kernel

theorem plainMeaning_sound (before : UInt32) (c : UInt8) : (plainMeaning before c).Sound := by
  apply plainMeaning_cases Stroke.Sound
  · exact (scancodes_sound _ (getD_mem_cons scancodes _)).1
  · exact shiftScancodes_sound _ (getD_mem_cons shiftScancodes _)
  · exact (scancodes_sound _ (getD_mem_cons scancodes _)).2

theorem readTable_error {table : List UInt8} (length : table.length = 0x59) {c : UInt8}
    (outside : ¬ c ≤ 0x58) : readTable table c = .error (.outsideTable c.toNat) := by
  have behind : table.length ≤ c.toNat := by
    rw [length]
    exact Nat.lt_of_not_le outside
  rw [readTable, List.getElem?_eq_none behind]

theorem plainStroke_error {c : UInt8} (unknown : ¬ c &&& 0x7F ≤ 0x58) (shiftstate : UInt32) :
    plainStroke shiftstate c = .error (.outsideTable (c &&& 0x7F).toNat) := by
  unfold plainStroke
  split
  · rename_i make
    rw [and_mask_of_make c make] at unknown ⊢
    have length : (if shiftstate &&& kbdShift ≠ 0 then shiftScancodes else scancodes).length =
        0x59 := by
      split
      · exact shiftScancodes_length
      · exact scancodes_length
    rw [readTable_error length unknown]
    rfl
  · rw [readTable_error scancodes_length unknown]
    rfl

/-- With no other bits set than the modifiers' an event is one. -/
theorem event_isEvent {before : UInt32} {c : UInt8} (bits : before &&& ~~~modifierBits = 0)
    (key : 1 ≤ c ∧ c ≤ 0xA0) : IsEvent (event before c) := by
  have low := event_key before c
  refine ⟨?_, ?_, ?_⟩
  · intro null
    rw [null] at low
    rw [← low] at key
    exact absurd key.1 (by decide)
  · rw [low]
    exact key
  · rw [event, ← UInt32.toBitVec_inj] at *
    simp only [UInt32.toBitVec_and, UInt32.toBitVec_or, UInt32.toBitVec_shiftRight,
      UInt32.toBitVec_shiftLeft, UInt32.toBitVec_not] at *
    ext i inside
    have bit := congrArg (fun v => v.getLsbD i) bits
    simp [inside] at bit ⊢
    exact fun _ => bit

end Strokes

section Steps

variable {k : Kbd}

theorem begins_iff (c : UInt8) : begins [c] = true ↔ c = 0xE0 ∨ c = 0xE1 := by
  revert c
  apply forall_byte
  decide +kernel

/-- What `decode` makes of one byte behind those of `pending`: a read outside a table, or one
stroke and the next state. -/
inductive Decoded (alone : Prop) (after : List UInt8) (c : UInt8) (k : Kbd) :
    Except DecodeFault Kbd → Prop
  | outside (single : alone) (unknown : ¬ c &&& 0x7F ≤ 0x58) :
      Decoded alone after c k (.error (.outsideTable (c &&& 0x7F).toNat))
  | stroke (stroke : Stroke) (state : UInt32) (known : alone → c &&& 0x7F ≤ 0x58)
      (sound : stroke.Sound) (tracked : Tracks after state) :
      Decoded alone after c k (.ok { stroke.perform k with kbdState := state })

/-- A byte with nothing before it, also in the recursive call. -/
theorem decodeWith_idle (again : UInt8 → Kbd → Except DecodeFault Kbd) (idle : k.kbdState = 0)
    (c : UInt8) :
    Decoded (begins [c] = false) (if begins [c] then [c] else []) c k (decodeWith again c k) := by
  by_cases escape : c = 0xE0 ∨ c = 0xE1
  · have done : decodeWith again c k =
        .ok { Stroke.perform k .nothing with kbdState := c.toUInt32 } := by
      rcases escape with rfl | rfl <;> simp [decodeWith, idle, Stroke.perform]
    rw [if_pos ((begins_iff c).mpr escape), done]
    apply Decoded.stroke
    · intro single
      exact absurd ((begins_iff c).mpr escape) (by simp [single])
    · exact UInt32.zero_and
    · rcases escape with rfl | rfl <;> decide
  · have single : begins [c] = false := Bool.eq_false_iff.mpr (mt (begins_iff c).mp escape)
    have other : c ≠ 0xE0 ∧ c ≠ 0xE1 := not_or.mp escape
    rw [single]
    by_cases known : c &&& 0x7F ≤ 0x58
    · have done : decodeWith again c k =
          .ok { (plainMeaning k.kbdShiftstate c).perform k with kbdState := 0 } := by
        rw [decodeWith_plain again idle known, Stroke.perform_idle k _ idle]
      rw [done]
      apply Decoded.stroke
      · exact fun _ => known
      · exact plainMeaning_sound _ _
      · exact Or.inl ⟨rfl, rfl⟩
    · have failed : decodeWith again c k = .error (.outsideTable (c &&& 0x7F).toNat) := by
        simp [decodeWith, idle, other, plainStroke_error known]
        rfl
      rw [failed]
      exact Decoded.outside rfl known

/-- The byte that a long sequence goes on with. -/
theorem decode_expected {m : Midway} (midway : m ∈ midways) (state : k.kbdState = m.state) :
    decode m.expected k = .ok { m.stroke.perform k with kbdState := m.next } := by
  simp only [midways, List.mem_cons, List.not_mem_nil, or_false] at midway
  rcases midway with rfl | rfl | rfl | rfl | rfl | rfl | rfl
  all_goals
    simp only at state
    simp [decode, decodeNested, decodeWith, state, Stroke.perform]

theorem follow_expected : ∀ m ∈ midways, ¬ Alone m.pending m.expected ∧ m.stroke.Sound ∧
    Tracks (follow m.pending m.expected) m.next := by
  decide

/-- With any other byte `decode` starts again. -/
theorem decode_unexpected {m : Midway} (midway : m ∈ midways) (state : k.kbdState = m.state)
    {c : UInt8} (other : c ≠ m.expected) :
    decode c k = decodeNested 1 c { k with kbdState := 0 } := by
  simp only [midways, List.mem_cons, List.not_mem_nil, or_false] at midway
  rcases midway with rfl | rfl | rfl | rfl | rfl | rfl | rfl
  all_goals
    simp only at state other
    rw [decode, decodeNested]
    simp [decodeWith, state, other]

theorem follow_unexpected {m : Midway} (midway : m ∈ midways) {c : UInt8}
    (other : c ≠ m.expected) :
    begins (m.pending ++ [c]) = false ∧ completes m.pending c = false := by
  simp only [midways, List.mem_cons, List.not_mem_nil, or_false] at midway
  rcases midway with rfl | rfl | rfl | rfl | rfl | rfl | rfl
  all_goals
    simp only at other
    simp [begins, completes, longSequences, List.isPrefixOf, other]

theorem perform_from (stroke : Stroke) (before after : UInt32) :
    { stroke.perform { k with kbdState := before } with kbdState := after } =
      { stroke.perform k with kbdState := after } := by
  cases stroke <;> rfl

/-- The byte behind E0. -/
theorem decode_escaped (state : k.kbdState = 0xE0) (c : UInt8) :
    Decoded (Alone [0xE0] c) (follow [0xE0] c) c k (decode c k) := by
  have joined : ¬ Alone [0xE0] c := by
    simp [Alone, completes]
  by_cases long : c = 0x2A
  · have done : decode c k = .ok { Stroke.perform k .nothing with kbdState := 0xE02A } := by
      rw [long]
      simp [decode, decodeNested, decodeWith, state, Stroke.perform]
    rw [done]
    apply Decoded.stroke
    · exact fun single => absurd single joined
    · exact UInt32.zero_and
    · rw [long]
      decide
  · have done : decode c k = .ok { (extendedStroke c).perform k with kbdState := 0 } := by
      simp [decode, decodeNested, decodeWith, state, long]
    have ended : follow [0xE0] c = [] := by
      simp [follow, begins, completes, longSequences, long]
    rw [done, ended]
    apply Decoded.stroke
    · exact fun single => absurd single joined
    · exact extendedStroke_sound c
    · exact Or.inl ⟨rfl, rfl⟩

/-- The recursive call has only set `kbd_state` to 0. -/
theorem Decoded.from_idle {alone : Prop} {after : List UInt8} {c : UInt8}
    {result : Except DecodeFault Kbd}
    (decoded : Decoded alone after c { k with kbdState := 0 } result) :
    Decoded alone after c k result := by
  cases decoded with
  | outside single unknown => exact Decoded.outside single unknown
  | stroke stroke state known sound tracked =>
      rw [perform_from]
      exact Decoded.stroke stroke state known sound tracked

theorem decode_decoded {pending : List UInt8}
    (tracked : Tracks pending k.kbdState) (c : UInt8) :
    Decoded (Alone pending c) (follow pending c) c k (decode c k) := by
  rcases tracked with ⟨rfl, idle⟩ | ⟨rfl, escaped⟩ | ⟨m, midway, rfl, state⟩
  · have lone : completes [] c = false := by
      simp [completes, longSequences]
    have alone : Alone [] c ↔ begins [c] = false := by
      simp [Alone, lone]
    have after : follow [] c = if begins [c] then [c] else [] := by
      simp [follow, lone]
    rw [alone, after]
    exact decodeWith_idle _ idle c
  · exact decode_escaped escaped c
  · by_cases same : c = m.expected
    · obtain ⟨joined, sound, next⟩ := follow_expected m midway
      rw [same, decode_expected midway state.symm]
      apply Decoded.stroke
      · exact fun single => absurd single joined
      · exact sound
      · exact next
    · obtain ⟨goes, ends⟩ := follow_unexpected midway same
      have alone : Alone m.pending c ↔ begins [c] = false := by
        simp [Alone, goes, ends]
      have after : follow m.pending c = if begins [c] then [c] else [] := by
        simp [follow, goes, ends]
      rw [alone, after, decode_unexpected midway state.symm same]
      exact (decodeWith_idle _ rfl c).from_idle

end Steps

theorem Stroke.Sound.mask {stroke : Stroke} (sound : stroke.Sound) :
    stroke.mask &&& ~~~modifierBits = 0 := by
  cases stroke with
  | key c => exact UInt32.zero_and
  | _ => exact sound

theorem Stroke.Sound.events {stroke : Stroke} (sound : stroke.Sound) {before : UInt32}
    (bits : before &&& ~~~modifierBits = 0) : ∀ value ∈ stroke.events before, IsEvent value := by
  intro value sent
  cases stroke with
  | key c =>
      rw [List.mem_singleton.mp sent]
      exact event_isEvent bits sound
  | _ => cases sent

/-- The entries that were there stay. -/
theorem offers_keep {α : Type} (n : Nat) (xs values : List α) :
    xs.length ≤ (values.foldl (offer n) xs).length ∧
      ∀ value ∈ values.foldl (offer n) xs, value ∈ xs ∨ value ∈ values := by
  induction values generalizing xs with
  | nil => exact ⟨Nat.le_refl _, fun value member => Or.inl member⟩
  | cons first values ih =>
      obtain ⟨longer, among⟩ := ih (offer n xs first)
      have offered : xs.length ≤ (offer n xs first).length ∧
          ∀ value ∈ offer n xs first, value ∈ xs ∨ value = first := by
        unfold offer
        split
        · exact ⟨by simp, by simp⟩
        · exact ⟨Nat.le_refl _, fun value member => Or.inl member⟩
      refine ⟨Nat.le_trans offered.1 longer, ?_⟩
      intro value member
      rcases among value member with old | new
      · rcases offered.2 value old with before | same
        · exact Or.inl before
        · exact Or.inr (by simp [same])
      · exact Or.inr (List.mem_cons_of_mem first new)

/-- What holds between two inputs, where the bytes of `pending` are those of the sequence under
way. -/
structure KbdSession.Sound (pending : List UInt8) (s : KbdSession) : Prop where
  tracked : Tracks pending s.kbd.kbdState
  modifiers : s.kbd.kbdShiftstate &&& ~~~modifierBits = 0
  valid : s.kbd.queue.Valid
  occupied : s.committed = true → 0 < s.kbd.queue.kbdSize
  enqueued : ∀ value ∈ s.kbd.enqueued, IsEvent value
  waiting : ∀ value ∈ s.kbd.queue.entries, IsEvent value
  dequeued : ∀ empty value, (empty, value) ∈ s.dequeued → value = 0 → empty = true

namespace KbdSession

theorem sound_start : Sound [] kbdSessionStart where
  tracked := Or.inl ⟨rfl, rfl⟩
  modifiers := rfl
  valid := KbdQueue.start_valid
  occupied := nofun
  enqueued := nofun
  waiting := nofun
  dequeued := nofun

variable {s : KbdSession} {pending : List UInt8}

/-- A stroke of `decode`. -/
theorem Sound.perform (sound : s.Sound pending) {stroke : Stroke} (event : stroke.Sound)
    {after : List UInt8} {state : UInt32} (tracked : Tracks after state) :
    Sound after { s with kbd := { stroke.perform s.kbd with kbdState := state } } := by
  have sent := event.events sound.modifiers
  obtain ⟨valid, entries⟩ := Stroke.perform_queue s.kbd stroke sound.valid
  obtain ⟨longer, among⟩ := offers_keep 128 s.kbd.queue.entries
    (stroke.events s.kbd.kbdShiftstate)
  constructor
  · exact tracked
  · change (stroke.perform s.kbd).kbdShiftstate &&& ~~~modifierBits = 0
    rw [Stroke.perform_kbdShiftstate, Stroke.shiftstate_and stroke event.mask]
    exact sound.modifiers
  · exact valid
  · intro committed
    have before := sound.occupied committed
    have size := KbdQueue.entries_length sound.valid
    have size' := KbdQueue.entries_length valid
    change 0 < (stroke.perform s.kbd).queue.kbdSize
    rw [entries] at size'
    omega
  · intro value member
    change value ∈ (stroke.perform s.kbd).enqueued at member
    rw [Stroke.perform_enqueued, List.mem_append] at member
    rcases member with old | new
    · exact sound.enqueued value old
    · exact sent value new
  · intro value member
    change value ∈ (stroke.perform s.kbd).queue.entries at member
    rw [entries] at member
    rcases among value member with old | new
    · exact sound.waiting value old
    · exact sent value new
  · exact sound.dequeued

theorem Sound.byte (sound : s.Sound pending) (c : UInt8) :
    (¬ (Alone pending c → c &&& 0x7F ≤ 0x58) ∧ ∃ index, 0x59 ≤ index ∧
      s.next (.byte c) = .error (.outsideTable index)) ∨
    ((Alone pending c → c &&& 0x7F ≤ 0x58) ∧ ∃ t, s.next (.byte c) = .ok t ∧
      t.Sound (follow pending c)) := by
  have decoded := decode_decoded sound.tracked c
  simp only [next]
  generalize decode c s.kbd = result at decoded
  cases decoded with
  | outside single unknown =>
      have index : 0x59 ≤ (c &&& 0x7F).toNat := Nat.lt_of_not_le unknown
      exact Or.inl ⟨fun known => unknown (known single), _, index, rfl⟩
  | stroke stroke state known event tracked =>
      exact Or.inr ⟨known, _, rfl, sound.perform event tracked⟩

theorem Sound.test (sound : s.Sound pending) : ∃ t, s.next .test = .ok t ∧ t.Sound pending := by
  unfold next
  by_cases committed : s.committed = true
  · exact ⟨s, if_pos committed, sound⟩
  rw [if_neg committed]
  by_cases empty : kbdIsempty s.kbd.queue = true
  · refine ⟨_, if_pos empty, ?_⟩
    refine { sound with dequeued := ?_ }
    intro found value member null
    rcases List.mem_append.mp member with old | new
    · exact sound.dequeued found value old null
    · exact (Prod.mk.inj (List.mem_singleton.mp new)).1
  · refine ⟨_, if_neg empty, ?_⟩
    refine { sound with occupied := ?_ }
    intro _
    have size := sound.valid.size.1
    have other : s.kbd.queue.kbdSize ≠ 0 := by simpa [kbdIsempty] using empty
    change 0 < s.kbd.queue.kbdSize
    omega

theorem Sound.take (sound : s.Sound pending) : ∃ t, s.next .take = .ok t ∧ t.Sound pending := by
  unfold next
  by_cases committed : s.committed = true
  · obtain ⟨valid, entries⟩ := KbdQueue.take_spec sound.valid (sound.occupied committed)
    have waiting := sound.waiting
    rw [entries] at waiting
    refine ⟨_, if_pos committed, ?_⟩
    refine { sound with valid := valid, occupied := nofun, waiting := ?_, dequeued := ?_ }
    · exact fun value member => waiting value (List.mem_cons_of_mem _ member)
    · intro found value member null
      rcases List.mem_append.mp member with old | new
      · exact sound.dequeued found value old null
      · have taken : value = (kbdTake s.kbd.queue).1 :=
          (Prod.mk.inj (List.mem_singleton.mp new)).2
        rw [taken] at null
        exact absurd null (waiting _ List.mem_cons_self).nonzero
  · exact ⟨s, if_neg committed, sound⟩

theorem run_cons (s : KbdSession) (input : KbdInput) (rest : List KbdInput) :
    s.run (input :: rest) = (s.next input >>= fun t => t.run rest) := List.foldlM_cons

/-- A run ends at the first byte that stands for a key behind the tables. -/
theorem Sound.run (inputs : List KbdInput) (sound : s.Sound pending) :
    (¬ KnownCodes pending (received inputs) ∧ ∃ index, 0x59 ≤ index ∧
      s.run inputs = .error (.outsideTable index)) ∨
    (KnownCodes pending (received inputs) ∧ ∃ t after, s.run inputs = .ok t ∧ t.Sound after) := by
  induction inputs generalizing s pending with
  | nil => exact Or.inr ⟨trivial, s, pending, rfl, sound⟩
  | cons input rest ih =>
      rw [run_cons]
      cases input with
      | byte c =>
          change (¬ (_ ∧ _) ∧ _) ∨ (_ ∧ _) ∧ _
          rcases sound.byte c with ⟨unknown, index, behind, failed⟩ | ⟨known, t, done, kept⟩
          · rw [failed]
            exact Or.inl ⟨fun all => unknown all.1, index, behind, rfl⟩
          · rw [done, ok_bind]
            rcases ih kept with ⟨unknown, failed⟩ | ⟨others, ended⟩
            · exact Or.inl ⟨fun all => unknown all.2, failed⟩
            · exact Or.inr ⟨⟨known, others⟩, ended⟩
      | test =>
          obtain ⟨t, done, kept⟩ := sound.test
          rw [done, ok_bind]
          exact ih kept
      | take =>
          obtain ⟨t, done, kept⟩ := sound.take
          rw [done, ok_bind]
          exact ih kept

end KbdSession

/-- The decoder stays inside its tables and its format exactly if each byte that stands for a key
by itself is in the tables. Nothing else goes wrong but a read behind them. -/
theorem decoder_stays_inside_iff (inputs : List KbdInput) :
    (StaysInside inputs ↔ KnownCodes [] (received inputs)) ∧
      ∀ fault, kbdSessionStart.run inputs = .error fault →
        ∃ index, 0x59 ≤ index ∧ fault = .outsideTable index := by
  rcases KbdSession.sound_start.run inputs with ⟨unknown, index, behind, failed⟩ |
    ⟨known, s, after, done, sound⟩
  · constructor
    · constructor
      · intro inside
        obtain ⟨s, done, -⟩ := inside
        rw [failed] at done
        cases done
      · exact fun known => absurd known unknown
    · intro fault other
      rw [failed] at other
      exact ⟨index, behind, (Except.error.inj other).symm⟩
  · constructor
    · exact ⟨fun _ => known, fun _ => ⟨s, done, sound.enqueued, sound.dequeued⟩⟩
    · intro fault failed
      rw [done] at failed
      cases failed

/-- The acknowledgement of a keyboard, FA, is taken for the key 7A that goes up. -/
theorem acknowledgement_reads_behind_table : ¬ ∀ inputs, StaysInside inputs := by
  intro claim
  obtain ⟨s, done, -⟩ := claim [.byte 0xFA]
  have failed : kbdSessionStart.run [.byte 0xFA] = .error (.outsideTable 0x7A) := rfl
  rw [failed] at done
  cases done

end FrogOS
