import FrogOS.Keyboard
import Mathlib.Data.List.Basic

set_option autoImplicit false

namespace FrogOS

open BoundedAccess CircularBuffer

/-- The navigation keys, which a keyboard may wrap in fake shifts. -/
def navigationCodes : List UInt8 :=
  [0x47, 0x48, 0x49, 0x4B, 0x4D, 0x4F, 0x50, 0x51, 0x52, 0x53]

/-- A complete set-1 sequence. The mask leaves E0 and E1 out of the plain bytes. -/
inductive KeySequence
  | plain (b : UInt8) (known : b &&& 0x7F ≤ 0x58)
  | pair (b : UInt8) (single : b ≠ 0x2A ∧ b ≠ 0x37 ∧ b ≠ 0xE0 ∧ b ≠ 0xE1)
  | pause
  | printScreenMake
  | printScreenBreak
  | navigationMake (c : UInt8) (navigation : c ∈ navigationCodes)
  | navigationBreak (c : UInt8) (navigation : c ∈ navigationCodes)

namespace KeySequence

def bytes : KeySequence → List UInt8
  | plain b _ => [b]
  | pair b _ => [0xE0, b]
  | pause => [0xE1, 0x1D, 0x45, 0xE1, 0x9D, 0xC5]
  | printScreenMake => [0xE0, 0x2A, 0xE0, 0x37]
  | printScreenBreak => [0xE0, 0xB7, 0xE0, 0xAA]
  | navigationMake c _ => [0xE0, 0x2A, 0xE0, c]
  | navigationBreak c _ => [0xE0, c ||| 0x80, 0xE0, 0xAA]

/-- The bytes a keyboard sends for one sequence after the other. -/
def stream (sequences : List KeySequence) : List UInt8 := sequences.flatMap bytes

/-- A navigation key going down between fake shifts. -/
def Wrapped : KeySequence → Prop
  | navigationMake _ _ => True
  | _ => False

end KeySequence

/-- The table's entry for a plain byte that has one. -/
def plainMeaning (shiftstate : UInt32) (b : UInt8) : Stroke :=
  if b &&& 0x80 = 0 then
    makeStroke
      ((if shiftstate &&& kbdShift ≠ 0 then shiftScancodes else scancodes).getD b.toNat 0)
  else breakStroke (scancodes.getD (b &&& 0x7F).toNat 0)

/-- What a sequence stands for: a wrapped navigation key is the same key as the bare one. -/
def KeySequence.meaning (shiftstate : UInt32) : KeySequence → Stroke
  | .plain b _ => plainMeaning shiftstate b
  | .pair b _ => extendedStroke b
  | .pause => .key keyPause
  | .printScreenMake => .key keyPrtsc
  | .printScreenBreak => .nothing
  | .navigationMake c _ => extendedStroke c
  | .navigationBreak _ _ => .nothing

/-- What `decode` takes a sequence for: it reads the last byte of a wrapped
navigation key as a key of the numeric keypad. -/
def KeySequence.decoded (shiftstate : UInt32) : KeySequence → Stroke
  | .navigationMake c _ => plainMeaning shiftstate c
  | s => s.meaning shiftstate

namespace Stroke

/-- The modifier bits after a stroke. -/
def shiftstate (before : UInt32) : Stroke → UInt32
  | .set mask => before ||| mask
  | .clear mask => before &&& ~~~mask
  | .toggle mask => before ^^^ mask
  | .key _ => before
  | .nothing => before

/-- The events of a stroke. -/
def events (before : UInt32) : Stroke → List UInt32
  | .key c => [event before c]
  | _ => []

/-- The modifier bits after several sequences, each read by `read`. -/
def finish (read : UInt32 → KeySequence → Stroke) : UInt32 → List KeySequence → UInt32
  | before, [] => before
  | before, s :: rest => finish read ((read before s).shiftstate before) rest

/-- The events of several sequences, each with the modifier bits those before it left. -/
def outputs (read : UInt32 → KeySequence → Stroke) : UInt32 → List KeySequence → List UInt32
  | _, [] => []
  | before, s :: rest =>
      (read before s).events before ++ outputs read ((read before s).shiftstate before) rest

variable (k : Kbd) (stroke : Stroke)

@[simp] theorem perform_kbdState : (stroke.perform k).kbdState = k.kbdState := by
  cases stroke <;> rfl

@[simp] theorem perform_kbdShiftstate :
    (stroke.perform k).kbdShiftstate = stroke.shiftstate k.kbdShiftstate := by
  cases stroke <;> rfl

theorem perform_enqueued :
    (stroke.perform k).enqueued = k.enqueued ++ stroke.events k.kbdShiftstate := by
  cases stroke <;> simp [perform, events, Kbd.enqueue]

/-- A stroke neither reads the decoder's state nor changes it. -/
theorem perform_between (state : UInt32) (idle : k.kbdState = 0) :
    { stroke.perform { k with kbdState := state } with kbdState := 0 } = stroke.perform k := by
  obtain ⟨_, before, queue, enqueued⟩ := k
  cases idle
  cases stroke <;> rfl

theorem perform_idle (idle : k.kbdState = 0) :
    { stroke.perform k with kbdState := 0 } = stroke.perform k := by
  have same := perform_between k stroke 0 idle
  obtain ⟨_, before, queue, enqueued⟩ := k
  cases idle
  exact same

theorem perform_queue (valid : k.queue.Valid) :
    (stroke.perform k).queue.Valid ∧ (stroke.perform k).queue.entries =
      (stroke.events k.kbdShiftstate).foldl (offer 128) k.queue.entries := by
  cases stroke with
  | key c => exact KbdQueue.enqueue_spec valid _
  | _ => exact ⟨valid, rfl⟩

end Stroke

/-- To prove something of every byte, go through the 256 values. -/
theorem forall_byte {p : UInt8 → Prop} (all : ∀ i : Fin 256, p (UInt8.ofFin i)) (b : UInt8) :
    p b := by
  have here := all b.toFin
  rwa [UInt8.ofFin_toFin] at here

theorem readTable_ok {table : List UInt8} (length : table.length = 0x59) {c : UInt8}
    (inside : c ≤ 0x58) : readTable table c = .ok (table.getD c.toNat 0) := by
  have below : c.toNat < table.length := by
    rw [length]
    exact Nat.lt_succ_of_le inside
  rw [readTable, List.getD_eq_getElem?_getD, List.getElem?_eq_getElem below]
  rfl

theorem scancodes_length : scancodes.length = 0x59 := by decide

theorem shiftScancodes_length : shiftScancodes.length = 0x59 := by decide

theorem and_mask_of_make (b : UInt8) : b &&& 0x80 = 0 → b &&& 0x7F = b := by
  revert b
  apply forall_byte
  decide +kernel

theorem plainStroke_ok {b : UInt8} (known : b &&& 0x7F ≤ 0x58) (shiftstate : UInt32) :
    plainStroke shiftstate b = .ok (plainMeaning shiftstate b) := by
  unfold plainStroke plainMeaning
  split
  · rename_i make
    rw [and_mask_of_make b make] at known
    have length : (if shiftstate &&& kbdShift ≠ 0 then shiftScancodes else scancodes).length =
        0x59 := by
      split
      · exact shiftScancodes_length
      · exact scancodes_length
    rw [readTable_ok length known, ok_bind]
  · rw [readTable_ok scancodes_length known, ok_bind]

section Steps

variable {k : Kbd} {c : UInt8}

theorem decode_escape (idle : k.kbdState = 0) :
    decode 0xE0 k = .ok { k with kbdState := 0xE0 } := by
  simp [decode, decodeNested, decodeWith, idle]

theorem decodeWith_plain (again : UInt8 → Kbd → Except DecodeFault Kbd) (idle : k.kbdState = 0)
    (known : c &&& 0x7F ≤ 0x58) :
    decodeWith again c k = .ok ((plainMeaning k.kbdShiftstate c).perform k) := by
  have first : c ≠ 0xE0 := by
    rintro rfl
    exact absurd known (by decide)
  have second : c ≠ 0xE1 := by
    rintro rfl
    exact absurd known (by decide)
  rw [← Stroke.perform_idle k _ idle]
  simp [decodeWith, idle, first, second, plainStroke_ok known, ok_bind]

theorem decode_plain (idle : k.kbdState = 0) (known : c &&& 0x7F ≤ 0x58) :
    decode c k = .ok ((plainMeaning k.kbdShiftstate c).perform k) :=
  decodeWith_plain _ idle known

theorem decode_extended (idle : k.kbdState = 0) (single : c ≠ 0x2A) :
    decode c { k with kbdState := 0xE0 } = .ok ((extendedStroke c).perform k) := by
  rw [← Stroke.perform_between k _ 0xE0 idle]
  simp [decode, decodeNested, decodeWith, single]

/-- After E0 2A E0 a byte other than 37 is decoded as if nothing had come before it. -/
theorem decode_wrapped (idle : k.kbdState = 0) (known : c &&& 0x7F ≤ 0x58) (other : c ≠ 0x37) :
    decode c { k with kbdState := 0x2AE0 } = .ok ((plainMeaning k.kbdShiftstate c).perform k) := by
  have same : { k with kbdState := (0 : UInt32) } = k := by
    obtain ⟨_, before, queue, enqueued⟩ := k
    cases idle
    rfl
  have fallback : decode c { k with kbdState := 0x2AE0 } = decodeNested 1 c k := by
    rw [decode, decodeNested]
    simp [decodeWith, other, same]
  rw [fallback]
  exact decodeWith_plain _ idle known

theorem decodeAll_nil (k : Kbd) : decodeAll [] k = .ok k := rfl

theorem decodeAll_cons (k : Kbd) (c : UInt8) (rest : List UInt8) :
    decodeAll (c :: rest) k = (decode c k >>= decodeAll rest) := rfl

theorem decodeAll_append (k : Kbd) (front back : List UInt8) :
    decodeAll (front ++ back) k = (decodeAll front k >>= decodeAll back) :=
  List.foldlM_append

end Steps

section Navigation

variable {c : UInt8}

theorem navigation_known (navigation : c ∈ navigationCodes) : c &&& 0x7F ≤ 0x58 := by
  have all : ∀ c ∈ navigationCodes, c &&& 0x7F ≤ 0x58 := by decide +kernel
  exact all c navigation

theorem navigation_single (navigation : c ∈ navigationCodes) : c ≠ 0x37 ∧ c ||| 0x80 ≠ 0x2A := by
  have all : ∀ c ∈ navigationCodes, c ≠ 0x37 ∧ c ||| 0x80 ≠ 0x2A := by decide +kernel
  exact all c navigation

theorem navigation_release (navigation : c ∈ navigationCodes) :
    extendedStroke (c ||| 0x80) = .nothing := by
  have all : ∀ c ∈ navigationCodes, extendedStroke (c ||| 0x80) = .nothing := by decide +kernel
  exact all c navigation

end Navigation

/-- A byte after E0 performs its stroke. -/
theorem decodeAll_pair {k : Kbd} {c : UInt8} (idle : k.kbdState = 0) (single : c ≠ 0x2A)
    (rest : List UInt8) :
    decodeAll (0xE0 :: c :: rest) k = decodeAll rest ((extendedStroke c).perform k) := by
  rw [decodeAll_cons, decode_escape idle, ok_bind, decodeAll_cons, decode_extended idle single,
    ok_bind]

/-- A complete sequence performs one stroke and leaves `kbd_state` at 0. -/
theorem decodeAll_sequence {k : Kbd} (idle : k.kbdState = 0) (s : KeySequence) :
    decodeAll s.bytes k = .ok ((s.decoded k.kbdShiftstate).perform k) := by
  have fakeShift : extendedStroke 0xAA = .nothing := by decide
  cases s with
  | plain b known =>
      rw [KeySequence.bytes, decodeAll_cons, decode_plain idle known]
      rfl
  | pair b single =>
      rw [KeySequence.bytes, decodeAll_pair idle single.1]
      rfl
  | pause =>
      rw [← Stroke.perform_idle k _ idle]
      simp [KeySequence.bytes, decodeAll_cons, decode, decodeNested, decodeWith, idle, ok_bind]
      rfl
  | printScreenMake =>
      rw [← Stroke.perform_idle k _ idle]
      simp [KeySequence.bytes, decodeAll_cons, decode, decodeNested, decodeWith, idle, ok_bind]
      rfl
  | printScreenBreak =>
      have release : extendedStroke 0xB7 = .nothing := by decide
      rw [KeySequence.bytes, decodeAll_pair idle (by decide), release]
      change decodeAll [0xE0, 0xAA] k = _
      rw [decodeAll_pair idle (by decide), fakeShift]
      rfl
  | navigationMake c navigation =>
      have wrapped := decode_wrapped idle (navigation_known navigation)
        (navigation_single navigation).1
      have before : decodeAll [0xE0, 0x2A, 0xE0] k = .ok { k with kbdState := 0x2AE0 } := by
        simp [decodeAll_cons, decodeAll_nil, decode, decodeNested, decodeWith, idle, ok_bind]
      change decodeAll ([0xE0, 0x2A, 0xE0] ++ [c]) k = _
      rw [decodeAll_append, before, ok_bind, decodeAll_cons, wrapped]
      rfl
  | navigationBreak c navigation =>
      rw [KeySequence.bytes, decodeAll_pair idle (navigation_single navigation).2,
        navigation_release navigation]
      change decodeAll [0xE0, 0xAA] k = _
      rw [decodeAll_pair idle (by decide), fakeShift]
      rfl

/-- What a stream of complete sequences leaves, as `decode` reads them. -/
structure Kbd.Read (k k' : Kbd) (sequences : List KeySequence) : Prop where
  idle : k'.kbdState = 0
  shiftstate : k'.kbdShiftstate =
    Stroke.finish KeySequence.decoded k.kbdShiftstate sequences
  enqueued : k'.enqueued =
    k.enqueued ++ Stroke.outputs KeySequence.decoded k.kbdShiftstate sequences
  queue : k.queue.Valid → k'.queue.Valid ∧ k'.queue.entries =
    (Stroke.outputs KeySequence.decoded k.kbdShiftstate sequences).foldl (offer 128)
      k.queue.entries

theorem decodeAll_stream (sequences : List KeySequence) {k : Kbd} (idle : k.kbdState = 0) :
    ∃ k', decodeAll (KeySequence.stream sequences) k = .ok k' ∧ k.Read k' sequences := by
  induction sequences generalizing k with
  | nil =>
      refine ⟨k, rfl, idle, rfl, ?_, ?_⟩
      · simp [Stroke.outputs]
      · intro valid
        exact ⟨valid, rfl⟩
  | cons s rest ih =>
      have first := decodeAll_sequence idle s
      have stays : ((s.decoded k.kbdShiftstate).perform k).kbdState = 0 := by
        rw [Stroke.perform_kbdState, idle]
      obtain ⟨k', done, read⟩ := ih stays
      refine ⟨k', ?_, read.idle, ?_, ?_, ?_⟩
      · rw [KeySequence.stream, List.flatMap_cons, decodeAll_append, first, ok_bind]
        exact done
      · rw [read.shiftstate, Stroke.perform_kbdShiftstate]
        rfl
      · rw [read.enqueued, Stroke.perform_enqueued, Stroke.perform_kbdShiftstate,
          List.append_assoc]
        rfl
      · intro valid
        obtain ⟨next, entries⟩ := Stroke.perform_queue k (s.decoded k.kbdShiftstate) valid
        obtain ⟨last, after⟩ := read.queue next
        rw [entries, Stroke.perform_kbdShiftstate, ← List.foldl_append] at after
        exact ⟨last, after⟩

/-- The low byte of an event is the key. -/
theorem event_key (shiftstate : UInt32) (c : UInt8) : (event shiftstate c).toUInt8 = c := by
  have shifted : (shiftstate <<< (8 : UInt32)).toUInt8 = 0 := by
    apply UInt8.toNat_inj.mp
    rw [UInt32.toNat_toUInt8, UInt32.toNat_shiftLeft]
    change (shiftstate.toNat <<< 8) % 4294967296 % 256 = 0
    rw [Nat.shiftLeft_eq]
    omega
  rw [event, UInt32.toUInt8_or, shifted, UInt8.toUInt8_toUInt32, UInt8.zero_or]

namespace Stroke

/-- How many events a stroke has. -/
def count : Stroke → Nat
  | .key _ => 1
  | _ => 0

theorem events_length (before : UInt32) (stroke : Stroke) :
    (stroke.events before).length = stroke.count := by
  cases stroke <;> rfl

end Stroke

/-- Whether a plain byte has an event does not depend on Shift. -/
theorem plainMeaning_count (before other : UInt32) (b : UInt8) :
    (plainMeaning before b).count = (plainMeaning other b).count := by
  have tables : ∀ b : UInt8, (makeStroke (shiftScancodes.getD b.toNat 0)).count =
      (makeStroke (scancodes.getD b.toNat 0)).count := by
    apply forall_byte
    decide +kernel
  unfold plainMeaning
  split
  · split <;> split <;> simp only [tables]
  · rfl

/-- On the numeric keypad a navigation key is a digit or the point, with and
without Shift, which it is not as a key of its own. -/
theorem navigation_digit {c : UInt8} (navigation : c ∈ navigationCodes) :
    ∃ digit, (∀ before, plainMeaning before c = .key digit) ∧ extendedStroke c ≠ .key digit := by
  have all : ∀ c ∈ navigationCodes, c &&& 0x80 = 0 ∧
      shiftScancodes.getD c.toNat 0 = scancodes.getD c.toNat 0 ∧
      makeStroke (scancodes.getD c.toNat 0) = .key (scancodes.getD c.toNat 0) ∧
      extendedStroke c ≠ .key (scancodes.getD c.toNat 0) := by decide +kernel
  obtain ⟨make, same, stroke, other⟩ := all c navigation
  refine ⟨_, ?_, other⟩
  intro before
  rw [plainMeaning, if_pos make]
  split
  · rw [same, stroke]
  · exact stroke

/-- `decode` never finds fewer events than are meant. -/
theorem count_meaning_le (before other : UInt32) (s : KeySequence) :
    (s.meaning before).count ≤ (s.decoded other).count := by
  cases s with
  | plain b known => exact Nat.le_of_eq (plainMeaning_count before other b)
  | navigationMake c navigation =>
      obtain ⟨digit, plain, -⟩ := navigation_digit navigation
      change (extendedStroke c).count ≤ (plainMeaning other c).count
      rw [plain]
      cases extendedStroke c <;> simp [Stroke.count]
  | _ => exact Nat.le_refl _

theorem outputs_length_le (sequences : List KeySequence) (before other : UInt32) :
    (Stroke.outputs KeySequence.meaning before sequences).length ≤
      (Stroke.outputs KeySequence.decoded other sequences).length := by
  induction sequences generalizing before other with
  | nil => exact Nat.le_refl _
  | cons s rest ih =>
      simp only [Stroke.outputs, List.length_append, Stroke.events_length]
      exact Nat.add_le_add (count_meaning_le before other s) (ih _ _)

theorem KeySequence.decoded_of_not_wrapped {s : KeySequence} (bare : ¬ s.Wrapped)
    (before : UInt32) : s.decoded before = s.meaning before := by
  cases s with
  | navigationMake c navigation => exact absurd trivial bare
  | _ => rfl

/-- The first wrapped navigation key is where the events go wrong: it gives a
digit where its own key is meant or, for Insert, no event at all. -/
theorem outputs_eq_iff (sequences : List KeySequence) (before : UInt32) :
    Stroke.outputs KeySequence.decoded before sequences =
      Stroke.outputs KeySequence.meaning before sequences ↔ ∀ s ∈ sequences, ¬ s.Wrapped := by
  induction sequences generalizing before with
  | nil => simp [Stroke.outputs]
  | cons s rest ih =>
      simp only [List.forall_mem_cons, Stroke.outputs]
      by_cases wrapped : s.Wrapped
      · simp only [wrapped, not_true_eq_false, false_and, iff_false]
        intro same
        cases s with
        | navigationMake c navigation =>
            obtain ⟨digit, plain, other⟩ := navigation_digit navigation
            have shorter := outputs_length_le rest
              ((extendedStroke c).shiftstate before) ((plainMeaning before c).shiftstate before)
            simp only [KeySequence.decoded, KeySequence.meaning] at same
            cases meant : extendedStroke c with
            | key code =>
                rw [plain, meant] at same
                have heads : event before digit = event before code := (List.cons.inj same).1
                have codes := congrArg UInt32.toUInt8 heads
                rw [event_key, event_key] at codes
                rw [meant, codes] at other
                exact other rfl
            | _ =>
                have lengths := congrArg List.length same
                simp only [plain, meant, List.length_append, Stroke.events_length,
                  Stroke.count] at lengths shorter
                omega
        | _ => exact wrapped
      · rw [KeySequence.decoded_of_not_wrapped wrapped, List.append_cancel_left_eq, ih]
        simp only [wrapped, not_false_eq_true, true_and]

/-- From `kbd_state` 0 a stream of complete sequences is decoded to the end, and the
queue takes of the events what it has room for. They are the events meant exactly if no
navigation key is wrapped in fake shifts. -/
theorem decode_stream_iff (k : Kbd) (idle : k.kbdState = 0) (valid : k.queue.Valid)
    (sequences : List KeySequence) :
    ∃ k' sent, decodeAll (KeySequence.stream sequences) k = .ok k' ∧ k'.kbdState = 0 ∧
      k'.enqueued = k.enqueued ++ sent ∧
      k'.queue.entries = (k.queue.entries ++ sent).take 128 ∧
      (sent = Stroke.outputs KeySequence.meaning k.kbdShiftstate sequences ↔
        ∀ s ∈ sequences, ¬ s.Wrapped) := by
  obtain ⟨k', done, read⟩ := decodeAll_stream sequences idle
  have fits : k.queue.entries.length ≤ 128 := by
    have size := valid.size.2
    have length := KbdQueue.entries_length valid
    simp only [kbdQueueSize] at size
    omega
  refine ⟨k', _, done, read.idle, read.enqueued, ?_, outputs_eq_iff sequences _⟩
  rw [(read.queue valid).2, foldl_offer _ _ fits]

/-- Shift and A, then Pause. -/
def shiftedPause : List KeySequence :=
  [.plain 0x2A (by decide), .plain 0x1E (by decide), .pause]

theorem shifted_pause_is_decoded : ∃ k' sent,
    decodeAll [0x2A, 0x1E, 0xE1, 0x1D, 0x45, 0xE1, 0x9D, 0xC5] kbdStart = .ok k' ∧
      k'.kbdState = 0 ∧ k'.enqueued = [] ++ sent ∧ k'.queue.entries = sent.take 128 ∧
      (sent = [0x141, 0x180] ↔ ∀ s ∈ shiftedPause, ¬ s.Wrapped) :=
  decode_stream_iff kbdStart rfl KbdQueue.start_valid shiftedPause

/-- Home with Num Lock on. -/
def wrappedHome : KeySequence := .navigationMake 0x47 (by decide)

/-- E0 2A E0 47 gives the digit 7. -/
theorem wrapped_home_is_a_digit : ¬ ∀ (sequences : List KeySequence) (k : Kbd),
    k.kbdState = 0 → k.queue.Valid →
    k.queue.entries.length +
      (Stroke.outputs KeySequence.meaning k.kbdShiftstate sequences).length ≤ 128 →
    ∃ k', decodeAll (KeySequence.stream sequences) k = .ok k' ∧ k'.queue.entries =
      k.queue.entries ++ Stroke.outputs KeySequence.meaning k.kbdShiftstate sequences := by
  intro claim
  obtain ⟨k', done, entries⟩ := claim [wrappedHome] kbdStart rfl KbdQueue.start_valid (by decide)
  have read : (decodeAll (KeySequence.stream [wrappedHome]) kbdStart).map
      (fun k => k.queue.entries) = .ok [0x37] := by rfl
  rw [done] at read
  have digit : k'.queue.entries = [0x37] := Except.ok.inj read
  rw [digit] at entries
  exact absurd entries (by decide)

end FrogOS
