import FrogOS.CircularBuffer

set_option autoImplicit false

namespace FrogOS

open CircularBuffer

/-- The value of the macro `KBD_QUEUE_SIZE`. -/
def kbdQueueSize : Int := 128

/-- The queue of keyboard.c: `kbd_buffer` with its three `int` counters. -/
structure KbdQueue where
  kbdBuffer : Int → UInt32
  kbdSize : Int
  kbdHead : Int
  kbdTail : Int

/-- The queue before the first key: .bss is zero. -/
def kbdQueueStart : KbdQueue where
  kbdBuffer := fun _ => 0
  kbdSize := 0
  kbdHead := 0
  kbdTail := 0

def kbdIsempty (q : KbdQueue) : Bool := q.kbdSize = 0

def kbdEnqueue (q : KbdQueue) (c : UInt32) : KbdQueue :=
  if q.kbdSize = kbdQueueSize then q
  else
    let tail := q.kbdTail + 1
    { kbdBuffer := fun i => if i = q.kbdTail then c else q.kbdBuffer i
      kbdSize := q.kbdSize + 1
      kbdHead := q.kbdHead
      kbdTail := if tail = kbdQueueSize then 0 else tail }

/-- What `kbd_dequeue` does between `disable` and `enable`. -/
def kbdTake (q : KbdQueue) : UInt32 × KbdQueue :=
  let head := q.kbdHead + 1
  (q.kbdBuffer q.kbdHead,
    { kbdBuffer := q.kbdBuffer
      kbdSize := q.kbdSize - 1
      kbdHead := if head = kbdQueueSize then 0 else head
      kbdTail := q.kbdTail })

/-- A call of `kbd_dequeue` that no interrupt falls into. -/
def kbdDequeue (q : KbdQueue) : UInt32 × KbdQueue :=
  if q.kbdSize = 0 then (0, q) else kbdTake q

namespace KbdQueue

/-- The counters are in their ranges and agree with each other. -/
structure Valid (q : KbdQueue) : Prop where
  head : 0 ≤ q.kbdHead ∧ q.kbdHead < kbdQueueSize
  tail : 0 ≤ q.kbdTail ∧ q.kbdTail < kbdQueueSize
  size : 0 ≤ q.kbdSize ∧ q.kbdSize ≤ kbdQueueSize
  meet : (q.kbdHead + q.kbdSize) % kbdQueueSize = q.kbdTail

/-- The queue as a circular buffer of 128 slots. -/
def buffer (q : KbdQueue) : Buffer UInt32 where
  slots := fun i => q.kbdBuffer i
  head := q.kbdHead.toNat
  tail := q.kbdTail.toNat
  size := q.kbdSize.toNat

/-- The entries that wait, the oldest first. -/
def entries (q : KbdQueue) : List UInt32 := contents 128 q.buffer

theorem start_valid : kbdQueueStart.Valid := by
  constructor <;> simp [kbdQueueStart, kbdQueueSize]

variable {q : KbdQueue}

/-- Non-negative counters are the counters of the circular buffer. -/
theorem valid_iff : q.Valid ↔
    (0 ≤ q.kbdHead ∧ 0 ≤ q.kbdTail ∧ 0 ≤ q.kbdSize) ∧ CircularBuffer.Valid 128 q.buffer := by
  constructor
  · intro valid
    have head := valid.head
    have tail := valid.tail
    have size := valid.size
    have meet := valid.meet
    simp only [kbdQueueSize] at head tail size meet
    refine ⟨⟨head.1, tail.1, size.1⟩, ?_, ?_, ?_, ?_⟩ <;> simp only [buffer] <;> omega
  · intro valid
    obtain ⟨⟨head, tail, size⟩, valid⟩ := valid
    have head_lt := valid.head_lt
    have tail_lt := valid.tail_lt
    have size_le := valid.size_le
    have meet := valid.meet
    simp only [buffer] at head_lt tail_lt size_le meet
    constructor <;> simp only [kbdQueueSize] <;> omega

theorem entries_length (valid : q.Valid) : (q.entries.length : Int) = q.kbdSize := by
  have size := valid.size.1
  rw [entries, contents_length]
  change (q.kbdSize.toNat : Int) = q.kbdSize
  omega

theorem enqueue_full (full : q.kbdSize = kbdQueueSize) (c : UInt32) : kbdEnqueue q c = q :=
  if_pos full

theorem enqueue_room (room : q.kbdSize ≠ kbdQueueSize) (c : UInt32) :
    kbdEnqueue q c =
      { kbdBuffer := fun i => if i = q.kbdTail then c else q.kbdBuffer i
        kbdSize := q.kbdSize + 1
        kbdHead := q.kbdHead
        kbdTail := if q.kbdTail + 1 = kbdQueueSize then 0 else q.kbdTail + 1 } :=
  if_neg room

/-- The source's way around the circle is that of the circular buffer. -/
theorem toNat_wrap {i : Int} (sign : 0 ≤ i) :
    (if i + 1 = kbdQueueSize then 0 else i + 1).toNat = advance 128 i.toNat := by
  unfold advance kbdQueueSize
  by_cases last : i + 1 = 128
  · have same : i.toNat + 1 = 128 := by omega
    rw [if_pos last, if_pos same]
    rfl
  · have other : i.toNat + 1 ≠ 128 := by omega
    rw [if_neg last, if_neg other]
    omega

theorem wrap_nonneg {i : Int} (sign : 0 ≤ i) :
    0 ≤ if i + 1 = kbdQueueSize then 0 else i + 1 := by
  split <;> omega

theorem enqueue_buffer (valid : q.Valid) (room : q.kbdSize ≠ kbdQueueSize) (c : UInt32) :
    (kbdEnqueue q c).buffer = push 128 q.buffer c := by
  have tail := valid.tail.1
  have size := valid.size.1
  have written : (fun i : Nat => if (i : Int) = q.kbdTail then c else q.kbdBuffer i) =
      fun i => if i = q.kbdTail.toNat then c else q.kbdBuffer i := by
    funext i
    have place : ((i : Int) = q.kbdTail) ↔ i = q.kbdTail.toNat := by omega
    by_cases here : i = q.kbdTail.toNat
    · rw [if_pos (place.mpr here), if_pos here]
    · rw [if_neg (mt place.mp here), if_neg here]
  have count : (q.kbdSize + 1).toNat = q.kbdSize.toNat + 1 := by omega
  rw [enqueue_room room]
  unfold buffer push
  rw [written, toNat_wrap tail, count]

/-- An enqueue keeps the counters in step and offers the value to the entries. -/
theorem enqueue_spec (valid : q.Valid) (c : UInt32) :
    (kbdEnqueue q c).Valid ∧ (kbdEnqueue q c).entries = offer 128 q.entries c := by
  have length := entries_length valid
  have size := valid.size
  by_cases room : q.kbdSize = kbdQueueSize
  · have full : 128 ≤ q.entries.length := by
      simp only [kbdQueueSize] at room
      omega
    rw [enqueue_full room, offer_full full]
    exact ⟨valid, rfl⟩
  · obtain ⟨signs, circular⟩ := valid_iff.mp valid
    have fits : q.buffer.size < 128 := by
      simp only [buffer, kbdQueueSize] at room size ⊢
      omega
    have after := enqueue_buffer valid room c
    have space : q.entries.length < 128 := by
      rw [entries, contents_length]
      exact fits
    constructor
    · apply valid_iff.mpr
      constructor
      · rw [enqueue_room room]
        exact ⟨signs.1, wrap_nonneg signs.2.1, Int.add_nonneg signs.2.2 (by decide)⟩
      · rw [after]
        exact push_valid circular fits c
    · rw [entries, after, push_contents circular fits, offer_room space]
      rfl

theorem take_buffer (valid : q.Valid) : (kbdTake q).2.buffer = pop 128 q.buffer := by
  have count : (q.kbdSize - 1).toNat = q.kbdSize.toNat - 1 := by omega
  simp only [kbdTake, buffer, pop, toNat_wrap valid.head.1, count]

/-- A dequeue that found an entry keeps the counters in step and takes the oldest one. -/
theorem take_spec (valid : q.Valid) (nonempty : 0 < q.kbdSize) :
    (kbdTake q).2.Valid ∧ q.entries = (kbdTake q).1 :: (kbdTake q).2.entries := by
  obtain ⟨signs, circular⟩ := valid_iff.mp valid
  have occupied : 0 < q.buffer.size := by
    simp only [buffer]
    omega
  have after := take_buffer valid
  constructor
  · apply valid_iff.mpr
    constructor
    · have size : 0 ≤ q.kbdSize - 1 := by omega
      exact ⟨wrap_nonneg signs.1, signs.2.1, size⟩
    · rw [after]
      exact pop_valid circular occupied
  · have here : q.buffer.slots q.buffer.head = (kbdTake q).1 := by
      simp only [buffer, kbdTake]
      rw [Int.toNat_of_nonneg signs.1]
    rw [entries, pop_contents circular occupied, here, entries, after]

end KbdQueue

/-- The main program and the keyboard's interrupt handler around the queue, with
what was enqueued while fewer than 128 entries were waiting and what the dequeues
that found something returned. -/
structure KbdSystem where
  queue : KbdQueue
  /-- A call of `kbd_dequeue` has seen a nonempty queue and not yet disabled interrupts. -/
  committed : Bool
  accepted : List UInt32
  returned : List UInt32

/-- The handler's call of `kbd_enqueue`, and the two parts of `kbd_dequeue`. -/
inductive KbdAction
  | enqueue (c : UInt32)
  | test
  | take
deriving DecidableEq, Repr

def kbdSystemStart : KbdSystem where
  queue := kbdQueueStart
  committed := false
  accepted := []
  returned := []

/-- Only one call of `kbd_dequeue` is under way at a time; a call that finds the
queue empty returns at once. The handler may run before and after any part of it. -/
def kbdNext (s : KbdSystem) : KbdAction → Option KbdSystem
  | .enqueue c =>
      some { s with
        queue := kbdEnqueue s.queue c
        accepted :=
          if s.accepted.length < s.returned.length + 128 then s.accepted ++ [c] else s.accepted }
  | .test =>
      if s.committed then none else some { s with committed := !kbdIsempty s.queue }
  | .take =>
      if s.committed then
        let (c, queue) := kbdTake s.queue
        some { s with queue := queue, committed := false, returned := s.returned ++ [c] }
      else none

/-- The two parts with nothing in between are a call of `kbd_dequeue`. -/
theorem kbdNext_dequeue (s : KbdSystem) (free : s.committed = false)
    (found : s.queue.kbdSize ≠ 0) :
    ((kbdNext s .test).bind fun t => kbdNext t .take) =
      some { s with
        queue := (kbdDequeue s.queue).2
        returned := s.returned ++ [(kbdDequeue s.queue).1] } := by
  simp [kbdNext, free, kbdIsempty, found, kbdDequeue]

/-- Every state that some sequence of operations leads to. -/
inductive KbdReachable : KbdSystem → Prop
  | start : KbdReachable kbdSystemStart
  | next {s t : KbdSystem} {action : KbdAction} (reached : KbdReachable s)
      (step : kbdNext s action = some t) : KbdReachable t

/-- What was accepted has been returned, in order, or waits. -/
structure KbdInv (s : KbdSystem) : Prop where
  valid : s.queue.Valid
  history : s.accepted = s.returned ++ s.queue.entries
  pending : s.committed = true → 0 < s.queue.kbdSize

namespace KbdInv

variable {s t : KbdSystem}

theorem start : KbdInv kbdSystemStart where
  valid := KbdQueue.start_valid
  history := rfl
  pending := nofun

/-- The history has room for another value exactly when the queue has. -/
theorem room_iff (inv : KbdInv s) :
    s.accepted.length < s.returned.length + 128 ↔ s.queue.entries.length < 128 := by
  rw [inv.history, List.length_append]
  omega

theorem enqueue (inv : KbdInv s) (c : UInt32) (step : kbdNext s (.enqueue c) = some t) :
    KbdInv t := by
  simp only [kbdNext, Option.some.injEq] at step
  obtain ⟨valid, entries⟩ := KbdQueue.enqueue_spec inv.valid c
  subst step
  constructor
  · exact valid
  · simp only [entries, offer, inv.room_iff]
    split
    · rw [inv.history, List.append_assoc]
    · exact inv.history
  · intro committed
    have before := inv.pending committed
    have length := KbdQueue.entries_length inv.valid
    have after := KbdQueue.entries_length valid
    change 0 < (kbdEnqueue s.queue c).kbdSize
    rw [entries, offer] at after
    split at after
    · rw [List.length_append, List.length_singleton] at after
      omega
    · omega

theorem test (inv : KbdInv s) (step : kbdNext s .test = some t) : KbdInv t := by
  simp only [kbdNext] at step
  split at step
  · cases step
  · rw [Option.some.injEq] at step
    subst step
    constructor
    · exact inv.valid
    · exact inv.history
    · intro committed
      have size := inv.valid.size.1
      have found : s.queue.kbdSize ≠ 0 := by simpa [kbdIsempty] using committed
      change 0 < s.queue.kbdSize
      omega

theorem take (inv : KbdInv s) (step : kbdNext s .take = some t) : KbdInv t := by
  simp only [kbdNext] at step
  split at step
  · rename_i committed
    obtain ⟨valid, entries⟩ := KbdQueue.take_spec inv.valid (inv.pending committed)
    rw [Option.some.injEq] at step
    subst step
    constructor
    · exact valid
    · change s.accepted = (s.returned ++ [(kbdTake s.queue).1]) ++ (kbdTake s.queue).2.entries
      rw [inv.history, entries, List.append_assoc, List.singleton_append]
    · nofun
  · cases step

theorem next (inv : KbdInv s) {action : KbdAction} (step : kbdNext s action = some t) :
    KbdInv t := by
  cases action with
  | enqueue c => exact inv.enqueue c step
  | test => exact inv.test step
  | take => exact inv.take step

end KbdInv

theorem KbdReachable.inv {s : KbdSystem} (reached : KbdReachable s) : KbdInv s := by
  induction reached with
  | start => exact KbdInv.start
  | next _ step ih => exact ih.next step

/-- In every state the counters are in range and in step, every accepted value has
been returned, in order, or is still waiting, and a full queue stays as it is. -/
theorem kbd_queue_is_fifo (s : KbdSystem) (reached : KbdReachable s) :
    s.queue.Valid ∧ s.accepted = s.returned ++ s.queue.entries ∧
      (s.accepted.length < s.returned.length + 128 ↔ s.queue.kbdSize ≠ kbdQueueSize) ∧
      ∀ c, s.queue.kbdSize = kbdQueueSize → kbdEnqueue s.queue c = s.queue := by
  have inv := reached.inv
  have length := KbdQueue.entries_length inv.valid
  have size := inv.valid.size
  refine ⟨inv.valid, inv.history, ?_, ?_⟩
  · rw [inv.room_iff]
    simp only [kbdQueueSize] at size ⊢
    omega
  · intro c full
    exact KbdQueue.enqueue_full full c

/-- A key arrives between the two parts of a dequeue. -/
theorem overlapped_dequeue_is_fifo : ∃ s, KbdReachable s ∧ s.accepted = [7, 9] ∧
    s.returned = [7] ∧ s.accepted = s.returned ++ s.queue.entries := by
  have pressed := @KbdReachable.next _ _ (.enqueue 7) KbdReachable.start rfl
  have tested := @KbdReachable.next _ _ .test pressed rfl
  have interrupted := @KbdReachable.next _ _ (.enqueue 9) tested rfl
  have taken := @KbdReachable.next _ _ .take interrupted rfl
  exact ⟨_, taken, rfl, rfl, (kbd_queue_is_fifo _ taken).2.1⟩

end FrogOS
