import FrogOS.KeyModifiers

set_option autoImplicit false

namespace FrogOS

/-- One complete sequence, with one Shift key in use: it goes down, perhaps
repeatedly, or up; Caps Lock goes down, once a press, or up; or a key other than
Caps Lock and the Shift keys does something. -/
inductive LatchEvent
  | shiftPress
  | shiftRelease
  | capsPress
  | capsRelease
  | other (s : KeySequence) (free : s.bytes ∉ shiftBytes)

namespace LatchEvent

/-- `side` says which Shift key it is. -/
def sequence (side : Side) : LatchEvent → KeySequence
  | shiftPress => (⟨.shift, side⟩ : ModifierKey).make
  | shiftRelease => (⟨.shift, side⟩ : ModifierKey).release
  | capsPress => capsMake
  | capsRelease => FrogOS.capsRelease
  | other s _ => s

def downAfter (down : Bool) : LatchEvent → Bool
  | shiftPress => true
  | shiftRelease => false
  | _ => down

/-- The Shift key is down after some events. -/
def down (events : List LatchEvent) : Bool := events.foldl downAfter false

def pressesAfter (presses : Nat) : LatchEvent → Nat
  | capsPress => presses + 1
  | _ => presses

/-- How often Caps Lock has gone down. -/
def presses (events : List LatchEvent) : Nat := events.foldl pressesAfter 0

/-- The modifier bits `decode` has after some events. -/
def bits (side : Side) (events : List LatchEvent) : UInt32 :=
  Stroke.finish KeySequence.decoded 0 (events.map (sequence side))

end LatchEvent

open LatchEvent

section Latch

variable {side : Side}

/-- While the Shift key is up, its bit is the parity of the presses of Caps Lock. -/
def Latched (shiftstate : UInt32) (events : List LatchEvent) : Prop :=
  down events = false → (shiftstate &&& kbdShift ≠ 0 ↔ presses events % 2 = 1)

theorem down_snoc (events : List LatchEvent) (e : LatchEvent) :
    down (events ++ [e]) = downAfter (down events) e :=
  List.foldl_append

theorem presses_snoc (events : List LatchEvent) (e : LatchEvent) :
    presses (events ++ [e]) = pressesAfter (presses events) e :=
  List.foldl_append

theorem latch_bits_snoc (events : List LatchEvent) (e : LatchEvent) :
    LatchEvent.bits side (events ++ [e]) =
      ((e.sequence side).decoded (LatchEvent.bits side events)).shiftstate
        (LatchEvent.bits side events) := by
  unfold LatchEvent.bits
  rw [List.map_append, Stroke.finish_append]
  rfl

/-- Letting the Shift key up clears the bit, whatever Caps Lock has made of it. -/
theorem shiftRelease_bits (events : List LatchEvent) :
    LatchEvent.bits side (events ++ [.shiftRelease]) &&& kbdShift = 0 := by
  rw [latch_bits_snoc]
  simp only [LatchEvent.sequence, release_decoded, Stroke.shiftstate]
  exact and_not_and_same

/-- Every event but a release of the Shift key after an odd number of presses keeps the latch. -/
theorem latched_snoc {events : List LatchEvent} {e : LatchEvent}
    (latched : Latched (LatchEvent.bits side events) events)
    (even : e = .shiftRelease → presses events % 2 = 0) :
    Latched (LatchEvent.bits side (events ++ [e])) (events ++ [e]) := by
  intro up
  rw [down_snoc] at up
  rw [presses_snoc]
  cases e with
  | shiftPress => cases up
  | shiftRelease =>
      rw [shiftRelease_bits]
      simp [pressesAfter, even rfl]
  | capsPress =>
      have before := latched up
      simp only [latch_bits_snoc, LatchEvent.sequence, capsMake_decoded, Stroke.shiftstate,
        pressesAfter]
      have toggled : (LatchEvent.bits side events ^^^ kbdShift) &&& kbdShift ≠ 0 ↔
          LatchEvent.bits side events &&& kbdShift = 0 := xor_one_and_one
      rw [toggled]
      by_cases clear : LatchEvent.bits side events &&& kbdShift = 0
      · simp only [clear, ne_eq, not_true_eq_false, false_iff] at before
        simp only [clear, true_iff]
        omega
      · simp only [clear, ne_eq, not_false_eq_true, true_iff] at before
        simp only [clear, false_iff]
        omega
  | capsRelease =>
      simp only [latch_bits_snoc, LatchEvent.sequence, capsRelease_decoded]
      exact latched up
  | other s free =>
      simp only [latch_bits_snoc, LatchEvent.sequence]
      rw [Stroke.shiftstate_and _ (shift_untouched s free _)]
      exact latched up

/-- While no Shift key is down, `KBD_SHIFT` tells whether Caps Lock has been pressed
an odd number of times, exactly if every release of the Shift key comes after an
even number of presses. -/
theorem caps_latch_iff (side : Side) (events : List LatchEvent) :
    (∀ front, front <+: events → ∃ k,
        decodeAll (KeySequence.stream (front.map (LatchEvent.sequence side))) kbdStart = .ok k ∧
          Latched k.kbdShiftstate front) ↔
      ∀ front, front ++ [.shiftRelease] <+: events → presses front % 2 = 0 := by
  have bridge : ∀ front : List LatchEvent, (∃ k,
      decodeAll (KeySequence.stream (front.map (LatchEvent.sequence side))) kbdStart = .ok k ∧
        Latched k.kbdShiftstate front) ↔ Latched (LatchEvent.bits side front) front :=
    fun front => decoded_shiftstate (p := fun bits => Latched bits front) _
  simp only [bridge]
  constructor
  · intro latched front released
    have after := latched _ released
    have up : down (front ++ [.shiftRelease]) = false := by
      rw [down_snoc]
      rfl
    have parity := after up
    rw [shiftRelease_bits, presses_snoc] at parity
    simp only [ne_eq, not_true_eq_false, false_iff, pressesAfter] at parity
    omega
  · intro even front
    induction front using List.reverseRecOn with
    | nil =>
        intro _ _
        simp [LatchEvent.bits, Stroke.finish, presses]
    | append_singleton front e ih =>
        intro inside
        apply latched_snoc (ih ((List.prefix_append front [e]).trans inside))
        intro release
        subst release
        exact even front inside

theorem keyA_known : (0x1E : UInt8) &&& 0x7F ≤ 0x58 := by decide

def keyA : KeySequence := .plain 0x1E keyA_known

theorem keyA_free : keyA.bytes ∉ shiftBytes := by decide

/-- Caps Lock, then a capital letter with Shift: the latch is off afterwards. -/
def capitalAfterCaps : List LatchEvent :=
  [.capsPress, .capsRelease, .shiftPress, .other keyA keyA_free, .shiftRelease]

theorem shift_release_drops_the_latch : ∃ k,
    decodeAll [0x3A, 0xBA, 0x2A, 0x1E, 0xAA] kbdStart = .ok k ∧
      KeySequence.stream (capitalAfterCaps.map (LatchEvent.sequence .left)) =
        [0x3A, 0xBA, 0x2A, 0x1E, 0xAA] ∧
      down capitalAfterCaps = false ∧ presses capitalAfterCaps = 1 ∧
      ¬ Latched k.kbdShiftstate capitalAfterCaps := by
  refine ⟨_, rfl, rfl, rfl, rfl, ?_⟩
  intro latched
  have parity := latched rfl
  exact parity.mpr rfl rfl

end Latch

end FrogOS
