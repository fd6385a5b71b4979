import FrogOS.KeyStream
import Mathlib.Data.List.Induction

set_option autoImplicit false

namespace FrogOS

section Masks

variable {m a b : UInt32}

theorem or_and_apart (apart : a &&& b = 0) : (m ||| a) &&& b = m &&& b := by
  rw [← UInt32.toBitVec_inj] at *
  simp only [UInt32.toBitVec_and, UInt32.toBitVec_or] at *
  ext i inside
  have bits := congrArg (fun v => v.getLsbD i) apart
  simp [inside] at bits ⊢
  grind

theorem and_not_and_apart (apart : a &&& b = 0) : (m &&& ~~~a) &&& b = m &&& b := by
  rw [← UInt32.toBitVec_inj] at *
  simp only [UInt32.toBitVec_and, UInt32.toBitVec_not] at *
  ext i inside
  have bits := congrArg (fun v => v.getLsbD i) apart
  simp [inside] at bits ⊢
  grind

theorem xor_and_apart (apart : a &&& b = 0) : (m ^^^ a) &&& b = m &&& b := by
  rw [← UInt32.toBitVec_inj] at *
  simp only [UInt32.toBitVec_and, UInt32.toBitVec_xor] at *
  ext i inside
  have bits := congrArg (fun v => v.getLsbD i) apart
  simp [inside] at bits ⊢
  grind

theorem or_and_same : (m ||| a) &&& a = a := by
  rw [← UInt32.toBitVec_inj]
  simp only [UInt32.toBitVec_and, UInt32.toBitVec_or]
  ext i inside
  simp
  grind

theorem and_not_and_same : (m &&& ~~~a) &&& a = 0 := by
  rw [UInt32.and_assoc, UInt32.not_and_self, UInt32.and_zero]

/-- Toggling the lowest bit. -/
theorem xor_one_and_one : (m ^^^ 1) &&& 1 ≠ 0 ↔ m &&& 1 = 0 := by
  rw [ne_eq, ← UInt32.toNat_inj, ← UInt32.toNat_inj, UInt32.toNat_and, UInt32.toNat_xor,
    UInt32.toNat_and]
  change ¬ (m.toNat ^^^ 1) &&& 1 = 0 ↔ m.toNat &&& 1 = 0
  rw [Nat.and_one_is_mod, Nat.and_one_is_mod]
  have bit : (m.toNat ^^^ 1) % 2 = m.toNat % 2 ^^^ 1 := Nat.xor_mod_two_pow (n := 1)
  rw [bit]
  rcases Nat.mod_two_eq_zero_or_one m.toNat with even | odd
  · simp [even]
  · simp [odd]

end Masks

/-- The bits a stroke changes. -/
def Stroke.mask : Stroke → UInt32
  | .set mask => mask
  | .clear mask => mask
  | .toggle mask => mask
  | .key _ => 0
  | .nothing => 0

/-- A stroke leaves the bits outside its mask alone. -/
theorem Stroke.shiftstate_and (stroke : Stroke) {bits : UInt32} (apart : stroke.mask &&& bits = 0)
    (before : UInt32) : stroke.shiftstate before &&& bits = before &&& bits := by
  cases stroke with
  | set mask => exact or_and_apart apart
  | clear mask => exact and_not_and_apart apart
  | toggle mask => exact xor_and_apart apart
  | _ => rfl

inductive Modifier
  | ctrl
  | alt
  | shift
deriving DecidableEq, Repr

inductive Side
  | left
  | right
deriving DecidableEq, Repr

structure ModifierKey where
  kind : Modifier
  side : Side
deriving DecidableEq, Repr

def Modifier.mask : Modifier → UInt32
  | .ctrl => kbdCtrl
  | .alt => kbdAlt
  | .shift => kbdShift

namespace ModifierKey

/-- The key of the same kind on the other side. -/
def partner (key : ModifierKey) : ModifierKey where
  kind := key.kind
  side := match key.side with
    | .left => .right
    | .right => .left

/-- The bytes of the right Ctrl and Alt keys stand for themselves after E0. -/
theorem rightKeys_single : ∀ b ∈ ([0x1D, 0x9D, 0x38, 0xB8] : List UInt8),
    b ≠ 0x2A ∧ b ≠ 0x37 ∧ b ≠ 0xE0 ∧ b ≠ 0xE1 := by decide +kernel

theorem leftShift_known : (0x2A : UInt8) &&& 0x7F ≤ 0x58 := by decide

/-- The right Ctrl and Alt keys have two-byte sequences. -/
def make : ModifierKey → KeySequence
  | ⟨.ctrl, .left⟩ => .plain 0x1D (by decide)
  | ⟨.ctrl, .right⟩ => .pair 0x1D (rightKeys_single 0x1D (by simp))
  | ⟨.alt, .left⟩ => .plain 0x38 (by decide)
  | ⟨.alt, .right⟩ => .pair 0x38 (rightKeys_single 0x38 (by simp))
  | ⟨.shift, .left⟩ => .plain 0x2A leftShift_known
  | ⟨.shift, .right⟩ => .plain 0x36 (by decide)

def release : ModifierKey → KeySequence
  | ⟨.ctrl, .left⟩ => .plain 0x9D (by decide)
  | ⟨.ctrl, .right⟩ => .pair 0x9D (rightKeys_single 0x9D (by simp))
  | ⟨.alt, .left⟩ => .plain 0xB8 (by decide)
  | ⟨.alt, .right⟩ => .pair 0xB8 (rightKeys_single 0xB8 (by simp))
  | ⟨.shift, .left⟩ => .plain 0xAA (by decide)
  | ⟨.shift, .right⟩ => .plain 0xB6 (by decide)

end ModifierKey

def capsMake : KeySequence := .plain 0x3A (by decide)

def capsRelease : KeySequence := .plain 0xBA (by decide)

/-- The sequences of Caps Lock and of the six modifier keys. -/
def modifierBytes : List (List UInt8) :=
  [[0x3A], [0xBA], [0x1D], [0x9D], [0xE0, 0x1D], [0xE0, 0x9D], [0x38], [0xB8], [0xE0, 0x38],
    [0xE0, 0xB8], [0x2A], [0xAA], [0x36], [0xB6]]

/-- The sequences of Caps Lock and of the Shift keys. -/
def shiftBytes : List (List UInt8) := [[0x3A], [0xBA], [0x2A], [0xAA], [0x36], [0xB6]]

theorem plainMeaning_make {b : UInt8} {stroke : Stroke} (make : b &&& 0x80 = 0)
    (unshifted : makeStroke (scancodes.getD b.toNat 0) = stroke)
    (shifted : makeStroke (shiftScancodes.getD b.toNat 0) = stroke) (before : UInt32) :
    plainMeaning before b = stroke := by
  rw [plainMeaning, if_pos make]
  split
  · exact shifted
  · exact unshifted

/-- What holds of both tables' entry and of the break code holds of a plain byte. -/
theorem plainMeaning_cases (p : Stroke → Prop) {b : UInt8}
    (unshifted : p (makeStroke (scancodes.getD b.toNat 0)))
    (shifted : p (makeStroke (shiftScancodes.getD b.toNat 0)))
    (up : p (breakStroke (scancodes.getD (b &&& 0x7F).toNat 0))) (before : UInt32) :
    p (plainMeaning before b) := by
  unfold plainMeaning
  split
  · split
    · exact shifted
    · exact unshifted
  · exact up

/-- A sequence other than the owned ones changes no bit that only those change. -/
theorem decoded_mask {owned : List (List UInt8)} {bits : UInt32}
    (plain : ∀ b, [b] ∉ owned → ∀ before, (plainMeaning before b).mask &&& bits = 0)
    (pair : ∀ b, [0xE0, b] ∉ owned → (extendedStroke b).mask &&& bits = 0)
    (s : KeySequence) (free : s.bytes ∉ owned) (before : UInt32) :
    (s.decoded before).mask &&& bits = 0 := by
  cases s with
  | plain b known => exact plain b free before
  | pair b single => exact pair b free
  | navigationMake c navigation =>
      obtain ⟨digit, key, -⟩ := navigation_digit navigation
      change (plainMeaning before c).mask &&& bits = 0
      rw [key]
      exact UInt32.zero_and
  | _ => exact UInt32.zero_and

/-- Only the owned bytes change a modifier bit. -/
theorem plainMeaning_mask (b : UInt8) : [b] ∉ modifierBytes →
    ∀ before, (plainMeaning before b).mask = 0 := by
  have tables : ∀ b : UInt8, ((makeStroke (scancodes.getD b.toNat 0)).mask = 0 ∧
      (makeStroke (shiftScancodes.getD b.toNat 0)).mask = 0 ∧
      (breakStroke (scancodes.getD (b &&& 0x7F).toNat 0)).mask = 0) ∨ [b] ∈ modifierBytes := by
    apply forall_byte
    decide +kernel
  intro other
  obtain ⟨unshifted, shifted, up⟩ := (tables b).resolve_right other
  exact plainMeaning_cases (fun stroke => stroke.mask = 0) unshifted shifted up

theorem extendedStroke_mask (b : UInt8) :
    ([0xE0, b] ∉ modifierBytes → (extendedStroke b).mask &&& 7 = 0) ∧
      (extendedStroke b).mask &&& 1 = 0 := by
  have strokes : ∀ b : UInt8, ((extendedStroke b).mask &&& 7 = 0 ∨ [0xE0, b] ∈ modifierBytes) ∧
      (extendedStroke b).mask &&& 1 = 0 := by
    apply forall_byte
    decide +kernel
  constructor
  · exact (strokes b).1.resolve_right
  · exact (strokes b).2

theorem modifiers_untouched (kind : Modifier) (s : KeySequence) (free : s.bytes ∉ modifierBytes)
    (before : UInt32) : (s.decoded before).mask &&& kind.mask = 0 := by
  have all : (s.decoded before).mask &&& 7 = 0 := by
    apply decoded_mask _ (fun b => (extendedStroke_mask b).1) s free before
    intro b other before
    rw [plainMeaning_mask b other before, UInt32.zero_and]
  have among : kind.mask = 7 &&& kind.mask := by cases kind <;> decide
  rw [among, ← UInt32.and_assoc, all, UInt32.zero_and]

theorem shift_untouched (s : KeySequence) (free : s.bytes ∉ shiftBytes) (before : UInt32) :
    (s.decoded before).mask &&& kbdShift = 0 := by
  apply decoded_mask _ (fun b _ => (extendedStroke_mask b).2) s free before
  intro b other before
  by_cases modifier : [b] ∈ modifierBytes
  · -- The Ctrl and Alt keys are left.
    have listed : b ∈ ([0x1D, 0x9D, 0x38, 0xB8] : List UInt8) := by
      simp [modifierBytes, shiftBytes] at modifier other ⊢
      grind
    have masks : ∀ b ∈ ([0x1D, 0x9D, 0x38, 0xB8] : List UInt8),
        (makeStroke (scancodes.getD b.toNat 0)).mask &&& 1 = 0 ∧
        (makeStroke (shiftScancodes.getD b.toNat 0)).mask &&& 1 = 0 ∧
        (breakStroke (scancodes.getD (b &&& 0x7F).toNat 0)).mask &&& 1 = 0 := by
      decide +kernel
    obtain ⟨unshifted, shifted, up⟩ := masks b listed
    exact plainMeaning_cases (fun stroke => stroke.mask &&& 1 = 0) unshifted shifted up before
  · rw [plainMeaning_mask b modifier before, UInt32.zero_and]

theorem make_decoded (key : ModifierKey) (before : UInt32) :
    key.make.decoded before = .set key.kind.mask := by
  have table : ∀ b ∈ ([0x1D, 0x38, 0x2A, 0x36] : List UInt8), b &&& 0x80 = 0 ∧
      shiftScancodes.getD b.toNat 0 = scancodes.getD b.toNat 0 := by decide +kernel
  have plain : ∀ b ∈ ([0x1D, 0x38, 0x2A, 0x36] : List UInt8), ∀ before,
      plainMeaning before b = makeStroke (scancodes.getD b.toNat 0) := by
    intro b listed
    obtain ⟨make, same⟩ := table b listed
    exact plainMeaning_make make rfl (congrArg makeStroke same)
  obtain ⟨kind, side⟩ := key
  cases kind <;> cases side
  case ctrl.left => exact plain 0x1D (by decide) before
  case alt.left => exact plain 0x38 (by decide) before
  case shift.left => exact plain 0x2A (by decide) before
  case shift.right => exact plain 0x36 (by decide) before
  all_goals rfl

theorem release_decoded (key : ModifierKey) (before : UInt32) :
    key.release.decoded before = .clear key.kind.mask := by
  obtain ⟨kind, side⟩ := key
  cases kind <;> cases side <;> rfl

theorem capsMake_decoded (before : UInt32) : capsMake.decoded before = .toggle kbdShift := by
  have plain : plainMeaning before 0x3A = .toggle kbdShift :=
    plainMeaning_make (by decide) (by decide) (by decide) before
  exact plain

theorem capsRelease_decoded (before : UInt32) : capsRelease.decoded before = .nothing := rfl

theorem Stroke.finish_append (read : UInt32 → KeySequence → Stroke) (before : UInt32)
    (front back : List KeySequence) :
    finish read before (front ++ back) = finish read (finish read before front) back := by
  induction front generalizing before with
  | nil => rfl
  | cons s front ih => exact ih _

/-- The modifier bits once a stream of complete sequences has been decoded from the start. -/
theorem decoded_shiftstate {p : UInt32 → Prop} (sequences : List KeySequence) :
    (∃ k, decodeAll (KeySequence.stream sequences) kbdStart = .ok k ∧ p k.kbdShiftstate) ↔
      p (Stroke.finish KeySequence.decoded 0 sequences) := by
  obtain ⟨k, done, read⟩ := decodeAll_stream sequences (rfl : kbdStart.kbdState = 0)
  have bits : k.kbdShiftstate = Stroke.finish KeySequence.decoded 0 sequences := read.shiftstate
  constructor
  · rintro ⟨k', done', holds⟩
    rw [done] at done'
    cases done'
    rwa [← bits]
  · intro holds
    rw [← bits] at holds
    exact ⟨k, done, holds⟩

/-- One complete sequence: a modifier key goes down, perhaps repeatedly, or up, or
another key than those and Caps Lock does something. -/
inductive KeyEvent
  | press (key : ModifierKey)
  | release (key : ModifierKey)
  | other (s : KeySequence) (free : s.bytes ∉ modifierBytes)

namespace KeyEvent

def sequence : KeyEvent → KeySequence
  | press key => key.make
  | release key => key.release
  | other s _ => s

def heldAfter (held : ModifierKey → Bool) : KeyEvent → ModifierKey → Bool
  | press key => fun x => if x = key then true else held x
  | release key => fun x => if x = key then false else held x
  | other _ _ => held

/-- The keys that are down after some events, none at first. -/
def held (events : List KeyEvent) : ModifierKey → Bool :=
  events.foldl heldAfter fun _ => false

/-- The modifier bits `decode` has after some events. -/
def bits (events : List KeyEvent) : UInt32 :=
  Stroke.finish KeySequence.decoded 0 (events.map sequence)

end KeyEvent

/-- Each modifier bit is set exactly if one of its two keys is down. -/
def Follows (shiftstate : UInt32) (held : ModifierKey → Bool) : Prop :=
  ∀ kind : Modifier, shiftstate &&& kind.mask ≠ 0 ↔ ∃ side, held ⟨kind, side⟩ = true

section Follow

open KeyEvent

variable {events : List KeyEvent}

theorem held_snoc (events : List KeyEvent) (e : KeyEvent) :
    held (events ++ [e]) = heldAfter (held events) e :=
  List.foldl_append

theorem bits_snoc (events : List KeyEvent) (e : KeyEvent) :
    bits (events ++ [e]) = (e.sequence.decoded (bits events)).shiftstate (bits events) := by
  unfold bits
  rw [List.map_append, Stroke.finish_append]
  rfl

theorem mask_apart {kind other : Modifier} (differ : other ≠ kind) :
    kind.mask &&& other.mask = 0 := by
  cases kind <;> cases other <;> first | rfl | exact absurd rfl differ

theorem mask_ne_zero (kind : Modifier) : kind.mask ≠ 0 := by
  cases kind <;> decide

/-- A key that goes down sets its bit. -/
theorem follows_press (follows : Follows (bits events) (held events)) (key : ModifierKey) :
    Follows (bits (events ++ [.press key])) (held (events ++ [.press key])) := by
  intro kind
  simp only [bits_snoc, held_snoc, KeyEvent.sequence, make_decoded, Stroke.shiftstate, heldAfter]
  by_cases same : kind = key.kind
  · subst same
    rw [or_and_same]
    constructor
    · intro _
      exact ⟨key.side, if_pos rfl⟩
    · intro _
      exact mask_ne_zero key.kind
  · have others : ∀ side, (⟨kind, side⟩ : ModifierKey) ≠ key := by
      intro side equal
      exact same (congrArg ModifierKey.kind equal)
    rw [or_and_apart (mask_apart same)]
    simp only [others, ↓reduceIte]
    exact follows kind

/-- A key that goes up while its partner is up clears its bit. -/
theorem follows_release (follows : Follows (bits events) (held events)) (key : ModifierKey)
    (alone : held events key.partner = false) :
    Follows (bits (events ++ [.release key])) (held (events ++ [.release key])) := by
  intro kind
  simp only [bits_snoc, held_snoc, KeyEvent.sequence, release_decoded, Stroke.shiftstate, heldAfter]
  by_cases same : kind = key.kind
  · subst same
    rw [and_not_and_same]
    simp only [ne_eq, not_true_eq_false, false_iff, not_exists]
    intro side
    split
    · simp
    · rename_i differ
      have partner : (⟨key.kind, side⟩ : ModifierKey) = key.partner := by
        obtain ⟨_, own⟩ := key
        cases side <;> cases own <;> first | rfl | exact absurd rfl differ
      rw [partner, alone]
      simp
  · have others : ∀ side, (⟨kind, side⟩ : ModifierKey) ≠ key := by
      intro side equal
      exact same (congrArg ModifierKey.kind equal)
    rw [and_not_and_apart (mask_apart same)]
    simp only [others, ↓reduceIte]
    exact follows kind

theorem follows_other (follows : Follows (bits events) (held events)) (s : KeySequence)
    (free : s.bytes ∉ modifierBytes) :
    Follows (bits (events ++ [.other s free])) (held (events ++ [.other s free])) := by
  intro kind
  simp only [bits_snoc, held_snoc, KeyEvent.sequence, heldAfter]
  rw [Stroke.shiftstate_and _ (modifiers_untouched kind s free _)]
  exact follows kind

/-- A key that goes up while its partner is down takes the bit from it. -/
theorem not_follows_release (key : ModifierKey) (partner : held events key.partner = true) :
    ¬ Follows (bits (events ++ [.release key])) (held (events ++ [.release key])) := by
  intro follows
  have kind := follows key.kind
  have differ : key.partner ≠ key := by
    obtain ⟨_, own⟩ := key
    cases own <;> simp [ModifierKey.partner]
  simp only [bits_snoc, held_snoc, KeyEvent.sequence, release_decoded, Stroke.shiftstate, heldAfter,
    and_not_and_same, ne_eq, not_true_eq_false, false_iff, not_exists] at kind
  apply kind key.partner.side
  exact (if_neg differ).trans partner

/-- After every complete sequence of a stream the modifier bits tell which keys are down,
exactly if no modifier key goes up while the other key of its kind is down. -/
theorem modifiers_follow_iff (events : List KeyEvent) :
    (∀ front, front <+: events → ∃ k,
        decodeAll (KeySequence.stream (front.map KeyEvent.sequence)) kbdStart = .ok k ∧
          Follows k.kbdShiftstate (held front)) ↔
      ∀ front key, front ++ [.release key] <+: events → held front key.partner = false := by
  have bridge : ∀ front : List KeyEvent, (∃ k,
      decodeAll (KeySequence.stream (front.map KeyEvent.sequence)) kbdStart = .ok k ∧
        Follows k.kbdShiftstate (held front)) ↔ Follows (bits front) (held front) :=
    fun front => decoded_shiftstate (p := fun bits => Follows bits (held front)) _
  simp only [bridge]
  constructor
  · intro follows front key released
    apply Bool.eq_false_iff.mpr
    intro partner
    exact not_follows_release key partner (follows _ released)
  · intro alone front
    induction front using List.reverseRecOn with
    | nil =>
        intro _ kind
        simp [bits, held, Stroke.finish]
    | append_singleton front e ih =>
        intro inside
        have before := ih ((List.prefix_append front [e]).trans inside)
        cases e with
        | press key => exact follows_press before key
        | release key => exact follows_release before key (alone front key inside)
        | other s free => exact follows_other before s free

/-- Each key is down when it goes up. -/
def PressedFirst (events : List KeyEvent) : Prop :=
  ∀ front key, front ++ [.release key] <+: events → held front key = true

def leftCtrl : ModifierKey := ⟨.ctrl, .left⟩

def rightCtrl : ModifierKey := ⟨.ctrl, .right⟩

/-- Both Ctrl keys go down, and the left one up again. -/
def overlappingCtrl : List KeyEvent := [.press leftCtrl, .press rightCtrl, .release leftCtrl]

theorem overlappingCtrl_pressedFirst : PressedFirst overlappingCtrl := by
  intro front key released
  obtain ⟨rest, same⟩ := released
  have place : front = [.press leftCtrl, .press rightCtrl] ∧ key = leftCtrl := by
    rcases front with _ | ⟨first, _ | ⟨second, _ | ⟨third, front⟩⟩⟩ <;>
      simp_all [overlappingCtrl]
  rw [place.1, place.2]
  rfl

/-- The right Ctrl key is still down, but its bit is clear. -/
theorem overlapping_ctrl_is_lost : ¬ ∀ events, PressedFirst events → ∃ k,
    decodeAll (KeySequence.stream (events.map KeyEvent.sequence)) kbdStart = .ok k ∧
      Follows k.kbdShiftstate (held events) := by
  intro claim
  have follows := (decoded_shiftstate (p := fun bits => Follows bits (held overlappingCtrl)) _).mp
    (claim overlappingCtrl overlappingCtrl_pressedFirst)
  have lost := @not_follows_release [.press leftCtrl, .press rightCtrl] leftCtrl rfl
  exact lost follows

end Follow

end FrogOS
