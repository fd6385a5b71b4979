import FrogOS.PrintfSyntax
import Mathlib.Data.List.Basic

set_option autoImplicit false

namespace FrogOS.Printf

open ByteMemory BoundedAccess Emission Numeral

section Cells

/-- The first of the bytes that a list brings into a memory. -/
theorem blit_cons (m : Mem) (address : Nat) (c : UInt8) (text : List UInt8) (n : Nat) :
    blit (store8 m address c) (address + 1) (ofList text) 0 n =
      blit m address (ofList (c :: text)) 0 (n + 1) := by
  funext x
  by_cases first : x = address
  · have absent : ¬ (address + 1 ≤ x ∧ x < address + 1 + n) := by omega
    have present : address ≤ x ∧ x < address + (n + 1) := by omega
    simp only [blit, absent, present, and_self, ↓reduceIte]
    rw [first, store8_same, Nat.sub_self]
    rfl
  · by_cases later : address + 1 ≤ x ∧ x < address + 1 + n
    · have present : address ≤ x ∧ x < address + (n + 1) := by omega
      have position : x - address = x - (address + 1) + 1 := by omega
      simp only [blit, later, present, and_self, ↓reduceIte, Nat.zero_add, position]
      rfl
    · have absent : ¬ (address ≤ x ∧ x < address + (n + 1)) := by omega
      simp only [blit, later, absent, ↓reduceIte]
      exact store8_other _ _ _ _ first

theorem blit_none (m : Mem) (address : Nat) (source : Mem) (src : Nat) :
    blit m address source src 0 = m := by
  funext x
  have absent : ¬ (address ≤ x ∧ x < address + 0) := by omega
  simp only [blit, absent, ↓reduceIte]

/-- What `_out_buffer` leaves of a text: the characters whose index is below `maxlen`. -/
theorem emit_outBuffer (buffer maxlen i : UInt32) (m : Mem) (text : List UInt8)
    (short : i.toNat + text.length < 2 ^ 32) :
    (Sink.emit ⟨outBuffer, buffer, maxlen⟩ ⟨m, i⟩ text).state =
      blit m (buffer.toNat + i.toNat) (ofList text) 0
        (min text.length (maxlen.toNat - i.toNat)) := by
  induction text generalizing m i with
  | nil =>
      rw [List.length_nil, Nat.zero_min, blit_none]
      rfl
  | cons c text ih =>
      rw [List.length_cons] at short ⊢
      have next : (i + 1).toNat = i.toNat + 1 := by
        rw [UInt32.toNat_add]
        change (i.toNat + 1) % 2 ^ 32 = _
        omega
      have rest := ih (i + 1) (outBuffer c buffer i maxlen m) (by omega)
      rw [next] at rest
      refine Eq.trans rest ?_
      by_cases inside : i < maxlen
      · have less := UInt32.lt_iff_toNat_lt.mp inside
        have left : maxlen.toNat - i.toNat = maxlen.toNat - (i.toNat + 1) + 1 := by omega
        have stored : outBuffer c buffer i maxlen m = store8 m (buffer.toNat + i.toNat) c :=
          if_pos inside
        rw [stored, left, Nat.succ_min_succ, ← Nat.add_assoc, blit_cons]
      · have full := Nat.le_of_not_lt (mt UInt32.lt_iff_toNat_lt.mpr inside)
        have dropped : outBuffer c buffer i maxlen m = m := if_neg inside
        rw [dropped, Nat.sub_eq_zero_of_le full, Nat.sub_eq_zero_of_le (by omega), Nat.min_zero,
          Nat.min_zero, blit_none, blit_none]

/-- Storing the terminator behind the characters that are in front of the last cell. -/
theorem store8_terminator (m : Mem) (address : Nat) (text : List UInt8) (count : Nat)
    (positive : 0 < count) :
    store8 (blit m address (ofList text) 0 (min text.length count))
        (address + min text.length (count - 1)) 0 =
      blit m address (ofList (text.take (count - 1) ++ [0])) 0 (min (text.length + 1) count) := by
  funext x
  by_cases terminator : x = address + min text.length (count - 1)
  · have present : address ≤ x ∧ x < address + min (text.length + 1) count := by omega
    have index : x - address = (text.take (count - 1)).length := by
      rw [List.length_take]
      omega
    rw [terminator, store8_same, ← terminator]
    simp only [blit, present, and_self, ↓reduceIte, Nat.zero_add, ofList]
    rw [index, List.getD_eq_getElem?_getD, List.getElem?_concat_length]
    rfl
  · rw [store8_other _ _ _ _ terminator]
    by_cases before : address ≤ x ∧ x < address + min text.length (count - 1)
    · have inside : address ≤ x ∧ x < address + min text.length count := by omega
      have present : address ≤ x ∧ x < address + min (text.length + 1) count := by omega
      have index : x - address < (text.take (count - 1)).length := by
        rw [List.length_take]
        omega
      simp only [blit, inside, present, and_self, ↓reduceIte, Nat.zero_add, ofList]
      rw [List.getD_eq_getElem?_getD, List.getD_eq_getElem?_getD, List.getElem?_append_left index,
        List.getElem?_take_of_lt (by omega)]
    · have outside : ¬ (address ≤ x ∧ x < address + min text.length count) := by omega
      have absent : ¬ (address ≤ x ∧ x < address + min (text.length + 1) count) := by omega
      simp only [blit, outside, absent, ↓reduceIte]

/-- What the terminator stores is behind what fits of the text. -/
theorem terminate_outBuffer (buffer count : UInt32) (m : Mem) (text : List UInt8)
    (short : text.length < 2 ^ 32) :
    let sink : Sink Mem := ⟨outBuffer, buffer, count⟩
    sink.terminate (sink.emit ⟨m, 0⟩ text) =
      blit m buffer.toNat (ofList (text.take (count.toNat - 1) ++ [0])) 0
        (min (text.length + 1) count.toNat) := by
  intro sink
  have idx : (sink.emit ⟨m, 0⟩ text).idx = UInt32.ofNat text.length := by
    rw [Sink.emit, Output.emit_idx, UInt32.zero_add]
  have length : (UInt32.ofNat text.length).toNat = text.length := UInt32.toNat_ofNat_of_lt' short
  have stored : (sink.emit ⟨m, 0⟩ text).state =
      blit m buffer.toNat (ofList text) 0 (min text.length count.toNat) :=
    emit_outBuffer buffer count 0 m text (by rwa [UInt32.toNat_zero, Nat.zero_add])
  have ended : sink.terminate (sink.emit ⟨m, 0⟩ text) =
      outBuffer 0 buffer (if UInt32.ofNat text.length < count then UInt32.ofNat text.length
        else count - 1) count (blit m buffer.toNat (ofList text) 0 (min text.length count.toNat)) := by
    rw [Sink.terminate, idx, stored]
    rfl
  rw [ended]
  by_cases none : count = 0
  · subst none
    rw [outBuffer, if_neg UInt32.not_lt_zero, UInt32.toNat_zero, Nat.min_zero, Nat.min_zero,
      blit_none, blit_none]
  · have positive : 0 < count.toNat :=
      Nat.pos_of_ne_zero fun zero => none (UInt32.toNat_inj.mp zero)
    have last : (count - 1).toNat = count.toNat - 1 :=
      UInt32.toNat_sub_of_le _ _ (UInt32.le_iff_toNat_le.mpr positive)
    have place : (if UInt32.ofNat text.length < count then UInt32.ofNat text.length
        else count - 1).toNat = min text.length (count.toNat - 1) := by
      split
      · rename_i inside
        have less := UInt32.lt_iff_toNat_lt.mp inside
        omega
      · rename_i outside
        have reached := Nat.le_of_not_lt (mt UInt32.lt_iff_toNat_lt.mpr outside)
        omega
    rw [outBuffer, if_pos (UInt32.lt_iff_toNat_lt.mpr (by rw [place]; omega)), place]
    exact store8_terminator m buffer.toNat text count.toNat positive

/-- `sprintf` stores the text and a terminator. -/
theorem sprintf_stores (floats : FloatText) (strings : Mem) {buffer : UInt32}
    {format : List UInt8} {args : List UInt32} (m : Mem) {text : List UInt8} {rest : List UInt32}
    (present : buffer ≠ 0) (writes : formatted floats strings format args = .ok (text, rest))
    (short : text.length < 2 ^ 32 - 1) :
    sprintf floats strings buffer format args m =
      .ok (blit m buffer.toNat (ofList (text ++ [0])) 0 (text ++ [0]).length,
        (UInt32.ofNat text.length).toInt32) := by
  have executes := vsnprintf_executes floats strings ⟨outBuffer, buffer, 2 ^ 32 - 1⟩ format args m
  have actual : (Sink.mk outBuffer buffer (2 ^ 32 - 1)).actual = ⟨outBuffer, buffer, 2 ^ 32 - 1⟩ :=
    if_neg present
  have limit : ((2 : UInt32) ^ 32 - 1).toNat = 2 ^ 32 - 1 := rfl
  have stored := terminate_outBuffer buffer (2 ^ 32 - 1) m text (by omega)
  simp only [limit] at stored
  rw [List.take_of_length_le (by omega), Nat.min_eq_left (by omega)] at stored
  rw [writes, ok_bind, actual] at executes
  rw [sprintf, executes, List.length_append]
  exact congrArg (fun state => Except.ok (state, (UInt32.ofNat text.length).toInt32)) stored

end Cells

/-- `snprintf` stores as much of the text as fits in front of a terminator, stores nothing outside
the `count` bytes of the buffer, and returns the length of the whole text. -/
theorem snprintf_truncates (floats : FloatText) (strings : Mem) (buffer count : UInt32)
    (format : List UInt8) (args : List UInt32) (m : Mem) {text : List UInt8}
    {rest : List UInt32} (writes : formatted floats strings format args = .ok (text, rest))
    (short : text.length < 2 ^ 32) :
    ∃ m', snprintf floats strings buffer count format args m =
        .ok (m', (UInt32.ofNat text.length).toInt32) ∧
      (buffer ≠ 0 → count ≠ 0 →
        bytes m' buffer.toNat (min text.length (count.toNat - 1) + 1) =
          text.take (count.toNat - 1) ++ [0]) ∧
      (buffer = 0 → m' = m) ∧
      Frame buffer.toNat (min (text.length + 1) count.toNat) m m' := by
  have executes := vsnprintf_executes floats strings ⟨outBuffer, buffer, count⟩ format args m
  rw [writes, ok_bind] at executes
  refine ⟨_, executes, ?_⟩
  by_cases null : buffer = 0
  · have unchanged : (Sink.mk outBuffer buffer count).actual.terminate
        ((Sink.mk outBuffer buffer count).actual.emit ⟨m, 0⟩ text) = m := by
      rw [Sink.actual, if_pos null, Sink.terminate]
      exact (Output.emit_state _ (fun s _ => s) (fun _ _ _ => rfl) text).trans
        (List.foldl_fixed text)
    rw [unchanged]
    exact ⟨fun present => absurd null present, fun _ => rfl, Frame.refl _ _ _⟩
  · have actual : (Sink.mk outBuffer buffer count).actual = ⟨outBuffer, buffer, count⟩ :=
      if_neg null
    rw [actual, terminate_outBuffer buffer count m text short]
    refine ⟨fun _ some => ?_, fun zero => absurd zero null, blit_frame _ _ _ _ _⟩
    have positive : 0 < count.toNat :=
      Nat.pos_of_ne_zero fun zero => some (UInt32.toNat_inj.mp zero)
    have size : (text.take (count.toNat - 1) ++ [0]).length =
        min text.length (count.toNat - 1) + 1 := by
      rw [List.length_append, List.length_take, Nat.min_comm]
      rfl
    have cells : min (text.length + 1) count.toNat = min text.length (count.toNat - 1) + 1 := by
      omega
    rw [cells, ← size]
    exact bytes_blit_ofList _ _ _

/-- A text of five characters in a buffer of four bytes. -/
theorem snprintf_truncates_hello :
    ∃ m', snprintf ⟨fun _ _ _ _ => [], fun _ _ _ _ => []⟩ (fun _ => 0) 0x1000 4
        [104, 101, 108, 108, 111] [] (fun _ => 7) = .ok (m', 5) ∧
      bytes m' 0x1000 4 = [104, 101, 108, 0] := by
  have writes : formatted ⟨fun _ _ _ _ => [], fun _ _ _ _ => []⟩ (fun _ => 0)
      [104, 101, 108, 108, 111] [] = .ok ([104, 101, 108, 108, 111], []) := by rfl
  obtain ⟨m', done, stored, -⟩ := snprintf_truncates ⟨fun _ _ _ _ => [], fun _ _ _ _ => []⟩
    (fun _ => 0) 0x1000 4 [104, 101, 108, 108, 111] [] (fun _ => 7) writes (by decide)
  exact ⟨m', done, stored (by decide) (by decide)⟩

end FrogOS.Printf
