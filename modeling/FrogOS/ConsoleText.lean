import FrogOS.PrintfSyntax
import FrogOS.Simulation
import FrogOS.Terminal

set_option autoImplicit false

namespace FrogOS

open ByteMemory BoundedAccess Emission Simulation

/-- `while (*str++ != '\0') len++`. After as many rounds as there are addresses it is where it
started. -/
def strlenLoop (strings : Mem) : Nat → UInt32 → Int32 → Except Fault Int32
  | 0, _, _ => .error .diverges
  | fuel + 1, str, len =>
      if strings str.toNat ≠ 0 then strlenLoop strings fuel (str + 1) (len + 1) else .ok len

def strlen (strings : Mem) (str : UInt32) : Except Fault Int32 := strlenLoop strings (2 ^ 32) str 0

namespace Printf

section Console

variable {σ : Type} (putch : σ → UInt8 → σ)

/-- `_out_char` drops the zero bytes, and the terminator with them. -/
theorem terminate_outChar (buffer maxlen : UInt32) (state : σ) (text : List UInt8) :
    let sink : Sink σ := ⟨outChar putch, buffer, maxlen⟩
    sink.terminate (sink.emit ⟨state, 0⟩ text) = (text.filter (· ≠ 0)).foldl putch state := by
  intro sink
  have blind : ∀ c i s, sink.call c i s = if c ≠ 0 then putch s c else s := fun _ _ _ => rfl
  rw [Sink.terminate, blind, if_neg (by decide), Sink.emit, Output.emit_state _ _ blind,
    List.foldl_filter]
  simp only [ne_eq, decide_not, Bool.not_eq_eq_eq_not, Bool.not_true, decide_eq_false_iff_not]

/-- `printf` sends its text through `putch`, without the zero bytes, and returns the length of all
of it. -/
theorem printf_executes (floats : FloatText) (strings : Mem) {buffer : UInt32}
    (present : buffer ≠ 0) (format : List UInt8) (args : List UInt32) (state : σ) :
    printf floats strings putch buffer format args state = (do
      let (text, _) ← formatted floats strings format args
      return ((text.filter (· ≠ 0)).foldl putch state, (UInt32.ofNat text.length).toInt32)) := by
  have actual : (Sink.mk (outChar putch) buffer (2 ^ 32 - 1)).actual =
      ⟨outChar putch, buffer, 2 ^ 32 - 1⟩ := if_neg present
  rw [printf, vsnprintf_executes, actual]
  simp only [terminate_outChar]

/-- A lone percent sign. -/
theorem printf_executes_percent :
    printf ⟨fun _ _ _ _ => [], fun _ _ _ _ => []⟩ (fun _ => 0) (fun text c => text ++ [c]) 0x1000
      [37, 37] [] [] = .ok ([37], 1) := by
  have executes := printf_executes (fun text c => text ++ [c])
    ⟨fun _ _ _ _ => [], fun _ _ _ _ => []⟩ (fun _ => 0) (by decide : (0x1000 : UInt32) ≠ 0)
    [37, 37] [] []
  exact executes

end Console

end Printf

namespace Console

open Printf

/-- The loop of `puts`, which takes the length again before every character. -/
def putsLoop (strings : Mem) (text : UInt32) : Nat → Int32 → Console → Except Fault Console
  | 0, _, _ => .error .diverges
  | fuel + 1, i, s => do
      let length ← strlen strings text
      if i < length then do
        let s ← s.putch (strings (text + i.toUInt32).toNat)
        putsLoop strings text fuel (i + 1) s
      else .ok s

def puts (strings : Mem) (s : Console) (text : UInt32) : Except Fault Console :=
  putsLoop strings text (2 ^ 32) 0 s

/-- `printf` with `putch` for `_putchar`. -/
def printf (floats : FloatText) (strings : Mem) (stack : UInt32) (s : Console)
    (format : List UInt8) (args : List UInt32) : Except Fault Console := do
  let (after, _) ← Printf.printf floats strings (fun state c => state >>= fun s => s.putch c) stack
    format args (.ok s)
  after

/-- The characters of a string, up to as many as an `int` counts. -/
def characters (strings : Mem) (text : UInt32) : List UInt8 := stringBytes strings (2 ^ 31) text

/-- What the kernel asks of the console. -/
inductive TextCall
  | cls
  | putch (c : UInt8)
  | puts (text : UInt32)
  | printf (format : List UInt8) (args : List UInt32)

section Calls

variable (floats : FloatText) (strings : Mem) (stack : UInt32)

def textCall (s : Console) : TextCall → Except Fault Console
  | .cls => s.cls
  | .putch c => s.putch c
  | .puts text => s.puts strings text
  | .printf format args => s.printf floats strings stack format args

def textCalls (s : Console) (calls : List TextCall) : Except Fault Console :=
  calls.foldlM (textCall floats strings stack) s

/-- What a call writes on the page. -/
def onPage (p : Page) : TextCall → Except Fault Page
  | .cls => .ok Page.empty
  | .putch c => .ok (p.putch c)
  | .puts text => .ok ((characters strings text).foldl Page.putch p)
  | .printf format args => do
      let (text, _) ← formatted floats strings format args
      return (text.filter (· ≠ 0)).foldl Page.putch p

/-- The length of the string is a number that an `int` has. -/
def TextCall.Short : TextCall → Prop
  | puts text => (characters strings text).length < 2 ^ 31
  | _ => True

end Calls

section Strings

variable (strings : Mem)

theorem strlenLoop_eq (fuel : Nat) (str : UInt32) (len : Int32) :
    strlenLoop strings fuel str len = if (stringBytes strings fuel str).length < fuel then
      .ok (len + Int32.ofNat (stringBytes strings fuel str).length) else .error .diverges := by
  induction fuel generalizing str len with
  | zero => rfl
  | succ fuel ih =>
      rw [strlenLoop, stringBytes]
      split
      · rw [ih, List.length_cons, Int32.ofNat_add, Int32.add_comm _ (Int32.ofNat 1),
          ← Int32.add_assoc]
        simp only [Nat.add_lt_add_iff_right]
        rfl
      · rw [List.length_nil, if_pos (Nat.zero_lt_succ fuel)]
        exact congrArg Except.ok (Int32.add_zero len).symm

theorem stringBytes_prefix {n k : Nat} {p : UInt32} (more : n ≤ k)
    (ends : (stringBytes strings n p).length < n) :
    stringBytes strings k p = stringBytes strings n p := by
  induction n generalizing k p with
  | zero => exact absurd ends (Nat.not_lt_zero _)
  | succ n ih =>
      cases k with
      | zero => exact absurd more (Nat.not_succ_le_zero n)
      | succ k =>
          rw [stringBytes] at ends ⊢
          rw [stringBytes]
          split
          · rename_i present
            rw [if_pos present] at ends
            rw [ih (Nat.le_of_succ_le_succ more) (Nat.lt_of_succ_lt_succ ends)]
          · rfl

theorem stringBytes_getElem? {n k : Nat} {p : UInt32}
    (inside : k < (stringBytes strings n p).length) :
    (stringBytes strings n p)[k]? = some (strings (p + UInt32.ofNat k).toNat) := by
  induction n generalizing k p with
  | zero => exact absurd inside (Nat.not_lt_zero k)
  | succ n ih =>
      rw [stringBytes] at inside ⊢
      split at inside
      · rename_i present
        rw [if_pos present]
        cases k with
        | zero => rw [List.getElem?_cons_zero, show UInt32.ofNat 0 = 0 from rfl, UInt32.add_zero]
        | succ k =>
            rw [List.getElem?_cons_succ, ih (Nat.lt_of_succ_lt_succ inside), UInt32.ofNat_add,
              UInt32.add_assoc, UInt32.add_comm 1]
            rfl
      · exact absurd inside (Nat.not_lt_zero k)

variable {strings}

theorem putsLoop_eq {text : UInt32} {fuel k : Nat}
    (short : (characters strings text).length < 2 ^ 31)
    (inside : k ≤ (characters strings text).length)
    (enough : (characters strings text).length - k < fuel) (s : Console) :
    putsLoop strings text fuel (Int32.ofNat k) s =
      s.putchAll ((characters strings text).drop k) := by
  have whole : stringBytes strings (2 ^ 32) text = characters strings text :=
    stringBytes_prefix strings (by decide) short
  have length : strlen strings text =
      .ok (Int32.ofNat (characters strings text).length) := by
    rw [strlen, strlenLoop_eq, whole, if_pos (Nat.lt_trans short (by decide))]
    exact congrArg Except.ok (Int32.zero_add _)
  induction fuel generalizing k s with
  | zero => exact absurd enough (Nat.not_lt_zero _)
  | succ fuel ih =>
      have order := Int32.ofNat_lt_iff_lt (a := k)
        (b := (characters strings text).length) (by omega) short
      rw [putsLoop, length, ok_bind]
      by_cases more : k < (characters strings text).length
      · have here : strings (text + (Int32.ofNat k).toUInt32).toNat =
            (characters strings text)[k] := by
          have read : (characters strings text)[k]? = _ := stringBytes_getElem? strings more
          rw [List.getElem?_eq_getElem more] at read
          rw [Option.some.inj read, Int32.toUInt32_ofNat']
        rw [if_pos (order.mpr more), List.drop_eq_getElem_cons more, putchAll, List.foldlM_cons,
          here]
        congr 1
        funext t
        have next : Int32.ofNat k + 1 = Int32.ofNat (k + 1) := (Int32.ofNat_add k 1).symm
        rw [next]
        exact ih more (by omega) t
      · rw [if_neg (mt order.mp more), List.drop_eq_nil_of_le (Nat.le_of_not_lt more)]
        rfl

/-- `puts` sends the characters in front of the terminator. -/
theorem puts_eq {text : UInt32} (short : (characters strings text).length < 2 ^ 31)
    (s : Console) : s.puts strings text = s.putchAll (characters strings text) :=
  putsLoop_eq (k := 0) short (Nat.zero_le _) (by omega) s

end Strings

section Simulation

variable {floats : FloatText} {strings : Mem} {stack : UInt32} {color : UInt8} {s : Console}
  {p : Page}

theorem printf_eq (present : stack ≠ 0) (format : List UInt8) (args : List UInt32) :
    s.printf floats strings stack format args = (do
      let (text, _) ← formatted floats strings format args
      s.putchAll (text.filter (· ≠ 0))) := by
  have actual (out : OutFct (Except Fault Console)) :
      (Sink.mk out stack (2 ^ 32 - 1)).actual = ⟨out, stack, 2 ^ 32 - 1⟩ := if_neg present
  rw [Console.printf, Printf.printf, vsnprintf_executes, actual]
  cases formatted floats strings format args with
  | error fault => rfl
  | ok written =>
      simp only [ok_bind, terminate_outChar]
      exact foldl_bind Console.putch (.ok s) (written.1.filter (· ≠ 0))

/-- Every call keeps the page on the screen, and `printf` fails where its format does. -/
theorem textCall_simulates (present : stack ≠ 0) (refines : Refines color s p) (call : TextCall)
    (short : call.Short strings) :
    Simulates (Refines color) (s.textCall floats strings stack call)
      (onPage floats strings p call) := by
  cases call with
  | cls =>
      obtain ⟨t, done, start⟩ := cls_refines s
      rw [refines.2.ink] at start
      rw [textCall, onPage, done]
      exact .ok start
  | putch c =>
      rw [textCall, onPage]
      exact .of_exists (putch_refines refines c)
  | puts text =>
      rw [textCall, puts_eq short, onPage]
      exact .of_exists (putchAll_refines refines _)
  | printf format args =>
      rw [textCall, printf_eq present, onPage]
      cases formatted floats strings format args with
      | error fault => exact .error fault
      | ok written => exact .of_exists (putchAll_refines refines _)

end Simulation

/-- Whatever calls of `cls`, `putch`, `puts` and `printf` follow a `cls`, only a format that is left
makes them fail. Else no access leaves the video cells, and these show the last 25 rows of the page
that the texts of the calls make. -/
theorem console_shows_texts (floats : FloatText) (strings : Mem) {stack : UInt32}
    (present : stack ≠ 0) (s : Console) (calls : List TextCall)
    (short : ∀ call ∈ calls, call.Short strings) :
    Simulates (fun t (p : Page) => Showing s.color (p.highest - 24) t p)
      (s.cls >>= fun cleared => cleared.textCalls floats strings stack calls)
      (calls.foldlM (onPage floats strings) Page.empty) := by
  obtain ⟨cleared, clsDone, start⟩ := cls_refines s
  have run : Simulates (Refines s.color) (cleared.textCalls floats strings stack calls)
      (calls.foldlM (onPage floats strings) Page.empty) :=
    .foldlM (fun call member _ _ refines => textCall_simulates present refines call
      (short call member)) start
  rw [clsDone, ok_bind]
  exact run.mono fun _ _ refines => refines.2.showing

/-- A number and the end of its line on the console of the kernel's start. -/
theorem console_shows_number :
    let s : Console :=
      { mem := fun _ => 0, csrX := 0, csrY := 0, attrib := 0xf, crtc := ⟨0, fun _ => 0⟩ }
    ∃ t, (s.cls >>= fun cleared => cleared.textCalls ⟨fun _ _ _ _ => [], fun _ _ _ _ => []⟩
        (fun _ => 0) 0x1000 [.printf [37, 100] [42], .putch 10]) = .ok t ∧
      Showing s.color 0 t (Page.written [52, 50, 10]) := by
  intro s
  have shows := console_shows_texts ⟨fun _ _ _ _ => [], fun _ _ _ _ => []⟩ (fun _ => 0)
    (by decide : (0x1000 : UInt32) ≠ 0) s [.printf [37, 100] [42], .putch 10]
    (by simp [TextCall.Short])
  exact shows.exists_ok

end Console

end FrogOS
