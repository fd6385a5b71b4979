import FrogOS.Irq
import Mathlib.Data.List.Nodup
import Mathlib.Data.List.Induction

set_option autoImplicit false

namespace FrogOS

open LinkedChain

/-- The calls of the two functions. -/
inductive IrqOp
  | install (irq : Nat) (handler : UInt32)
  | uninstall (irq : Nat) (handler : UInt32)
deriving DecidableEq, Repr

namespace IrqOp

def irq : IrqOp → Nat
  | install irq _ => irq
  | uninstall irq _ => irq

def perform (fuel : Nat) (s : IrqState) : IrqOp → Option IrqState
  | install irq handler => installIrqHandler s irq handler
  | uninstall irq handler => uninstallIrqHandler fuel s irq handler

/-- The handlers of one line after an operation, most recently installed first. -/
def handlersAfter (line : Nat) (handlers : List UInt32) : IrqOp → List UInt32
  | install irq handler => if irq = line then handler :: handlers else handlers
  | uninstall irq handler => if irq = line then handlers.erase handler else handlers

/-- The handlers installed on a line and not uninstalled since, most recent first. -/
def installed (ops : List IrqOp) (line : Nat) : List UInt32 :=
  ops.foldl (handlersAfter line) []

/-- A handler is installed only while it is on no chain, on one of the lines 0 to 16;
any handler may be uninstalled from any entry of the table. -/
def Allowed (before : List IrqOp) : IrqOp → Prop
  | install irq handler => irq ≤ 16 ∧ handler ≠ 0 ∧ ∀ line, handler ∉ installed before line
  | uninstall irq handler => irq < irqCount ∧ handler ≠ 0

/-- Every operation is allowed after those before it. -/
def Proper (ops : List IrqOp) : Prop := ∀ front op, front ++ [op] <+: ops → Allowed front op

end IrqOp

open IrqOp

/-- The state `set_irqs` leaves: `irq_handlers` is all null from the start. -/
def irqStart (p : Pics) (next : UInt32 → UInt32) : IrqState where
  irqHandlers := fun _ => 0
  next := next
  pics := setIrqs p

def irqRun (fuel : Nat) (s : IrqState) (ops : List IrqOp) : Option IrqState :=
  ops.foldlM (perform fuel) s

section Links

variable {next : UInt32 → UInt32} {handler p : UInt32} {xs : List UInt32}

theorem setNext_other (next : UInt32 → UInt32) (value : UInt32) {x : UInt32} (other : x ≠ handler) :
    setNext next handler value x = next x := if_neg other

theorem setNext_same (next : UInt32 → UInt32) (handler value : UInt32) :
    setNext next handler value handler = value := if_pos rfl

/-- The loop takes the handler out of a chain it does not head. -/
theorem unlinkLoop_spec (chain : Chain next 0 p xs) (head : p ≠ handler) (nonnull : handler ≠ 0)
    {fuel : Nat} (enough : xs.length < fuel) :
    ∃ next', unlinkLoop handler fuel p next = some next' ∧ Chain next' 0 p (xs.erase handler) ∧
      ∀ y, y ∉ xs → next' y = next y := by
  induction xs generalizing p fuel with
  | nil =>
      obtain ⟨fuel, rfl⟩ := Nat.exists_eq_add_of_lt enough
      obtain rfl : p = 0 := chain
      refine ⟨next, ?_, rfl, fun _ _ => rfl⟩
      rw [unlinkLoop, if_pos rfl]
  | cons x rest ih =>
      obtain ⟨more, rfl⟩ : ∃ more, fuel = more + 1 := ⟨fuel - 1, by omega⟩
      have distinct := List.nodup_cons.mp chain.nodup
      obtain ⟨rfl, used, tail⟩ := chain
      have tail : Chain next 0 (next p) rest := tail
      have keep : (p :: rest).erase handler = p :: rest.erase handler :=
        List.erase_cons_tail (by simpa using head)
      rw [List.length_cons] at enough
      rw [unlinkLoop, if_neg used, keep]
      by_cases found : next p = handler
      · rw [if_pos found]
        have start : next p ≠ 0 := by
          rw [found]
          exact nonnull
        obtain ⟨back, rfl, behind⟩ := tail.nonempty start
        rw [found] at behind
        have gone : (next p :: back).erase handler = back := by
          rw [found, List.erase_cons_head]
        refine ⟨_, rfl, ?_, ?_⟩
        · rw [gone]
          apply Chain.cons used
          rw [setNext_same]
          apply behind.congr
          intro y member
          apply setNext_other
          intro same
          subst same
          exact distinct.1 (List.mem_cons_of_mem _ member)
        · intro y outside
          apply setNext_other
          intro same
          subst same
          exact outside List.mem_cons_self
      · rw [if_neg found]
        obtain ⟨next', done, after, others⟩ := ih tail found (show rest.length < more by omega)
        refine ⟨next', done, ?_, ?_⟩
        · apply Chain.cons used
          rw [others p distinct.1]
          exact after
        · intro y outside
          exact others y fun member => outside (List.mem_cons_of_mem _ member)

end Links

/-- Every chain lists the handlers of its line, no handler is on two chains, and a
line is masked exactly if nothing is installed on it, except for the cascade line 2. -/
structure ChainsInv (s : IrqState) (handlers : Nat → List UInt32) : Prop where
  chain : ∀ line, line < irqCount → Chain s.next 0 (s.irqHandlers line) (handlers line)
  apart : ∀ line other h, line ≠ other → h ∈ handlers line → h ∉ handlers other
  ready : s.pics.Ready
  masked : ∀ line, line < 16 → line ≠ 2 → (s.pics.masked line = false ↔ handlers line ≠ [])
  cascade : s.pics.masked 2 = false

namespace ChainsInv

variable {s : IrqState} {handlers : Nat → List UInt32}

theorem start (p : Pics) (next : UInt32 → UInt32) : ChainsInv (irqStart p next) fun _ => [] where
  chain := fun _ _ => rfl
  apart := fun _ _ _ _ member => absurd member List.not_mem_nil
  ready := ⟨rfl, rfl⟩
  masked := by
    intro line small other
    have masks : ∀ line, line < 16 → line ≠ 2 →
        Pics.masked ⟨⟨0xFB, 0⟩, ⟨0xFF, 0⟩⟩ line = true := by decide
    have set := masks line small other
    change Pics.masked ⟨⟨0xFB, 0⟩, ⟨0xFF, 0⟩⟩ line = false ↔ _
    simp [set]
  cascade := by
    change Pics.masked ⟨⟨0xFB, 0⟩, ⟨0xFF, 0⟩⟩ 2 = false
    decide

/-- The head of a chain is null exactly if nothing is installed. -/
theorem head_iff (inv : ChainsInv s handlers) {line : Nat} (inside : line < irqCount) :
    s.irqHandlers line = 0 ↔ handlers line = [] := by
  have chain := inv.chain line inside
  constructor
  · intro null
    rw [null] at chain
    exact chain_null.mp chain
  · intro empty
    rw [empty] at chain
    exact chain

/-- The step changes nothing of the lines other than `irq`. -/
structure Kept (s t : IrqState) (handlers : Nat → List UInt32) (irq : Nat) : Prop where
  head : ∀ line, line ≠ irq → t.irqHandlers line = s.irqHandlers line
  chain : ∀ line, line < irqCount → line ≠ irq →
    Chain t.next 0 (t.irqHandlers line) (handlers line)
  masked : ∀ line, line < 16 → line ≠ irq → t.pics.masked line = s.pics.masked line

/-- A step that touches one line keeps the invariant if it is right on that line. -/
theorem of_kept (inv : ChainsInv s handlers) {t : IrqState} {irq : Nat} {after : Nat → List UInt32}
    (kept : Kept s t handlers irq) (same : ∀ line, line ≠ irq → after line = handlers line)
    (chain : Chain t.next 0 (t.irqHandlers irq) (after irq))
    (apart : ∀ line h, line ≠ irq → h ∈ after irq → h ∉ handlers line)
    (ready : t.pics.Ready)
    (masked : irq < 16 → irq ≠ 2 → (t.pics.masked irq = false ↔ after irq ≠ []))
    (cascade : irq = 2 → t.pics.masked 2 = false) : ChainsInv t after where
  chain := by
    intro line small
    by_cases here : line = irq
    · rw [here]
      exact chain
    · rw [same line here]
      exact kept.chain line small here
  apart := by
    intro line other h differ member
    by_cases here : line = irq
    · rw [same other (fun there => differ (here.trans there.symm))]
      rw [here] at member
      exact apart other h (fun there => differ (here.trans there.symm)) member
    · rw [same line here] at member
      by_cases there : other = irq
      · rw [there]
        exact fun again => apart line h here again member
      · rw [same other there]
        exact inv.apart line other h differ member
  ready := ready
  masked := by
    intro line small other
    by_cases here : line = irq
    · subst here
      exact masked small other
    · rw [same line here, kept.masked line small here]
      exact inv.masked line small other
  cascade := by
    by_cases here : irq = 2
    · exact cascade here
    · rw [kept.masked 2 (by decide) (Ne.symm here)]
      exact inv.cascade

/-- The line is unmasked if nothing was installed on it, and else is unmasked already. -/
theorem install_pics (inv : ChainsInv s handlers) {irq : Nat} {h : UInt32}
    (inside : irq < irqCount) :
    ∃ pics, installIrqHandler s irq h = some
        { irqHandlers := setHead s.irqHandlers irq h
          next := setNext s.next h (s.irqHandlers irq), pics := pics } ∧
      pics.Ready ∧ (∀ i, i < 16 → i ≠ irq → pics.masked i = s.pics.masked i) ∧
      (irq < 16 → pics.masked irq = false) := by
  have clear := irqClearMask_spec inv.ready inside
  rw [installIrqHandler, if_pos inside]
  by_cases empty : s.irqHandlers irq = 0
  · rw [if_pos empty]
    refine ⟨_, rfl, clear.1, ?_, ?_⟩
    · intro i small other
      rw [clear.2 i small]
      simp [Ne.symm other]
    · intro small
      rw [clear.2 irq small]
      simp
  · rw [if_neg empty]
    refine ⟨_, rfl, inv.ready, fun _ _ _ => rfl, ?_⟩
    intro small
    by_cases cascade : irq = 2
    · rw [cascade]
      exact inv.cascade
    · apply (inv.masked irq small cascade).mpr
      rw [ne_eq, ← inv.head_iff inside]
      exact empty

/-- Installing on one line: the new handler heads its chain, and the line is unmasked. -/
theorem install (inv : ChainsInv s handlers) {irq : Nat} {h : UInt32} (line : irq ≤ 16)
    (nonnull : h ≠ 0) (unused : ∀ line, h ∉ handlers line) :
    ∃ t, installIrqHandler s irq h = some t ∧
      ChainsInv t (fun line => handlersAfter line (handlers line) (.install irq h)) ∧
      Kept s t handlers irq := by
  have inside : irq < irqCount := Nat.lt_of_le_of_lt line (by decide)
  have links : ∀ line, line < irqCount →
      Chain (setNext s.next h (s.irqHandlers irq)) 0 (s.irqHandlers line) (handlers line) := by
    intro line small
    apply (inv.chain line small).congr
    intro x member
    apply setNext_other
    intro same
    subst same
    exact unused line member
  have heads : ∀ line, line ≠ irq → setHead s.irqHandlers irq h line = s.irqHandlers line :=
    fun line other => if_neg other
  obtain ⟨pics, done, ready, others, unmasked⟩ := inv.install_pics (h := h) inside
  have own : handlersAfter irq (handlers irq) (.install irq h) = h :: handlers irq := if_pos rfl
  have kept : Kept s { irqHandlers := setHead s.irqHandlers irq h
                       next := setNext s.next h (s.irqHandlers irq), pics := pics } handlers irq := by
    refine ⟨heads, ?_, others⟩
    intro line small other
    change Chain _ 0 (setHead s.irqHandlers irq h line) (handlers line)
    rw [heads line other]
    exact links line small
  refine ⟨_, done, ?_, kept⟩
  apply inv.of_kept kept
  · exact fun line other => if_neg (Ne.symm other)
  · rw [own]
    simp only [setHead, ↓reduceIte]
    apply Chain.cons nonnull
    rw [setNext_same]
    exact links irq inside
  · intro line x other member
    rw [own] at member
    rcases List.mem_cons.mp member with rfl | old
    · exact unused line
    · exact inv.apart irq line x (Ne.symm other) old
  · exact ready
  · intro small _
    simp [own, unmasked small]
  · rintro rfl
    exact unmasked (by decide)

/-- Taking a handler out of the table entry or out of the chain behind it. -/
theorem unlink (inv : ChainsInv s handlers) {irq : Nat} {h : UInt32} (inside : irq < irqCount)
    (nonnull : h ≠ 0) {fuel : Nat} (enough : (handlers irq).length < fuel) :
    ∃ head next, unlinkHandler fuel s irq h =
        some { s with irqHandlers := setHead s.irqHandlers irq head, next := next } ∧
      Chain next 0 head ((handlers irq).erase h) ∧
      ∀ y, y ∉ handlers irq → next y = s.next y := by
  have chain := inv.chain irq inside
  by_cases first : s.irqHandlers irq = h
  · have start : s.irqHandlers irq ≠ 0 := by
      rw [first]
      exact nonnull
    obtain ⟨rest, list, tail⟩ := chain.nonempty start
    rw [unlinkHandler, if_pos first]
    refine ⟨_, _, rfl, ?_, fun _ _ => rfl⟩
    rw [list, first, List.erase_cons_head]
    rw [first] at tail
    exact tail
  · obtain ⟨next, done, after, others⟩ := unlinkLoop_spec chain first nonnull enough
    have same : setHead s.irqHandlers irq (s.irqHandlers irq) = s.irqHandlers := by
      funext line
      unfold setHead
      split
      · rename_i here
        rw [here]
      · rfl
    rw [unlinkHandler, if_neg first, done]
    refine ⟨s.irqHandlers irq, next, ?_, after, others⟩
    rw [same]
    rfl

/-- The line is masked if nothing is left on it, apart from the cascade. -/
theorem uninstall_pics (inv : ChainsInv s handlers) {irq : Nat} {h head : UInt32}
    {next : UInt32 → UInt32} {fuel : Nat} (inside : irq < irqCount)
    (taken : unlinkHandler fuel s irq h =
      some { s with irqHandlers := setHead s.irqHandlers irq head, next := next })
    (empty : head = 0 ↔ (handlers irq).erase h = []) :
    ∃ pics, uninstallIrqHandler fuel s irq h = some
        { irqHandlers := setHead s.irqHandlers irq head, next := next, pics := pics } ∧
      pics.Ready ∧ (∀ i, i < 16 → i ≠ irq → pics.masked i = s.pics.masked i) ∧
      (irq < 16 → irq ≠ 2 → (pics.masked irq = false ↔ (handlers irq).erase h ≠ [])) ∧
      (irq = 2 → pics = s.pics) := by
  have set := irqSetMask_spec inv.ready inside
  have here : setHead s.irqHandlers irq head irq = head := if_pos rfl
  rw [uninstallIrqHandler, if_pos inside, taken, Option.map_some]
  simp only [here, empty]
  by_cases none : (handlers irq).erase h = [] ∧ irq ≠ 2
  · rw [if_pos none]
    refine ⟨_, rfl, set.1, ?_, ?_, fun cascade => absurd cascade none.2⟩
    · intro i small other
      rw [set.2 i small]
      simp [Ne.symm other]
    · intro small _
      rw [set.2 irq small]
      simp [none.1]
  · rw [if_neg none]
    refine ⟨_, rfl, inv.ready, fun _ _ _ => rfl, ?_, fun _ => rfl⟩
    intro small cascade
    have left : (handlers irq).erase h ≠ [] := fun gone => none ⟨gone, cascade⟩
    have before : handlers irq ≠ [] := by
      intro gone
      rw [gone] at left
      exact left rfl
    have clear := (inv.masked irq small cascade).mpr before
    simp [clear, left]

/-- Uninstalling on one line: the handler leaves its chain if it is there, and a
line without handlers is masked. -/
theorem uninstall (inv : ChainsInv s handlers) {irq : Nat} {h : UInt32} (inside : irq < irqCount)
    (nonnull : h ≠ 0) {fuel : Nat} (enough : (handlers irq).length < fuel) :
    ∃ t, uninstallIrqHandler fuel s irq h = some t ∧
      ChainsInv t (fun line => handlersAfter line (handlers line) (.uninstall irq h)) ∧
      Kept s t handlers irq := by
  obtain ⟨head, next, taken, after, links⟩ := inv.unlink inside nonnull enough
  have heads : ∀ line, line ≠ irq → setHead s.irqHandlers irq head line = s.irqHandlers line :=
    fun line other => if_neg other
  have empty : head = 0 ↔ (handlers irq).erase h = [] := by
    constructor
    · intro null
      rw [null] at after
      exact chain_null.mp after
    · intro none
      rw [none] at after
      exact after
  obtain ⟨pics, done, ready, others, masked, cascade⟩ := inv.uninstall_pics inside taken empty
  have own : handlersAfter irq (handlers irq) (.uninstall irq h) = (handlers irq).erase h :=
    if_pos rfl
  have kept : Kept s { irqHandlers := setHead s.irqHandlers irq head, next := next, pics := pics }
      handlers irq := by
    refine ⟨heads, ?_, others⟩
    intro line small other
    change Chain next 0 (setHead s.irqHandlers irq head line) (handlers line)
    rw [heads line other]
    apply (inv.chain line small).congr
    intro x member
    exact links x (inv.apart line irq x other member)
  refine ⟨_, done, ?_, kept⟩
  apply inv.of_kept kept
  · exact fun line other => if_neg (Ne.symm other)
  · rw [own]
    simp only [setHead, ↓reduceIte]
    exact after
  · intro line x other member
    rw [own] at member
    exact inv.apart irq line x (Ne.symm other) (List.mem_of_mem_erase member)
  · exact ready
  · rw [own]
    exact masked
  · intro line
    rw [cascade line]
    exact inv.cascade

end ChainsInv

section Runs

variable {s : IrqState} {ops : List IrqOp} {op : IrqOp}

theorem installed_snoc (ops : List IrqOp) (op : IrqOp) :
    installed (ops ++ [op]) = fun line => handlersAfter line (installed ops line) op := by
  funext line
  exact List.foldl_append

theorem installed_length_le (ops : List IrqOp) (line : Nat) :
    (installed ops line).length ≤ ops.length := by
  induction ops using List.reverseRecOn with
  | nil => exact Nat.le_refl 0
  | append_singleton ops op ih =>
      rw [installed_snoc, List.length_append, List.length_singleton]
      cases op with
      | install irq h =>
          simp only [handlersAfter]
          split
          · rw [List.length_cons]
            omega
          · omega
      | uninstall irq h =>
          simp only [handlersAfter]
          split
          · have shorter := List.length_erase_le (a := h) (l := installed ops line)
            omega
          · omega

theorem proper_nil : Proper [] := by
  intro front op inside
  have none := List.prefix_nil.mp inside
  simp at none

theorem proper_snoc (proper : Proper ops) (allowed : Allowed ops op) : Proper (ops ++ [op]) := by
  intro front last inside
  rcases List.prefix_concat_iff.mp inside with whole | shorter
  · obtain ⟨rfl, same⟩ := List.append_inj' whole rfl
    cases same
    exact allowed
  · exact proper front last shorter

/-- One operation that is allowed completes and keeps the invariant. -/
theorem ChainsInv.step (inv : ChainsInv s (installed ops)) (allowed : Allowed ops op)
    {fuel : Nat} (enough : ops.length < fuel) :
    ∃ t, perform fuel s op = some t ∧ ChainsInv t (installed (ops ++ [op])) ∧
      Kept s t (installed ops) op.irq := by
  rw [installed_snoc]
  cases op with
  | install irq h => exact inv.install allowed.1 allowed.2.1 allowed.2.2
  | uninstall irq h =>
      apply inv.uninstall allowed.1 allowed.2
      exact Nat.lt_of_le_of_lt (installed_length_le ops irq) enough

theorem irqRun_inv (pics : Pics) (next : UInt32 → UInt32) {fuel : Nat} (proper : Proper ops)
    (enough : ops.length < fuel) :
    ∃ s, irqRun fuel (irqStart pics next) ops = some s ∧ ChainsInv s (installed ops) := by
  induction ops using List.reverseRecOn with
  | nil => exact ⟨_, rfl, ChainsInv.start pics next⟩
  | append_singleton ops op ih =>
      rw [List.length_append, List.length_singleton] at enough
      obtain ⟨s, before, inv⟩ :=
        ih (fun front last inside => proper front last (inside.trans (List.prefix_append _ _)))
          (by omega)
      obtain ⟨t, done, after, -⟩ :=
        inv.step (proper ops op (List.prefix_refl _)) (show ops.length < fuel by omega)
      refine ⟨t, ?_, after⟩
      rw [irqRun, List.foldlM_append]
      rw [irqRun] at before
      rw [before]
      simp [done]

/-- After any proper sequence of operations from the state `set_irqs` leaves, every chain
is finite, without repetitions, and lists what is installed on its line, most recent
first; a line other than 2 is unmasked exactly if its chain is not empty, and line 2
always; and another operation changes only its own line. -/
theorem irq_chains_and_masks (pics : Pics) (next : UInt32 → UInt32) (ops : List IrqOp)
    (proper : Proper ops) (fuel : Nat) (enough : ops.length < fuel) :
    ∃ s, irqRun fuel (irqStart pics next) ops = some s ∧
      (∀ line, line < irqCount →
        Chain s.next 0 (s.irqHandlers line) (installed ops line) ∧ (installed ops line).Nodup) ∧
      (∀ line, line < 16 → line ≠ 2 → (s.pics.masked line = false ↔ installed ops line ≠ [])) ∧
      s.pics.masked 2 = false ∧
      ∀ op, Allowed ops op →
        ∃ t, perform fuel s op = some t ∧ ChainsInv.Kept s t (installed ops) op.irq := by
  obtain ⟨s, done, inv⟩ := irqRun_inv pics next proper enough
  refine ⟨s, done, ?_, inv.masked, inv.cascade, ?_⟩
  · intro line inside
    have chain := inv.chain line inside
    exact ⟨chain, chain.nodup⟩
  · intro op allowed
    obtain ⟨t, step, -, kept⟩ := inv.step allowed enough
    exact ⟨t, step, kept⟩

/-- The timer, the system call, a second handler on the timer's line, and the first one out. -/
def timerOps : List IrqOp :=
  [.install 0 0xC0110000, .install 16 0xC0110010, .install 0 0xC0110020,
    .uninstall 0 0xC0110000]

theorem timerOps_proper : Proper timerOps := by
  have first : Allowed [] (.install 0 0xC0110000) :=
    ⟨by decide, by decide, fun _ => List.not_mem_nil⟩
  have second : Allowed [.install 0 0xC0110000] (.install 16 0xC0110010) := by
    refine ⟨by decide, by decide, ?_⟩
    intro line
    by_cases timer : 0 = line <;> simp [installed, handlersAfter, timer]
  have third : Allowed [.install 0 0xC0110000, .install 16 0xC0110010]
      (.install 0 0xC0110020) := by
    refine ⟨by decide, by decide, ?_⟩
    intro line
    by_cases timer : 0 = line <;> by_cases call : 16 = line <;>
      simp [installed, handlersAfter, timer, call]
  have fourth : Allowed [.install 0 0xC0110000, .install 16 0xC0110010,
      .install 0 0xC0110020] (.uninstall 0 0xC0110000) := ⟨by decide, by decide⟩
  exact proper_snoc (proper_snoc (proper_snoc (proper_snoc proper_nil first) second) third) fourth

theorem timer_chain_is_kept :
    ∃ s, irqRun 5 (irqStart ⟨⟨0, 0⟩, ⟨0, 0⟩⟩ fun _ => 0) timerOps = some s ∧
      (∀ line, line < irqCount → Chain s.next 0 (s.irqHandlers line) (installed timerOps line) ∧
        (installed timerOps line).Nodup) ∧
      (∀ line, line < 16 → line ≠ 2 →
        (s.pics.masked line = false ↔ installed timerOps line ≠ [])) ∧
      s.pics.masked 2 = false ∧
      ∀ op, Allowed timerOps op →
        ∃ t, perform 5 s op = some t ∧ ChainsInv.Kept s t (installed timerOps) op.irq :=
  irq_chains_and_masks _ _ timerOps timerOps_proper 5 (by decide)

end Runs

end FrogOS
