import FrogOS.Pcnet32Receive

set_option autoImplicit false

namespace FrogOS

open ByteMemory BoundedAccess OwnedRing

/-- Where a running `pcnet32_irq_handler` is, with the value it has read from CSR0. -/
inductive IrqPoint
  | read
  | test (csr0 : UInt32)
  | acknowledge (csr0 : UInt32)
  | flag
deriving DecidableEq, Repr

/-- The main loop and the card, with the two interrupt bits of CSR0 and a handler that may be
running. -/
structure IrqSystem (σ : Type) where
  rx : RxSystem σ
  rint : Bool
  tint : Bool
  handler : Option IrqPoint

variable {σ ε : Type}

/-- CSR0 as it is read, with anything in its other bits. -/
def IrqSystem.csr0 (s : IrqSystem σ) (rest : UInt32) : UInt32 :=
  (rest &&& ~~~(0x600 : UInt32)) ||| (if s.rint then 0x400 else 0) ||| (if s.tint then 0x200 else 0)

/-- A write to CSR0 clears the interrupt bits in which it has ones. -/
def IrqSystem.writeCsr0 (s : IrqSystem σ) (value : UInt32) : IrqSystem σ :=
  { s with
    rint := s.rint && value &&& 0x400 == 0
    tint := s.tint && value &&& 0x200 == 0 }

/-- One step of a running handler. -/
def irqHandler (s : IrqSystem σ) (rest : UInt32) : IrqPoint → IrqSystem σ
  | .read => { s with handler := some (.test (s.csr0 rest)) }
  | .test csr0 =>
      if csr0 &&& 0x600 ≠ 0 then { s with handler := some (.acknowledge csr0) }
      else { s with handler := none }
  | .acknowledge csr0 =>
      { s.writeCsr0 (csr0 ||| (1 : UInt32) <<< 9 ||| (1 : UInt32) <<< 10) with handler := some .flag }
  | .flag => { s with rx := { s.rx with needsWork := 1 }, handler := none }

/-- One step of the main loop, which is in `net_process` or in a call that it has made. -/
def mainStep (process : σ → Block → UInt16 → Except ε σ) (s : IrqSystem σ) : Option (IrqSystem σ) :=
  match s.rx.call with
  | none =>
      if s.rx.needsWork ≠ 0 then (rxNext process s.rx .call).map fun rx => { s with rx }
      else some s
  | some _ => (rxNext process s.rx .driver).map fun rx => { s with rx }

inductive IrqAction
  | main
  | interrupt
  | handler (rest : UInt32)
  | fill (frame : List UInt8)
  | complete
  | transmitted

/-- While the handler runs the main loop stands still; the card does not. -/
def irqNext (process : σ → Block → UInt16 → Except ε σ) (s : IrqSystem σ) :
    IrqAction → Option (IrqSystem σ)
  | .main => if s.handler = none then mainStep process s else none
  | .interrupt =>
      if s.handler = none ∧ (s.rint ∨ s.tint) then some { s with handler := some .read } else none
  | .handler rest => s.handler.map (irqHandler s rest)
  | .fill frame => (rxNext process s.rx (.fill frame)).map fun rx => { s with rx }
  | .complete => (rxNext process s.rx .release).map fun rx => { s with rx, rint := true }
  | .transmitted => some { s with tint := true }

inductive IrqReachable (process : σ → Block → UInt16 → Except ε σ) (outside : σ → σ → Prop)
    (ring : Pcnet32Ring) (net : σ) : IrqSystem σ → Prop
  | start (rint tint : Bool) : IrqReachable process outside ring net
      { rx := { ring, needsWork := 0, call := none, net, card := 0, filling := none, filled := []
                delivered := [] }
        rint, tint, handler := none }
  | next {s t : IrqSystem σ} {action : IrqAction} (reached : IrqReachable process outside ring net s)
      (step : irqNext process s action = some t) : IrqReachable process outside ring net t
  | other {s : IrqSystem σ} {net' : σ} (reached : IrqReachable process outside ring net s)
      (changed : outside s.rx.net net') :
      IrqReachable process outside ring net { s with rx := { s.rx with net := net' } }

/-- Something will still make the main loop look at the ring. -/
def IrqSystem.Signal (s : IrqSystem σ) : Prop :=
  s.rx.needsWork ≠ 0 ∨ s.rint = true ∨ s.handler ≠ none

/-- The first `n` descriptors from the starting point on are with the card, or there is a signal. -/
def Watched (ptr : Nat) (mine : Nat → Prop) (signal : Prop) (n : Nat) : Prop :=
  ∀ k, k < n → mine ((ptr + k) % 2 ^ 6) → signal

/-- What a running call leaves behind it: the descriptors it has passed are watched. -/
def Covered (ptr : Nat) (mine : Nat → Prop) (signal : Prop) : Option RxPoint → Prop
  | none => mine ptr → signal
  | some .enter => True
  | some (.test i de) => i ≤ 2 ^ 6 ∧ de = (ptr + i) % 2 ^ 6 ∧ Watched ptr mine signal i
  | some (.count i de) | some (.length i de) | some (.process i de _) | some (.clear i de _)
  | some (.give i de) => i < 2 ^ 6 ∧ de = (ptr + i) % 2 ^ 6 ∧ Watched ptr mine signal i
  | some (.advance i de) => i < 2 ^ 6 ∧ de = (ptr + i) % 2 ^ 6 ∧ Watched ptr mine signal (i + 1)
  | some (.leave de) => de < 2 ^ 6 ∧ (mine de → signal)

/-- A handler that has started will set the flag. -/
def IrqPoint.Sure (s : IrqSystem σ) : IrqPoint → Prop
  | .read => s.rint = true ∨ s.tint = true
  | .test csr0 => csr0 &&& 0x600 ≠ 0
  | .acknowledge _ | .flag => True

structure IrqInv (s : IrqSystem σ) : Prop where
  size : s.rx.ring.count = 2 ^ 6
  ptr : s.rx.ring.ptr < 2 ^ 6
  covered : Covered s.rx.ring.ptr (pcnet32Driverowns s.rx.ring) s.Signal s.rx.call
  handler : ∀ point, s.handler = some point → point.Sure s

section Covered

variable {ptr : Nat} {mine mine' : Nat → Prop} {signal signal' : Prop} {call : Option RxPoint}

/-- A descriptor may come to the driver as long as it comes with a signal, and a signal stays. -/
theorem Covered.mono (covered : Covered ptr mine signal call)
    (fewer : ∀ k, mine' k → mine k ∨ signal') (stays : signal → signal') :
    Covered ptr mine' signal' call := by
  have carry (k : Nat) (old : mine k → signal) : mine' k → signal' := by
    intro now
    exact (fewer k now).elim (fun before => stays (old before)) id
  have watched (n : Nat) (old : Watched ptr mine signal n) : Watched ptr mine' signal' n :=
    fun k inside => carry _ (old k inside)
  match call, covered with
  | none, old => exact carry ptr old
  | some .enter, _ => trivial
  | some (.test i _), ⟨bound, place, old⟩ => exact ⟨bound, place, watched i old⟩
  | some (.count i _), ⟨bound, place, old⟩ => exact ⟨bound, place, watched i old⟩
  | some (.length i _), ⟨bound, place, old⟩ => exact ⟨bound, place, watched i old⟩
  | some (.process i _ _), ⟨bound, place, old⟩ => exact ⟨bound, place, watched i old⟩
  | some (.clear i _ _), ⟨bound, place, old⟩ => exact ⟨bound, place, watched i old⟩
  | some (.give i _), ⟨bound, place, old⟩ => exact ⟨bound, place, watched i old⟩
  | some (.advance i _), ⟨bound, place, old⟩ => exact ⟨bound, place, watched (i + 1) old⟩
  | some (.leave de), ⟨bound, old⟩ => exact ⟨bound, carry de old⟩

end Covered

/-- What the handler tests is whether one of the two interrupt bits was set. -/
theorem csr0_signal (s : IrqSystem σ) (rest : UInt32) :
    s.csr0 rest &&& 0x600 ≠ 0 ↔ s.rint = true ∨ s.tint = true := by
  have distrib (x y z : UInt32) : (x ||| y) &&& z = (x &&& z) ||| (y &&& z) := by
    apply UInt32.toNat_inj.mp
    simp only [UInt32.toNat_and, UInt32.toNat_or, Nat.and_or_distrib_right]
  have others : rest &&& ~~~(0x600 : UInt32) &&& 0x600 = 0 := by
    rw [UInt32.and_assoc]
    exact UInt32.and_zero
  unfold IrqSystem.csr0
  rw [distrib, distrib, others, UInt32.zero_or]
  cases s.rint <;> cases s.tint <;> decide

section Steps

variable {process : σ → Block → UInt16 → Except ε σ} {s t : IrqSystem σ}

theorem IrqInv.main (inv : IrqInv s) (point : RxPoint) (running : s.rx.call = some point)
    {rx : RxSystem σ} (step : rxDriver process s.rx point = some rx)
    (idle : s.handler = none) : IrqInv { s with rx } := by
  have covered := inv.covered
  rw [running] at covered
  have size := inv.size
  have quiet : ∀ p, s.handler = some p → p.Sure { s with rx } := by
    rw [idle]
    intro _ same
    cases same
  cases point with
  | enter =>
      cases step
      refine ⟨size, inv.ptr, ⟨Nat.zero_le _, ?_, fun k inside => absurd inside (Nat.not_lt_zero k)⟩,
        quiet⟩
      exact (Nat.mod_eq_of_lt inv.ptr).symm
  | test i de =>
      obtain ⟨bound, place, watched⟩ := covered
      simp only [rxDriver] at step
      split at step
      · rename_i ends
        cases step
        refine ⟨size, inv.ptr, ⟨by rw [place]; exact Nat.mod_lt _ (by decide), ?_⟩, quiet⟩
        intro mine
        cases ends with
        | inl last =>
            -- the scan has come round to its starting point, which it has passed first
            have first := watched 0 (by omega)
            rw [place, show i = 2 ^ 6 by omega, Nat.add_mod_right] at mine
            exact first mine
        | inr owned => exact absurd mine owned
      · rename_i loop
        have inside : i < 2 ^ 6 := by
          rw [← size]
          exact Nat.lt_of_not_le fun last => loop (Or.inl last)
        cases step
        exact ⟨size, inv.ptr, ⟨inside, place, watched⟩, quiet⟩
  | count i de | length i de | clear i de mcnt =>
      cases step
      exact ⟨size, inv.ptr, covered, quiet⟩
  | process i de mcnt =>
      simp only [rxDriver] at step
      split at step <;> cases step
      exact ⟨size, inv.ptr, covered, quiet⟩
  | give i de =>
      cases step
      obtain ⟨inside, place, watched⟩ := covered
      refine ⟨size, inv.ptr, ⟨inside, place, ?_⟩, quiet⟩
      intro k small mine
      change pcnet32Driverowns (s.rx.ring.rxGive de) ((s.rx.ring.ptr + k) % 2 ^ 6) at mine
      have other : (s.rx.ring.ptr + k) % 2 ^ 6 ≠ de := by
        intro here
        rw [here] at mine
        exact not_driverowns_rxGive s.rx.ring de mine
      have before : k < i := by
        have last : k ≠ i := fun here => other (by rw [here, place])
        omega
      refine watched k before ?_
      exact (driverowns_congr (Pcnet32Ring.setDe_other _ _ _ _ other)).mp mine
  | advance i de =>
      cases step
      obtain ⟨inside, place, watched⟩ := covered
      have wrap := succ_mod (n := 2 ^ 6) (s.rx.ring.ptr + i) (by decide)
      have bound : (s.rx.ring.ptr + i) % 2 ^ 6 < 2 ^ 6 := Nat.mod_lt _ (by decide)
      refine ⟨size, inv.ptr, ?_, quiet⟩
      rw [show (i + 1) % 2 ^ 16 = i + 1 by omega]
      refine ⟨inside, ?_, watched⟩
      rw [size, place, Nat.mod_eq_of_lt (a := _ + 1) (by omega), ← Nat.add_assoc, wrap]
  | leave de =>
      cases step
      obtain ⟨bound, watched⟩ := covered
      exact ⟨size, bound, watched, quiet⟩

theorem IrqInv.handle (inv : IrqInv s) {point : IrqPoint} (running : s.handler = some point)
    (rest : UInt32) : IrqInv (irqHandler s rest point) := by
  have sure := inv.handler point running
  have stay {t : IrqSystem σ} (signal : t.Signal) (rx : t.rx.ring = s.rx.ring)
      (call : t.rx.call = s.rx.call) (next : ∀ p, t.handler = some p → p.Sure t) : IrqInv t := by
    refine ⟨by rw [rx]; exact inv.size, by rw [rx]; exact inv.ptr, ?_, next⟩
    rw [rx, call]
    exact inv.covered.mono (fun k mine => Or.inl mine) fun _ => signal
  cases point with
  | read =>
      refine stay (Or.inr (Or.inr (by rintro ⟨⟩))) rfl rfl ?_
      intro _ same
      cases same
      exact (csr0_signal s rest).mpr sure
  | test csr0 =>
      have set : csr0 &&& 0x600 ≠ 0 := sure
      rw [irqHandler, if_pos set]
      refine stay (Or.inr (Or.inr (by rintro ⟨⟩))) rfl rfl ?_
      intro _ same
      cases same
      trivial
  | acknowledge csr0 =>
      refine stay (Or.inr (Or.inr (by rintro ⟨⟩))) rfl rfl ?_
      intro _ same
      cases same
      trivial
  | flag => exact stay (Or.inl (by decide : (1 : UInt8) ≠ 0)) rfl rfl (by rintro _ ⟨⟩)

theorem IrqInv.mainStep (inv : IrqInv s) (idle : s.handler = none)
    (step : mainStep process s = some t) : IrqInv t := by
  unfold FrogOS.mainStep at step
  split at step
  · rename_i between
    split at step
    · obtain ⟨rx, entered, rfl⟩ := Option.map_eq_some_iff.mp step
      simp only [rxNext, between, ↓reduceIte] at entered
      cases entered
      refine ⟨inv.size, inv.ptr, trivial, ?_⟩
      rw [idle]
      intro _ same
      cases same
    · cases step
      exact inv
  · rename_i point running
    obtain ⟨rx, entered, rfl⟩ := Option.map_eq_some_iff.mp step
    rw [rxNext, running, Option.bind_some] at entered
    exact inv.main point running entered idle

theorem irqNext_inv (inv : IrqInv s) {action : IrqAction}
    (step : irqNext process s action = some t) : IrqInv t := by
  cases action with
  | main =>
      simp only [irqNext] at step
      split at step
      · rename_i idle
        exact inv.mainStep idle step
      · cases step
  | interrupt =>
      simp only [irqNext] at step
      split at step
      · rename_i guard
        cases step
        refine ⟨inv.size, inv.ptr, inv.covered.mono (fun k mine => Or.inl mine) fun _ =>
          Or.inr (Or.inr (by rintro ⟨⟩)), ?_⟩
        intro _ same
        cases same
        exact guard.2
      · cases step
  | handler rest =>
      obtain ⟨point, running, rfl⟩ := Option.map_eq_some_iff.mp step
      exact inv.handle running rest
  | fill frame =>
      obtain ⟨rx, filled, rfl⟩ := Option.map_eq_some_iff.mp step
      simp only [rxNext] at filled
      split at filled
      · cases filled
        refine ⟨inv.size, inv.ptr, inv.covered.mono (fun k mine => Or.inl ?_) id, inv.handler⟩
        exact (driverowns_of_status (cardFill_status s.rx.ring s.rx.card frame) k).mp mine
      · cases filled
  | complete =>
      obtain ⟨rx, released, rfl⟩ := Option.map_eq_some_iff.mp step
      obtain ⟨frame, filling, rfl⟩ := Option.map_eq_some_iff.mp released
      refine ⟨inv.size, inv.ptr, inv.covered.mono (fun _ _ => Or.inr (Or.inr (Or.inl rfl)))
        fun _ => Or.inr (Or.inl rfl), ?_⟩
      intro point running
      cases point with
      | read => exact Or.inl rfl
      | test csr0 => exact inv.handler _ running
      | acknowledge csr0 | flag => trivial
  | transmitted =>
      cases step
      refine ⟨inv.size, inv.ptr, inv.covered, ?_⟩
      intro point running
      cases point with
      | read => exact Or.inr rfl
      | test csr0 => exact inv.handler _ running
      | acknowledge csr0 | flag => trivial

theorem IrqReachable.inv {outside : σ → σ → Prop} {ring : Pcnet32Ring} {net : σ}
    (reached : IrqReachable process outside ring net s) (size : ring.count = 2 ^ 6)
    (start : ring.ptr = 0) (owned : ∀ k, k < 2 ^ 6 → ¬ pcnet32Driverowns ring k) : IrqInv s := by
  induction reached with
  | start rint tint =>
      refine ⟨size, by rw [start]; decide, ?_, by rintro _ ⟨⟩⟩
      intro mine
      change pcnet32Driverowns ring ring.ptr at mine
      rw [start] at mine
      exact absurd mine (owned 0 (by decide))
  | next _ step ih => exact irqNext_inv ih step
  | other _ _ ih => exact ⟨ih.size, ih.ptr, ih.covered, ih.handler⟩

end Steps

/-- Where nothing is left to make the main loop look, there is nothing to look for. -/
theorem no_receive_wakeup_lost (process : σ → Block → UInt16 → Except ε σ)
    (outside : σ → σ → Prop) (net : σ) (bss : BootBss) (ram : Ram) (rxBuffers : UInt32)
    (rdes : Nat → Descriptor) (m : Mem) (area : BufferArea rxBuffers (2 ^ 6)) :
    ∃ ring, probeRx (bootPhysaddr bss ram) rxBuffers rdes m = some ring ∧
      ∀ s, IrqReachable process outside ring net s → s.rx.call = none → s.rx.needsWork = 0 →
        s.rint = false → s.handler = none → (s.rx.ring.des s.rx.ring.ptr).Owned := by
  obtain ⟨ring, probed, wired, start, -, fresh, -⟩ := probeRx_ready bss ram rdes m area
  refine ⟨ring, probed, fun s reached between quiet unset idle => ?_⟩
  have owned : ∀ k, k < 2 ^ 6 → ¬ pcnet32Driverowns ring k := by
    intro k inside
    rw [pcnet32Driverowns, fresh k inside]
    change ¬ ((0x80 : UInt8) &&& 0x80 = 0)
    decide
  have inv := reached.inv wired.size start owned
  have covered := inv.covered
  rw [between] at covered
  by_cases mine : pcnet32Driverowns s.rx.ring s.rx.ring.ptr
  · have signal : s.Signal := covered mine
    unfold IrqSystem.Signal at signal
    rw [quiet, unset, idle] at signal
    simp at signal
  · exact mine

theorem IrqReachable.run {process : σ → Block → UInt16 → Except ε σ} {outside : σ → σ → Prop}
    {ring : Pcnet32Ring} {net : σ} {s t : IrqSystem σ} {actions : List IrqAction}
    (reached : IrqReachable process outside ring net s)
    (ends : actions.foldlM (irqNext process) s = some t) :
    IrqReachable process outside ring net t := by
  induction actions generalizing s with
  | nil =>
      cases ends
      exact reached
  | cons action actions ih =>
      obtain ⟨between, step, rest⟩ := Option.bind_eq_some_iff.mp ends
      exact ih (reached.next step) rest

/-- One frame from the card to the driver: the interrupt, its handler, and the main loop. -/
def oneFrame : List IrqAction :=
  [.fill [0x2a], .complete, .interrupt, .handler 0, .handler 0, .handler 0, .handler 0] ++
    List.replicate 11 .main

def countFrames (frames : Nat) (_ : Block) (_ : UInt16) : Except Unit Nat := .ok (frames + 1)

def quietStart (ring : Pcnet32Ring) : IrqSystem Nat where
  rx := { ring, needsWork := 0, call := none, net := 0, card := 0, filling := none, filled := []
          delivered := [] }
  rint := false
  tint := false
  handler := none

/-- Behind a frame that was passed on the next descriptor is with the card. -/
theorem second_descriptor_is_watched :
    ∃ ring s, probeRx (bootPhysaddr ⟨0x200000, rfl, by decide, by decide⟩ fun _ => 0) 0xC0400000
        (fun _ => ⟨0, 0, 0, 0⟩) (fun _ => 0) = some ring ∧
      oneFrame.foldlM (irqNext countFrames) (quietStart ring) = some s ∧
      s.rx.delivered = [([0x2a], 1)] ∧ s.rx.ring.ptr = 1 ∧ (s.rx.ring.des 1).Owned := by
  obtain ⟨ring, probed, watched⟩ := no_receive_wakeup_lost countFrames (fun _ _ => False) 0
    ⟨0x200000, rfl, by decide, by decide⟩ (fun _ => 0) 0xC0400000 (fun _ => ⟨0, 0, 0, 0⟩)
    (fun _ => 0) ⟨by decide, by decide⟩
  have whole := initializeRing_eq (fun v inside =>
      getPhysaddr_kernel ⟨0x200000, rfl, by decide, by decide⟩ (fun _ => 0) inside) false
    { des := fun _ => ⟨0, 0, 0, 0⟩, buffers := 0xC0400000, ptr := 0, count := 2 ^ 6, packets := 0
      mem := fill (fun _ => 0) 0xC0400000 (2 ^ 6 * pcnet32BufferSize) 0 } ⟨by decide, by decide⟩
  have ends : (oneFrame.foldlM (irqNext countFrames) (quietStart ring)).any (fun s =>
      s.rx.call = none ∧ s.rx.needsWork = 0 ∧ s.rint = false ∧ s.handler = none ∧
        s.rx.delivered = [([0x2a], 1)] ∧ s.rx.ring.ptr = 1) = true := by
    rw [Option.some.inj (probed.symm.trans whole)]
    decide +kernel
  obtain ⟨s, run, fields⟩ := (Option.any_eq_true _ _).mp ends
  obtain ⟨between, quiet, unset, idle, passed, ptr⟩ := of_decide_eq_true fields
  have owned := watched s ((IrqReachable.start false false).run run) between quiet unset idle
  rw [ptr] at owned
  exact ⟨ring, s, probed, run, passed, ptr, owned⟩

end FrogOS
