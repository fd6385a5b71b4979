import FrogOS.BoundedAccess
import FrogOS.Pcnet32

set_option autoImplicit false

namespace FrogOS

open ByteMemory BoundedAccess OwnedRing

/-- Where a running call of `pcnet32_do_irq_work` is, with the locals `i`, `de_ptr` and `mcnt`. -/
inductive RxPoint
  | enter
  | test (i de : Nat)
  | count (i de : Nat)
  | length (i de : Nat)
  | process (i de : Nat) (mcnt : UInt16)
  | clear (i de : Nat) (mcnt : UInt16)
  | give (i de : Nat)
  | advance (i de : Nat)
  | leave (de : Nat)
deriving DecidableEq, Repr

/-- The driver, possibly in the middle of a call, the state `net` of the layers above it, and the
card. `filling` is the frame whose descriptor the card has still to give back; `filled` and
`delivered` record the frames given to the driver and what `ether_process_frame` was called with. -/
structure RxSystem (σ : Type) where
  ring : Pcnet32Ring
  needsWork : UInt8
  call : Option RxPoint
  net : σ
  card : Nat
  filling : Option (List UInt8)
  filled : List (List UInt8)
  delivered : List (List UInt8 × UInt16)

namespace Pcnet32Ring

def rxCount (r : Pcnet32Ring) : Pcnet32Ring := { r with packets := r.packets + 1 }

/-- The `memset` behind a processed frame. -/
def rxClear (r : Pcnet32Ring) (de : Nat) (mcnt : UInt16) : Pcnet32Ring :=
  { r with mem := fill r.mem (r.slot de).toNat mcnt.toNat 0 }

def rxGive (r : Pcnet32Ring) (de : Nat) : Pcnet32Ring :=
  r.setDe de { r.des de with status := (r.des de).status ||| 0x80 }

/-- The card's first step on a descriptor: the payload, and its length in MCNT. -/
def cardFill (r : Pcnet32Ring) (idx : Nat) (frame : List UInt8) : Pcnet32Ring :=
  { r.setDe idx { r.des idx with mcnt := UInt16.ofNat frame.length } with
    mem := blit r.mem (dmaAddress (r.des idx).addr) (ofList frame) 0 frame.length }

/-- A receive buffer as the layers above see it. -/
def received (r : Pcnet32Ring) (de : Nat) : Block := window r.mem (r.slot de).toNat pcnet32BufferSize

end Pcnet32Ring

/-- Filling a descriptor changes no owner. -/
theorem cardFill_status (r : Pcnet32Ring) (idx : Nat) (frame : List UInt8) (k : Nat) :
    ((r.cardFill idx frame).des k).status = (r.des k).status := by
  by_cases here : k = idx
  · rw [here, Pcnet32Ring.cardFill, Pcnet32Ring.setDe_same]
  · rw [Pcnet32Ring.cardFill]
    exact congrArg Descriptor.status (Pcnet32Ring.setDe_other r idx k _ here)

theorem driverowns_of_status {r r' : Pcnet32Ring} (same : ∀ k, (r'.des k).status = (r.des k).status)
    (k : Nat) : pcnet32Driverowns r' k ↔ pcnet32Driverowns r k := by
  unfold pcnet32Driverowns
  rw [same k]

theorem not_driverowns_rxGive (r : Pcnet32Ring) (de : Nat) :
    ¬ pcnet32Driverowns (r.rxGive de) de := by
  rw [pcnet32Driverowns, Pcnet32Ring.rxGive, Pcnet32Ring.setDe_same]
  exact owned_give _

section System

variable {σ ε : Type}

/-- One step of a running call. There is none where the processing of a frame fails. -/
def rxDriver (process : σ → Block → UInt16 → Except ε σ) (s : RxSystem σ) :
    RxPoint → Option (RxSystem σ)
  | .enter => some { s with needsWork := 0, call := some (.test 0 s.ring.ptr) }
  | .test i de =>
      if s.ring.count ≤ i ∨ ¬ pcnet32Driverowns s.ring de then
        some { s with call := some (.leave de) }
      else some { s with call := some (.count i de) }
  | .count i de => some { s with ring := s.ring.rxCount, call := some (.length i de) }
  | .length i de => some { s with call := some (.process i de (s.ring.des de).mcnt) }
  | .process i de mcnt =>
      match process s.net (s.ring.received de) mcnt with
      | .error _ => none
      | .ok net => some { s with
          net
          call := some (.clear i de mcnt)
          delivered := s.delivered ++ [(bytes s.ring.mem (s.ring.slot de).toNat mcnt.toNat, mcnt)] }
  | .clear i de mcnt =>
      some { s with ring := s.ring.rxClear de mcnt, call := some (.give i de) }
  | .give i de => some { s with ring := s.ring.rxGive de, call := some (.advance i de) }
  | .advance i de =>
      let next := (de + 1) % 2 ^ 16
      let de := if s.ring.count ≤ next then 0 else next
      some { s with call := some (.test ((i + 1) % 2 ^ 16) de) }
  | .leave de => some { s with ring := { s.ring with ptr := de }, call := none }

inductive RxAction
  | call
  | driver
  | fill (frame : List UInt8)
  | release

/-- The card writes a frame, which BCNT bounds, into a descriptor it owns and gives the descriptor
to the driver some time later. -/
def rxNext (process : σ → Block → UInt16 → Except ε σ) (s : RxSystem σ) :
    RxAction → Option (RxSystem σ)
  | .call => if s.call = none then some { s with call := some .enter } else none
  | .driver => s.call.bind (rxDriver process s)
  | .fill frame =>
      if s.filling = none ∧ (s.ring.des s.card).Owned ∧
          frame.length ≤ fieldLength (s.ring.des s.card).bcnt then
        some { s with ring := s.ring.cardFill s.card frame, filling := some frame }
      else none
  | .release => s.filling.map fun frame =>
      { s with
        ring := s.ring.cardRelease s.card
        card := (s.card + 1) % 2 ^ 6
        filling := none
        filled := s.filled ++ [frame] }

/-- Every state that some order of steps leads to. Between the steps `outside` may happen to the
state of the layers above. -/
inductive RxReachable (process : σ → Block → UInt16 → Except ε σ) (outside : σ → σ → Prop)
    (ring : Pcnet32Ring) (net : σ) : RxSystem σ → Prop
  | start : RxReachable process outside ring net
      { ring, needsWork := 0, call := none, net, card := 0, filling := none, filled := []
        delivered := [] }
  | next {s t : RxSystem σ} {action : RxAction} (reached : RxReachable process outside ring net s)
      (step : rxNext process s action = some t) : RxReachable process outside ring net t
  | other {s : RxSystem σ} {net' : σ} (reached : RxReachable process outside ring net s)
      (changed : outside s.net net') : RxReachable process outside ring net { s with net := net' }

end System

/-- A frame as it is passed on: its bytes and its length. -/
def asPassed (frame : List UInt8) : List UInt8 × UInt16 := (frame, UInt16.ofNat frame.length)

/-- Descriptor and buffer `k` hold a frame, and nothing else is in the buffer. -/
structure Received (r : Pcnet32Ring) (k : Nat) (frame : List UInt8) : Prop where
  length : (r.des k).mcnt = UInt16.ofNat frame.length
  content : ∀ i, i < 1600 → r.mem ((r.slot k).toNat + i) = ofList frame i
  fits : frame.length ≤ 1600

def Clean (r : Pcnet32Ring) (k : Nat) : Prop :=
  ∀ i, i < 1600 → r.mem ((r.slot k).toNat + i) = 0

/-- The part of the invariant that the running call has no part in: `read` frames have been passed
on and `returned` descriptors given back. -/
structure RxShared (r : Pcnet32Ring) (filled : List (List UInt8)) (card : Nat)
    (busy : Option (List UInt8)) (read returned : Nat) : Prop where
  wired : Wired r (2 ^ 6)
  room : ∀ k, k < 2 ^ 6 → (r.des k).bcnt = lengthField 1600
  owned : Ring (2 ^ 6) (pcnet32Driverowns r) filled.length returned
  position : card = filled.length % 2 ^ 6
  pending : ∀ j frame, read ≤ j → filled[j]? = some frame → Received r (j % 2 ^ 6) frame
  order : returned ≤ read ∧ read ≤ filled.length
  filling : ∀ frame, busy = some frame → (r.des card).Owned ∧ Received r card frame
  clean : ∀ k, k < 2 ^ 6 → (r.des k).Owned → busy = none ∨ k ≠ card → Clean r k

section Shared

variable {r r' : Pcnet32Ring} {filled : List (List UInt8)} {card read returned k i : Nat}
  {busy : Option (List UInt8)} {frame : List UInt8}

theorem SameBut.content (same : SameBut k r r') (area : BufferArea r.buffers (2 ^ 6))
    (insideK : k < 2 ^ 6) (insideI : i < 2 ^ 6) (other : i ≠ k) {x : Nat} (small : x < 1600) :
    r'.mem ((r'.slot i).toNat + x) = r.mem ((r.slot i).toNat + x) := by
  rw [same.slot i]
  exact same.agree area insideK insideI other _ (Nat.le_add_right _ x) (Nat.add_lt_add_left small _)

theorem SameBut.received (same : SameBut k r r') (area : BufferArea r.buffers (2 ^ 6))
    (insideK : k < 2 ^ 6) (insideI : i < 2 ^ 6) (other : i ≠ k) (holds : Received r i frame) :
    Received r' i frame := by
  refine ⟨?_, ?_, holds.fits⟩
  · rw [same.others i other]
    exact holds.length
  · intro x small
    rw [same.content area insideK insideI other small]
    exact holds.content x small

theorem SameBut.clean (same : SameBut k r r') (area : BufferArea r.buffers (2 ^ 6))
    (insideK : k < 2 ^ 6) (insideI : i < 2 ^ 6) (other : i ≠ k) (clean : Clean r i) :
    Clean r' i := by
  intro x small
  rw [same.content area insideK insideI other small]
  exact clean x small

theorem RxShared.card_lt (shared : RxShared r filled card busy read returned) :
    card < 2 ^ 6 := by
  rw [shared.position]
  exact Nat.mod_lt _ (by decide)

/-- What waits in the ring is with the driver. -/
theorem RxShared.waiting (shared : RxShared r filled card busy read returned) {j : Nat}
    (later : read ≤ j) (member : filled[j]? = some frame) : pcnet32Driverowns r (j % 2 ^ 6) := by
  have produced := (List.getElem?_eq_some_iff.mp member).1
  have room := shared.owned.room
  have order := shared.order.1
  exact (shared.owned.pending_iff (by omega) (by omega)).mpr produced

theorem RxShared.sameBut_cardFill (shared : RxShared r filled card busy read returned)
    (fits : frame.length ≤ 1600) : SameBut card r (r.cardFill card frame) := by
  refine ⟨rfl, rfl, rfl, fun i other => Pcnet32Ring.setDe_other r card i _ other, ?_, ?_⟩
  · simp only [Pcnet32Ring.cardFill, Pcnet32Ring.setDe_same]
  · rw [← shared.wired.points card shared.card_lt]
    exact (blit_frame _ _ _ _ _).mono (Nat.le_refl _) (Nat.add_le_add_left fits _)

/-- A change at a descriptor of the card's, of which the card keeps the ownership. -/
theorem RxShared.fill (shared : RxShared r filled card none read returned)
    (owned : (r.des card).Owned) (fits : frame.length ≤ 1600) :
    RxShared (r.cardFill card frame) filled card (some frame) read returned := by
  have inside := shared.card_lt
  have area := shared.wired.area
  have address := shared.wired.points card inside
  have same := shared.sameBut_cardFill fits
  have driver := driverowns_of_status (cardFill_status r card frame)
  have ring := shared.owned
  refine ⟨same.wired shared.wired, ?_, ⟨ring.positive, ring.behind, ring.room, ?_⟩,
    shared.position, ?_, shared.order, ?_, ?_⟩
  · intro k small
    rw [same.bcnt (by rw [Pcnet32Ring.cardFill, Pcnet32Ring.setDe_same])]
    exact shared.room k small
  · intro k small
    rw [driver k]
    exact ring.marks k small
  · intro j other later member
    have elsewhere := ne_of_owners (shared.waiting later member) owned
    exact same.received area inside (Nat.mod_lt j (by decide)) elsewhere
      (shared.pending j other later member)
  · intro _ same
    cases same
    refine ⟨fun mine => owned ((driver card).mp mine), ?_, ?_, fits⟩
    · rw [Pcnet32Ring.cardFill, Pcnet32Ring.setDe_same]
    · intro x small
      rw [same.slot card]
      change blit r.mem (dmaAddress (r.des card).addr) (ofList frame) 0 frame.length _ = _
      rw [address]
      by_cases written : x < frame.length
      · rw [blit_inside _ _ _ _ _ _ written, Nat.zero_add]
      · have old := shared.clean card inside owned (Or.inl rfl) x small
        rw [blit_frame _ _ _ _ _ _ (Or.inr (Nat.add_le_add_left (Nat.le_of_not_lt written) _)), old,
          ofList_behind _ _ (Nat.le_of_not_lt written)]
  · intro k small mine elsewhere
    have other : k ≠ card := elsewhere.resolve_left (fun absent => by cases absent)
    exact same.clean area inside small other
      (shared.clean k small (fun free => mine ((driver k).mpr free)) (Or.inl rfl))

/-- Clearing OWN adds the frame to what the driver will find. -/
theorem RxShared.release (shared : RxShared r filled card (some frame) read returned) :
    RxShared (r.cardRelease card) (filled ++ [frame]) ((card + 1) % 2 ^ 6) none read returned := by
  obtain ⟨owned, holds⟩ := shared.filling frame rfl
  have inside := shared.card_lt
  have area := shared.wired.area
  have same := sameBut_cardRelease r card
  have cleared : pcnet32Driverowns (r.cardRelease card) card := by
    rw [pcnet32Driverowns, Pcnet32Ring.cardRelease, Pcnet32Ring.setDe_same]
    exact owned_clear _
  have produced : Ring (2 ^ 6) (pcnet32Driverowns (r.cardRelease card)) (filled ++ [frame]).length
      returned := by
    rw [List.length_append, List.length_singleton]
    refine shared.owned.produce (by rw [← shared.position]; exact owned) ?_
    intro k _
    rw [← shared.position]
    by_cases here : k = card
    · rw [here]
      exact ⟨fun _ => Or.inl rfl, fun _ => cleared⟩
    · rw [driverowns_congr (same.others k here)]
      exact ⟨Or.inr, fun either => either.resolve_left here⟩
  refine ⟨same.wired shared.wired, ?_, produced, ?_, ?_, ?_, by rintro _ ⟨⟩, ?_⟩
  · intro k small
    rw [same.bcnt (by rw [Pcnet32Ring.cardRelease, Pcnet32Ring.setDe_same])]
    exact shared.room k small
  · rw [List.length_append, List.length_singleton, shared.position, Nat.mod_add_mod]
  · intro j other later member
    by_cases last : j = filled.length
    · rw [last, List.getElem?_concat_length, Option.some.injEq] at member
      rw [last, ← shared.position, ← member]
      refine ⟨?_, holds.content, holds.fits⟩
      rw [Pcnet32Ring.cardRelease, Pcnet32Ring.setDe_same]
      exact holds.length
    · have before : j < filled.length := by
        have bound := (List.getElem?_eq_some_iff.mp member).1
        rw [List.length_append, List.length_singleton] at bound
        omega
      rw [List.getElem?_append_left before] at member
      have elsewhere := ne_of_owners (shared.waiting later member) owned
      exact same.received area inside (Nat.mod_lt j (by decide)) elsewhere
        (shared.pending j other later member)
  · have order := shared.order
    rw [List.length_append]
    exact ⟨order.1, Nat.le_add_right_of_le order.2⟩
  · intro k small mine _
    have other : k ≠ card := (ne_of_owners cleared mine).symm
    rw [same.others k other] at mine
    exact same.clean area inside small other (shared.clean k small mine (Or.inr other))

/-- The next descriptor the driver owns holds the next frame that was filled. -/
theorem RxShared.deliver (shared : RxShared r filled card busy returned returned)
    (mine : pcnet32Driverowns r (returned % 2 ^ 6)) :
    ∃ frame, filled[returned]? = some frame ∧ Received r (returned % 2 ^ 6) frame ∧
      RxShared r filled card busy (returned + 1) returned := by
  have waiting := shared.owned.consumer_iff.mp mine
  have member := List.getElem?_eq_getElem waiting
  exact ⟨_, member, shared.pending returned _ (Nat.le_refl _) member, shared.wired, shared.room,
    shared.owned, shared.position,
    fun j frame later member => shared.pending j frame (Nat.le_of_succ_le later) member,
    ⟨Nat.le_succ _, waiting⟩, shared.filling, shared.clean⟩

/-- Neither the driver's position nor its packet counter matters to the ring. -/
theorem RxShared.counters (shared : RxShared r filled card busy read returned) (ptr : Nat)
    (packets : UInt32) : RxShared { r with ptr, packets } filled card busy read returned := by
  refine ⟨⟨shared.wired.size, shared.wired.area, shared.wired.points⟩, shared.room, shared.owned,
    shared.position, ?_, shared.order, ?_, shared.clean⟩
  · intro j frame later member
    have holds := shared.pending j frame later member
    exact ⟨holds.length, holds.content, holds.fits⟩
  · intro frame filling
    obtain ⟨owned, holds⟩ := shared.filling frame filling
    exact ⟨owned, holds.length, holds.content, holds.fits⟩

/-- The frames still to be passed on are in other buffers than the one just passed on. -/
theorem RxShared.later_slot (shared : RxShared r filled card busy (returned + 1) returned) {j : Nat}
    (later : returned + 1 ≤ j) (member : filled[j]? = some frame) :
    j % 2 ^ 6 ≠ returned % 2 ^ 6 := by
  have bound := (List.getElem?_eq_some_iff.mp member).1
  have room := shared.owned.room
  exact mod_ne (2 ^ 6) later (by omega)

/-- The `memset` touches only the buffer of the frame just passed on. -/
theorem RxShared.clear (shared : RxShared r filled card busy (returned + 1) returned)
    {mcnt : UInt16} (mine : pcnet32Driverowns r (returned % 2 ^ 6)) (fits : mcnt.toNat ≤ 1600) :
    RxShared (r.rxClear (returned % 2 ^ 6) mcnt) filled card busy (returned + 1) returned := by
  have inside : returned % 2 ^ 6 < 2 ^ 6 := Nat.mod_lt _ (by decide)
  have area := shared.wired.area
  have same : SameBut (returned % 2 ^ 6) r (r.rxClear (returned % 2 ^ 6) mcnt) :=
    ⟨rfl, rfl, rfl, fun _ _ => rfl, rfl,
      (fill_frame _ _ _ _).mono (Nat.le_refl _) (Nat.add_le_add_left fits _)⟩
  have other {k : Nat} (owned : (r.des k).Owned) : k ≠ returned % 2 ^ 6 :=
    (ne_of_owners mine owned).symm
  refine ⟨same.wired shared.wired, shared.room, shared.owned, shared.position, ?_, shared.order,
    ?_, ?_⟩
  · intro j frame later member
    exact same.received area inside (Nat.mod_lt j (by decide)) (shared.later_slot later member)
      (shared.pending j frame later member)
  · intro frame filling
    obtain ⟨owned, holds⟩ := shared.filling frame filling
    exact ⟨owned, same.received area inside shared.card_lt (other owned) holds⟩
  · intro k small owned elsewhere
    exact same.clean area inside small (other owned) (shared.clean k small owned elsewhere)

/-- Setting OWN gives a cleared buffer back to the card. -/
theorem RxShared.give (shared : RxShared r filled card busy (returned + 1) returned)
    (mine : pcnet32Driverowns r (returned % 2 ^ 6)) (clean : Clean r (returned % 2 ^ 6)) :
    RxShared (r.rxGive (returned % 2 ^ 6)) filled card busy (returned + 1) (returned + 1) := by
  have inside : returned % 2 ^ 6 < 2 ^ 6 := Nat.mod_lt _ (by decide)
  have area := shared.wired.area
  have same : SameBut (returned % 2 ^ 6) r (r.rxGive (returned % 2 ^ 6)) :=
    sameBut_setDe r _ _ rfl
  have given := not_driverowns_rxGive r (returned % 2 ^ 6)
  have consumed : Ring (2 ^ 6) (pcnet32Driverowns (r.rxGive (returned % 2 ^ 6))) filled.length
      (returned + 1) := by
    refine shared.owned.consume mine ?_
    intro k _
    by_cases here : k = returned % 2 ^ 6
    · rw [here]
      exact ⟨fun mark => absurd mark given, fun both => absurd rfl both.1⟩
    · rw [driverowns_congr (same.others k here)]
      exact ⟨fun mark => ⟨here, mark⟩, fun both => both.2⟩
  refine ⟨same.wired shared.wired, ?_, consumed, shared.position, ?_,
    ⟨Nat.le_refl _, shared.order.2⟩, ?_, ?_⟩
  · intro k small
    rw [same.bcnt (by rw [Pcnet32Ring.rxGive, Pcnet32Ring.setDe_same])]
    exact shared.room k small
  · intro j frame later member
    exact same.received area inside (Nat.mod_lt j (by decide)) (shared.later_slot later member)
      (shared.pending j frame later member)
  · intro frame filling
    obtain ⟨owned, holds⟩ := shared.filling frame filling
    have other : card ≠ returned % 2 ^ 6 := (ne_of_owners mine owned).symm
    rw [same.others card other]
    exact ⟨owned, same.received area inside shared.card_lt other holds⟩
  · intro k small owned elsewhere
    by_cases here : k = returned % 2 ^ 6
    · rw [here]
      exact clean
    · rw [same.others k here] at owned
      exact same.clean area inside small here (shared.clean k small owned elsewhere)

end Shared

/-- How many frames have been passed on and how many are in the packet counter. -/
def Tally (r : Pcnet32Ring) (delivered read counted : Nat) : Prop :=
  delivered = read ∧ r.packets.toNat = counted % 2 ^ 32

/-- Behind MCNT a buffer holds only zeros. -/
def Tail (r : Pcnet32Ring) (k : Nat) (mcnt : UInt16) : Prop :=
  mcnt.toNat ≤ 1600 ∧ ∀ i, mcnt.toNat ≤ i → i < 1600 → r.mem ((r.slot k).toNat + i) = 0

/-- Where the driver stands when it has given `returned` descriptors back. -/
def RxProgress (r : Pcnet32Ring) (delivered returned : Nat) : Option RxPoint → Prop
  | none | some .enter => Tally r delivered returned returned ∧ r.ptr = returned % 2 ^ 6
  | some (.test _ de) | some (.leave de) =>
      Tally r delivered returned returned ∧ de = returned % 2 ^ 6
  | some (.count _ de) =>
      Tally r delivered returned returned ∧ de = returned % 2 ^ 6 ∧ pcnet32Driverowns r de
  | some (.length _ de) =>
      Tally r delivered returned (returned + 1) ∧ de = returned % 2 ^ 6 ∧ pcnet32Driverowns r de
  | some (.process _ de mcnt) =>
      Tally r delivered returned (returned + 1) ∧ de = returned % 2 ^ 6 ∧
        pcnet32Driverowns r de ∧ mcnt = (r.des de).mcnt
  | some (.clear _ de mcnt) =>
      Tally r delivered (returned + 1) (returned + 1) ∧ de = returned % 2 ^ 6 ∧
        pcnet32Driverowns r de ∧ Tail r de mcnt
  | some (.give _ de) =>
      Tally r delivered (returned + 1) (returned + 1) ∧ de = returned % 2 ^ 6 ∧
        pcnet32Driverowns r de ∧ Clean r de
  | some (.advance _ de) =>
      Tally r delivered returned returned ∧ ∃ before, returned = before + 1 ∧ de = before % 2 ^ 6

section System

variable {σ ε : Type} {process : σ → Block → UInt16 → Except ε σ} {s t : RxSystem σ}
  {returned : Nat}

structure RxInv (s : RxSystem σ) (returned : Nat) : Prop where
  shared : RxShared s.ring s.filled s.card s.filling s.delivered.length returned
  progress : RxProgress s.ring s.delivered.length returned s.call
  order : s.delivered <+: s.filled.map asPassed

/-- What the card does at a descriptor of its own does not concern the driver. -/
theorem RxProgress.card {r r' : Pcnet32Ring} {delivered card : Nat} {call : Option RxPoint}
    (progress : RxProgress r delivered returned call) (same : SameBut card r r')
    (packets : r'.packets = r.packets) (area : BufferArea r.buffers (2 ^ 6))
    (inside : card < 2 ^ 6) (owned : (r.des card).Owned) :
    RxProgress r' delivered returned call := by
  have tally {read counted : Nat} (old : Tally r delivered read counted) :
      Tally r' delivered read counted := ⟨old.1, by rw [packets]; exact old.2⟩
  have other {de : Nat} (mine : pcnet32Driverowns r de) : de ≠ card := ne_of_owners mine owned
  have kept {de : Nat} (mine : pcnet32Driverowns r de) : pcnet32Driverowns r' de :=
    (driverowns_congr (same.others de (other mine))).mpr mine
  have place {de : Nat} (here : de = returned % 2 ^ 6) : de < 2 ^ 6 := by
    rw [here]
    exact Nat.mod_lt _ (by decide)
  match call, progress with
  | none, ⟨count, ptr⟩ => exact ⟨tally count, same.ptr.trans ptr⟩
  | some .enter, ⟨count, ptr⟩ => exact ⟨tally count, same.ptr.trans ptr⟩
  | some (.test _ _), ⟨count, here⟩ => exact ⟨tally count, here⟩
  | some (.leave _), ⟨count, here⟩ => exact ⟨tally count, here⟩
  | some (.count _ _), ⟨count, here, mine⟩ => exact ⟨tally count, here, kept mine⟩
  | some (.length _ _), ⟨count, here, mine⟩ => exact ⟨tally count, here, kept mine⟩
  | some (.process _ _ _), ⟨count, here, mine, length⟩ =>
      exact ⟨tally count, here, kept mine, by rw [same.others _ (other mine)]; exact length⟩
  | some (.clear _ _ _), ⟨count, here, mine, fits, zero⟩ =>
      refine ⟨tally count, here, kept mine, fits, fun i lower upper => ?_⟩
      rw [same.content area inside (place here) (other mine) upper]
      exact zero i lower upper
  | some (.give _ _), ⟨count, here, mine, clean⟩ =>
      exact ⟨tally count, here, kept mine, same.clean area inside (place here) (other mine) clean⟩
  | some (.advance _ _), ⟨count, before⟩ => exact ⟨tally count, before⟩

/-- A step that changes neither ring nor records keeps the invariant if its new place is right. -/
theorem RxInv.move (inv : RxInv s returned) (needsWork : UInt8) {call : Option RxPoint}
    (progress : RxProgress s.ring s.delivered.length returned call) :
    RxInv { s with needsWork, call } returned :=
  ⟨inv.shared, progress, inv.order⟩

/-- What the processing of a frame is called with, and that the record stays in order. -/
theorem RxInv.passed (inv : RxInv s returned) {i de : Nat} {mcnt : UInt16}
    (running : s.call = some (.process i de mcnt)) :
    ∃ frame, s.filled[s.delivered.length]? = some frame ∧ Received s.ring de frame ∧
      mcnt.toNat = frame.length ∧
      (bytes s.ring.mem (s.ring.slot de).toNat mcnt.toNat, mcnt) = asPassed frame := by
  have progress := inv.progress
  rw [running] at progress
  obtain ⟨tally, here, mine, length⟩ := progress
  have shared := inv.shared
  rw [tally.1] at shared
  rw [here] at mine
  obtain ⟨frame, member, holds, -⟩ := shared.deliver mine
  rw [← here] at holds
  have fits := holds.fits
  have value : mcnt = UInt16.ofNat frame.length := length.trans holds.length
  have number : mcnt.toNat = frame.length := by
    rw [value, UInt16.toNat_ofNat']
    omega
  refine ⟨frame, by rw [tally.1]; exact member, holds, number, ?_⟩
  rw [asPassed, number, value]
  refine Prod.ext (bytes_eq_ofList fun x inside => ?_) rfl
  exact holds.content x (Nat.lt_of_lt_of_le inside fits)

theorem rxDriver_inv (inv : RxInv s returned) {point : RxPoint} (running : s.call = some point)
    (step : rxDriver process s point = some t) : ∃ returned', RxInv t returned' := by
  have progress := inv.progress
  have size := inv.shared.wired.size
  rw [running] at progress
  cases point with
  | enter =>
      cases step
      exact ⟨returned, inv.move 0 progress⟩
  | test i de =>
      simp only [rxDriver] at step
      split at step
      · cases step
        exact ⟨returned, inv.move s.needsWork progress⟩
      · rename_i loop
        have mine : pcnet32Driverowns s.ring de :=
          Decidable.not_not.mp fun owned => loop (Or.inr owned)
        cases step
        exact ⟨returned, inv.move s.needsWork ⟨progress.1, progress.2, mine⟩⟩
  | count i de =>
      cases step
      obtain ⟨tally, here, mine⟩ := progress
      refine ⟨returned, inv.shared.counters _ _, ⟨⟨tally.1, ?_⟩, here, mine⟩, inv.order⟩
      change (s.ring.packets + 1).toNat = _
      rw [UInt32.toNat_add, tally.2]
      change (returned % 2 ^ 32 + 1) % 2 ^ 32 = _
      rw [Nat.mod_add_mod]
  | length i de =>
      cases step
      exact ⟨returned, inv.move s.needsWork
        ⟨progress.1, progress.2.1, progress.2.2, rfl⟩⟩
  | process i de mcnt =>
      obtain ⟨tally, here, mine, length⟩ := progress
      obtain ⟨frame, member, holds, number, record⟩ := inv.passed running
      simp only [rxDriver] at step
      split at step
      · cases step
      · cases step
        have shared := inv.shared
        rw [tally.1] at shared
        rw [here] at mine
        obtain ⟨-, -, -, delivered⟩ := shared.deliver mine
        have next : (s.delivered ++ [(bytes s.ring.mem (s.ring.slot de).toNat mcnt.toNat,
            mcnt)]).length = returned + 1 := by
          rw [List.length_append, List.length_singleton, tally.1]
        refine ⟨returned, by rw [next]; exact delivered, ?_, ?_⟩
        · rw [next]
          rw [← here] at mine
          refine ⟨⟨rfl, tally.2⟩, here, mine, by rw [number]; exact holds.fits, ?_⟩
          intro x lower upper
          rw [holds.content x upper, ofList_behind _ _ (by omega)]
        · rw [record]
          refine prefix_snoc inv.order ?_
          rw [List.getElem?_map, member, Option.map_some]
  | clear i de mcnt =>
      cases step
      obtain ⟨tally, here, mine, fits, zero⟩ := progress
      have shared := inv.shared
      rw [tally.1] at shared
      rw [here] at mine
      have cleared := shared.clear mine fits
      rw [← here] at cleared mine
      refine ⟨returned, by rw [tally.1]; exact cleared, ⟨tally, here, mine, ?_⟩, inv.order⟩
      intro x small
      change fill s.ring.mem (s.ring.slot de).toNat mcnt.toNat 0 ((s.ring.slot de).toNat + x) = 0
      by_cases inside : x < mcnt.toNat
      · exact fill_inside _ _ _ _ _ (Nat.le_add_right _ _) (Nat.add_lt_add_left inside _)
      · rw [fill_frame _ _ _ _ _ (Or.inr (Nat.add_le_add_left (Nat.le_of_not_lt inside) _))]
        exact zero x (Nat.le_of_not_lt inside) small
  | give i de =>
      cases step
      obtain ⟨tally, here, mine, clean⟩ := progress
      have shared := inv.shared
      rw [tally.1] at shared
      rw [here] at mine clean
      have given := shared.give mine clean
      rw [← here] at given
      exact ⟨returned + 1, by rw [tally.1]; exact given, ⟨tally, returned, rfl, here⟩, inv.order⟩
  | advance i de =>
      cases step
      obtain ⟨tally, before, counted, here⟩ := progress
      refine ⟨returned, inv.move s.needsWork ⟨tally, ?_⟩⟩
      have wrap := succ_mod (n := 2 ^ 6) before (by decide)
      have inside : before % 2 ^ 6 < 2 ^ 6 := Nat.mod_lt _ (by decide)
      rw [counted, wrap, size, here, Nat.mod_eq_of_lt (by omega)]
  | leave de =>
      cases step
      obtain ⟨tally, here⟩ := progress
      exact ⟨returned, inv.shared.counters _ _, ⟨tally, here⟩, inv.order⟩

theorem rxNext_inv (inv : RxInv s returned) {action : RxAction}
    (step : rxNext process s action = some t) : ∃ returned', RxInv t returned' := by
  have area := inv.shared.wired.area
  have inside := inv.shared.card_lt
  cases action with
  | call =>
      simp only [rxNext] at step
      split at step
      · rename_i idle
        have progress := inv.progress
        rw [idle] at progress
        cases step
        exact ⟨returned, inv.move s.needsWork progress⟩
      · cases step
  | driver =>
      obtain ⟨point, running, stepped⟩ := Option.bind_eq_some_iff.mp step
      exact rxDriver_inv inv running stepped
  | fill frame =>
      simp only [rxNext] at step
      split at step
      · rename_i guard
        obtain ⟨idle, owned, fits⟩ := guard
        cases step
        rw [inv.shared.room s.card inside] at fits
        have shared := inv.shared
        rw [idle] at shared
        have same := (shared.sameBut_cardFill fits)
        exact ⟨returned, shared.fill owned fits, inv.progress.card same rfl area inside owned,
          inv.order⟩
      · cases step
  | release =>
      obtain ⟨frame, filling, rfl⟩ := Option.map_eq_some_iff.mp step
      have shared := inv.shared
      rw [filling] at shared
      have owned := (shared.filling frame rfl).1
      have same := sameBut_cardRelease s.ring s.card
      refine ⟨returned, shared.release, inv.progress.card same rfl area inside owned, ?_⟩
      rw [List.map_append]
      exact inv.order.trans (List.prefix_append _ _)

theorem RxReachable.inv {outside : σ → σ → Prop} {ring : Pcnet32Ring} {net : σ}
    (reached : RxReachable process outside ring net s) (wired : Wired ring (2 ^ 6))
    (start : ring.ptr = 0) (packets : ring.packets = 0)
    (fresh : ∀ k, k < 2 ^ 6 → ring.des k = freshDe ring false k)
    (clean : ∀ k, k < 2 ^ 6 → Clean ring k) : ∃ returned, RxInv s returned := by
  induction reached with
  | start =>
      have owned : ∀ k, k < 2 ^ 6 → ¬ pcnet32Driverowns ring k := by
        intro k inside
        rw [pcnet32Driverowns, fresh k inside]
        change ¬ ((0x80 : UInt8) &&& 0x80 = 0)
        decide
      refine ⟨0, ⟨wired, fun k inside => by rw [fresh k inside]; rfl,
        OwnedRing.start (by decide) owned, rfl, by rintro _ _ _ ⟨⟩,
        ⟨Nat.le_refl 0, Nat.le_refl 0⟩, by rintro _ ⟨⟩, fun k inside _ _ => clean k inside⟩,
        ⟨⟨rfl, by rw [packets]; rfl⟩, start⟩, List.nil_prefix⟩
  | next _ step ih =>
      obtain ⟨returned, inv⟩ := ih
      exact rxNext_inv inv step
  | other _ _ ih =>
      obtain ⟨returned, inv⟩ := ih
      exact ⟨returned, inv.shared, inv.progress, inv.order⟩

/-- Where the driver will look next, when it is between two descriptors or two calls. -/
def RxSystem.between (s : RxSystem σ) : Option Nat :=
  match s.call with
  | none | some .enter => some s.ring.ptr
  | some (.test _ de) | some (.leave de) => some de
  | _ => none

/-- What holds of the receive ring in every state. -/
structure ReceiveSound (s : RxSystem σ) : Prop where
  order : s.delivered <+: s.filled.map asPassed
  counted : ∀ position, s.between = some position →
    s.ring.packets.toNat = s.delivered.length % 2 ^ 32
  position : ∀ position, s.between = some position → position < s.ring.count
  segment : ∀ position, s.between = some position → ∃ n ≤ s.ring.count, ∀ i, i < s.ring.count →
    (pcnet32Driverowns s.ring ((position + i) % s.ring.count) ↔ i < n)

theorem RxInv.between (inv : RxInv s returned) {position : Nat} (here : s.between = some position) :
    Tally s.ring s.delivered.length returned returned ∧ position = returned % 2 ^ 6 := by
  have progress := inv.progress
  unfold RxSystem.between at here
  generalize s.call = call at here progress
  match call, here with
  | none, rfl | some .enter, rfl | some (.test _ _), rfl | some (.leave _), rfl => exact progress

theorem RxInv.sound (inv : RxInv s returned) : ReceiveSound s := by
  have size := inv.shared.wired.size
  have owned := inv.shared.owned
  refine ⟨inv.order, ?_, ?_, ?_⟩
  · intro position here
    obtain ⟨tally, -⟩ := inv.between here
    rw [tally.1]
    exact tally.2
  · intro position here
    obtain ⟨-, place⟩ := inv.between here
    rw [place, size]
    exact Nat.mod_lt _ (by decide)
  · intro position here
    obtain ⟨-, place⟩ := inv.between here
    refine ⟨s.filled.length - returned, by have room := owned.room; omega, ?_⟩
    intro i inside
    rw [size] at inside ⊢
    rw [place]
    exact owned.segment i inside

end System

section Probed

variable {σ ε : Type}

/-- Whatever the layers above do with the frames, none is lost, repeated or reordered. -/
theorem receive_ring_sound (process : σ → Block → UInt16 → Except ε σ) (outside : σ → σ → Prop)
    (net : σ) (bss : BootBss) (ram : Ram) (rxBuffers : UInt32) (rdes : Nat → Descriptor) (m : Mem)
    (area : BufferArea rxBuffers (2 ^ 6)) :
    ∃ ring, probeRx (bootPhysaddr bss ram) rxBuffers rdes m = some ring ∧
      ∀ s, RxReachable process outside ring net s → ReceiveSound s := by
  obtain ⟨ring, probed, wired, start, packets, fresh, clean⟩ := probeRx_ready bss ram rdes m area
  refine ⟨ring, probed, fun s reached => ?_⟩
  obtain ⟨returned, inv⟩ := reached.inv wired start packets fresh clean
  exact inv.sound

/-- The tables and a ring at addresses the kernel can have. -/
theorem receive_ring_sound_at :
    ∃ ring, probeRx (bootPhysaddr ⟨0x200000, rfl, by decide, by decide⟩ fun _ => 0) 0xC0400000
        (fun _ => ⟨0, 0, 0, 0⟩) (fun _ => 0) = some ring ∧
      ∀ s, RxReachable (fun (frames : Nat) _ _ => (.ok (frames + 1) : Except Unit Nat))
        (fun _ _ => False) ring 0 s → ReceiveSound s :=
  receive_ring_sound _ _ 0 ⟨0x200000, rfl, by decide, by decide⟩ (fun _ => 0) 0xC0400000 _ _
    ⟨by decide, by decide⟩

end Probed

end FrogOS
