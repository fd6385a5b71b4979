import FrogOS.Pcnet32

set_option autoImplicit false

namespace FrogOS

open ByteMemory OwnedRing

namespace Pcnet32Ring

/-- The `memcpy` of `pcnet32_tx_packet`. -/
def txCopy (r : Pcnet32Ring) (packet : List UInt8) : Pcnet32Ring :=
  { r with mem := blit r.mem (r.slot r.ptr).toNat (ofList packet) 0 packet.length }

/-- STP and ENP. -/
def txMark (r : Pcnet32Ring) : Pcnet32Ring :=
  r.setDe r.ptr { r.des r.ptr with status := (r.des r.ptr).status ||| 0x3 }

def txLength (r : Pcnet32Ring) (len : UInt16) : Pcnet32Ring :=
  r.setDe r.ptr { r.des r.ptr with bcnt := lengthField len }

def txCount (r : Pcnet32Ring) : Pcnet32Ring := { r with packets := r.packets + 1 }

/-- The hand-over of the descriptor. -/
def txGive (r : Pcnet32Ring) : Pcnet32Ring :=
  r.setDe r.ptr { r.des r.ptr with status := (r.des r.ptr).status ||| 0x80 }

def txAdvance (r : Pcnet32Ring) : Pcnet32Ring :=
  let ptr := (r.ptr + 1) % 2 ^ 16
  { r with ptr := if r.count ≤ ptr then 0 else ptr }

end Pcnet32Ring

/-- `none` is the result 0. The packet is the `len` bytes the pointer leads to; what `net_free`
does to them afterwards is the pool's affair. -/
def pcnet32TxPacket (r : Pcnet32Ring) (packet : List UInt8) : Option Pcnet32Ring :=
  if ¬ pcnet32Driverowns r r.ptr then none
  else
    let r := r.txCopy packet
    let r := r.txMark
    let r := r.txLength (UInt16.ofNat packet.length)
    let r := r.txCount
    let r := r.txGive
    some r.txAdvance

/-- Where a running call of `pcnet32_tx_packet` is: in front of the named step. -/
inductive TxPoint
  | test
  | copy
  | free
  | mark
  | length
  | count
  | give
  | advance
deriving DecidableEq, Repr

/-- The driver, possibly in the middle of a call, and the card. `sent` and `returned` record the
frames the card has taken and the packets whose call has returned 1. -/
structure TxSystem where
  ring : Pcnet32Ring
  call : Option (TxPoint × List UInt8)
  card : Nat
  taken : Option (List UInt8)
  sent : List (List UInt8)
  returned : List (List UInt8)

inductive TxAction
  | call (packet : List UInt8)
  | driver
  | take
  | release

/-- One step of a running call. -/
def txDriver (s : TxSystem) (packet : List UInt8) : TxPoint → TxSystem
  | .test =>
      if ¬ pcnet32Driverowns s.ring s.ring.ptr then { s with call := none }
      else { s with call := some (.copy, packet) }
  | .copy => { s with ring := s.ring.txCopy packet, call := some (.free, packet) }
  | .free => { s with call := some (.mark, packet) }
  | .mark => { s with ring := s.ring.txMark, call := some (.length, packet) }
  | .length =>
      { s with
        ring := s.ring.txLength (UInt16.ofNat packet.length)
        call := some (.count, packet) }
  | .count => { s with ring := s.ring.txCount, call := some (.give, packet) }
  | .give => { s with ring := s.ring.txGive, call := some (.advance, packet) }
  | .advance =>
      { s with ring := s.ring.txAdvance, call := none, returned := s.returned ++ [packet] }

/-- The bytes the card takes for a descriptor. -/
def cardFrame (r : Pcnet32Ring) (idx : Nat) : List UInt8 :=
  bytes r.mem (dmaAddress (r.des idx).addr) (fieldLength (r.des idx).bcnt)

/-- A call starts only between calls, and any packet of 1 to 1600 bytes may come. The card takes
the bytes of a descriptor it owns and gives the descriptor back some time later. -/
def txNext (s : TxSystem) : TxAction → Option TxSystem
  | .call packet =>
      if s.call = none ∧ 1 ≤ packet.length ∧ packet.length ≤ 1600 then
        some { s with call := some (.test, packet) }
      else none
  | .driver => s.call.map fun (point, packet) => txDriver s packet point
  | .take =>
      if s.taken = none ∧ (s.ring.des s.card).Owned then
        some { s with taken := some (cardFrame s.ring s.card) }
      else none
  | .release => s.taken.map fun frame =>
      { s with
        ring := s.ring.cardRelease s.card
        card := (s.card + 1) % 2 ^ 4
        taken := none
        sent := s.sent ++ [frame] }

/-- Every state that some order of steps leads to from a given ring. -/
inductive TxReachable (ring : Pcnet32Ring) : TxSystem → Prop
  | start : TxReachable ring
      { ring, call := none, card := 0, taken := none, sent := [], returned := [] }
  | next {s t : TxSystem} {action : TxAction} (reached : TxReachable ring s)
      (step : txNext s action = some t) : TxReachable ring t

/-- The packet of a call that has given its descriptor away and has only to return 1. -/
def TxSystem.inFlight (s : TxSystem) : List (List UInt8) :=
  match s.call with
  | some (.advance, packet) => [packet]
  | _ => []

/-- The packets given to the card, in order. -/
def TxSystem.given (s : TxSystem) : List (List UInt8) := s.returned ++ s.inFlight

/-- Descriptor and buffer `k` hold a frame, encoded as the card reads it. -/
structure Holds (r : Pcnet32Ring) (k : Nat) (frame : List UInt8) : Prop where
  length : (r.des k).bcnt = lengthField (UInt16.ofNat frame.length)
  payload : bytes r.mem (r.slot k).toNat frame.length = frame
  positive : 1 ≤ frame.length
  fits : frame.length ≤ 1600

/-- The part of the invariant that the driver's position and the running call have no part in. -/
structure TxShared (r : Pcnet32Ring) (given sent : List (List UInt8)) : Prop where
  wired : Wired r (2 ^ 4)
  owned : Ring (2 ^ 4) (fun k => (r.des k).Owned) given.length sent.length
  pending : ∀ j frame, sent.length ≤ j → given[j]? = some frame → Holds r (j % 2 ^ 4) frame
  done : sent <+: given

/-- What a running call has achieved at each point. -/
def TxProgress (r : Pcnet32Ring) (packet : List UInt8) : TxPoint → Prop
  | .test | .advance => True
  | .copy => pcnet32Driverowns r r.ptr
  | .free | .mark | .length =>
      pcnet32Driverowns r r.ptr ∧ bytes r.mem (r.slot r.ptr).toNat packet.length = packet
  | .count | .give => pcnet32Driverowns r r.ptr ∧ Holds r r.ptr packet

structure TxInv (s : TxSystem) : Prop where
  shared : TxShared s.ring s.given s.sent
  ptr : s.ring.ptr = s.returned.length % 2 ^ 4
  card : s.card = s.sent.length % 2 ^ 4
  taken : ∀ frame, s.taken = some frame →
    (s.ring.des s.card).Owned ∧ s.given[s.sent.length]? = some frame
  bounds : ∀ point packet, s.call = some (point, packet) →
    1 ≤ packet.length ∧ packet.length ≤ 1600
  progress : ∀ point packet, s.call = some (point, packet) → TxProgress s.ring packet point

section Writes

variable (r : Pcnet32Ring)

theorem sameBut_txCopy (packet : List UInt8) (fits : packet.length ≤ 1600) :
    SameBut r.ptr r (r.txCopy packet) :=
  ⟨rfl, rfl, rfl, fun _ _ => rfl, rfl,
    (blit_frame _ _ _ _ _).mono (Nat.le_refl _) (Nat.add_le_add_left fits _)⟩

theorem sameBut_txMark : SameBut r.ptr r r.txMark := sameBut_setDe r r.ptr _ rfl

theorem sameBut_txLength (len : UInt16) : SameBut r.ptr r (r.txLength len) :=
  sameBut_setDe r r.ptr _ rfl

theorem sameBut_txGive : SameBut r.ptr r r.txGive := sameBut_setDe r r.ptr _ rfl

theorem sameBut_txCount : SameBut r.ptr r r.txCount :=
  ⟨rfl, rfl, rfl, fun _ _ => rfl, rfl, Frame.refl _ _ _⟩

end Writes

section SameBut

variable {r r' : Pcnet32Ring} {k i count : Nat} {frame : List UInt8}

theorem SameBut.holds (same : SameBut k r r') (area : BufferArea r.buffers count)
    (insideK : k < count) (insideI : i < count) (other : i ≠ k) (holds : Holds r i frame) :
    Holds r' i frame := by
  refine ⟨?_, ?_, holds.positive, holds.fits⟩
  · rw [same.others i other]
    exact holds.length
  · have agree := same.agree area insideK insideI other
    rw [same.slot i, bytes_congr fun x lower upper => agree x lower (by have := holds.fits; omega)]
    exact holds.payload

end SameBut

section Shared

variable {r r' : Pcnet32Ring} {given sent : List (List UInt8)} {k : Nat}

/-- What waits in the ring is with the card. -/
theorem TxShared.waiting (shared : TxShared r given sent) {j : Nat} {frame : List UInt8}
    (later : sent.length ≤ j) (member : given[j]? = some frame) : (r.des (j % 2 ^ 4)).Owned := by
  have produced := (List.getElem?_eq_some_iff.mp member).1
  have room := shared.owned.room
  exact (shared.owned.pending_iff later (by omega)).mpr produced

/-- The driver may do what it likes with a descriptor of its own. -/
theorem TxShared.quiet (shared : TxShared r given sent) (inside : k < 2 ^ 4)
    (same : SameBut k r r') (free : ¬ (r.des k).Owned) (kept : ¬ (r'.des k).Owned) :
    TxShared r' given sent := by
  have ownership : ∀ i, ((r'.des i).Owned ↔ (r.des i).Owned) := by
    intro i
    by_cases here : i = k
    · rw [here]
      exact ⟨fun owned => absurd owned kept, fun owned => absurd owned free⟩
    · rw [same.others i here]
  have owned := shared.owned
  refine ⟨same.wired shared.wired, ⟨owned.positive, owned.behind, owned.room, ?_⟩, ?_, shared.done⟩
  · intro i small
    rw [ownership i]
    exact owned.marks i small
  · intro j frame later member
    have other := (ne_of_owners (not_owned.mp free) (shared.waiting later member)).symm
    exact same.holds shared.wired.area inside (Nat.mod_lt j (by decide)) other
      (shared.pending j frame later member)

/-- Setting OWN adds the prepared packet to what the card will find. -/
theorem TxShared.give (shared : TxShared r given sent) {packet : List UInt8}
    (ptr : r.ptr = given.length % 2 ^ 4) (free : ¬ (r.des r.ptr).Owned)
    (holds : Holds r r.ptr packet) : TxShared r.txGive (given ++ [packet]) sent := by
  have owned := shared.owned
  have same := sameBut_txGive r
  have area := shared.wired.area
  have inside : r.ptr < 2 ^ 4 := by
    rw [ptr]
    exact Nat.mod_lt _ (by decide)
  have taken : (r.txGive.des r.ptr).Owned := by
    rw [Pcnet32Ring.txGive, Pcnet32Ring.setDe_same]
    exact owned_give _
  have produced : Ring (2 ^ 4) (fun k => (r.txGive.des k).Owned) (given ++ [packet]).length
      sent.length := by
    rw [List.length_append, List.length_singleton]
    refine owned.produce (by rw [← ptr]; exact free) ?_
    intro k _
    rw [← ptr]
    by_cases here : k = r.ptr
    · rw [here]
      exact ⟨fun _ => Or.inl rfl, fun _ => taken⟩
    · rw [same.others k here]
      exact ⟨Or.inr, fun either => either.resolve_left here⟩
  refine ⟨same.wired shared.wired, produced, ?_, shared.done.trans (List.prefix_append _ _)⟩
  intro j frame later member
  by_cases last : j = given.length
  · rw [last, List.getElem?_concat_length, Option.some.injEq] at member
    rw [last, ← ptr, ← member]
    refine ⟨?_, holds.payload, holds.positive, holds.fits⟩
    rw [Pcnet32Ring.txGive, Pcnet32Ring.setDe_same]
    exact holds.length
  · have before : j < given.length := by
      have bound := (List.getElem?_eq_some_iff.mp member).1
      rw [List.length_append, List.length_singleton] at bound
      omega
    rw [List.getElem?_append_left before] at member
    have other := (ne_of_owners (not_owned.mp free) (shared.waiting later member)).symm
    exact same.holds area inside (Nat.mod_lt j (by decide)) other
      (shared.pending j frame later member)

/-- What the card takes from a descriptor it owns is the next packet given. -/
theorem TxShared.take (shared : TxShared r given sent) {card : Nat}
    (position : card = sent.length % 2 ^ 4) (owned : (r.des card).Owned) :
    given[sent.length]? = some (cardFrame r card) := by
  have waiting : sent.length < given.length := by
    rw [position] at owned
    exact shared.owned.consumer_iff.mp owned
  have member := List.getElem?_eq_getElem waiting
  have holds := shared.pending sent.length _ (Nat.le_refl _) member
  rw [← position] at holds
  have inside : card < 2 ^ 4 := by
    rw [position]
    exact Nat.mod_lt _ (by decide)
  have positive := holds.positive
  have fits := holds.fits
  have len : (UInt16.ofNat (given[sent.length]).length).toNat = (given[sent.length]).length := by
    rw [UInt16.toNat_ofNat']
    omega
  rw [member, cardFrame, shared.wired.points card inside, holds.length,
    fieldLength_lengthField _ (by omega) (by omega), len, holds.payload]

/-- Clearing OWN turns the next packet given into one more frame sent. -/
theorem TxShared.release (shared : TxShared r given sent) {card : Nat} {frame : List UInt8}
    (position : card = sent.length % 2 ^ 4) (owned : (r.des card).Owned)
    (next : given[sent.length]? = some frame) :
    TxShared (r.cardRelease card) given (sent ++ [frame]) := by
  have inside : card < 2 ^ 4 := by
    rw [position]
    exact Nat.mod_lt _ (by decide)
  have same := sameBut_cardRelease r card
  have cleared : ¬ ((r.cardRelease card).des card).Owned := by
    rw [Pcnet32Ring.cardRelease, Pcnet32Ring.setDe_same]
    exact not_not_intro (owned_clear _)
  have consumed : Ring (2 ^ 4) (fun k => ((r.cardRelease card).des k).Owned) given.length
      (sent ++ [frame]).length := by
    rw [List.length_append, List.length_singleton]
    refine shared.owned.consume (by rw [← position]; exact owned) ?_
    intro k _
    rw [← position]
    by_cases here : k = card
    · rw [here]
      exact ⟨fun mark => absurd mark cleared, fun both => absurd rfl both.1⟩
    · rw [same.others k here]
      exact ⟨fun mark => ⟨here, mark⟩, fun both => both.2⟩
  refine ⟨same.wired shared.wired, consumed, ?_, ?_⟩
  · intro j other later member
    rw [List.length_append, List.length_singleton] at later
    have bound := (List.getElem?_eq_some_iff.mp member).1
    have room := shared.owned.room
    have elsewhere : j % 2 ^ 4 ≠ card := by
      rw [position]
      exact mod_ne (2 ^ 4) later (by omega)
    exact same.holds shared.wired.area inside (Nat.mod_lt j (by decide)) elsewhere
      (shared.pending j other (by omega) member)
  · exact prefix_snoc shared.done next

end Shared

section Steps

variable {s t : TxSystem} {packet : List UInt8}

theorem TxInv.ptr_lt (inv : TxInv s) : s.ring.ptr < 2 ^ 4 := by
  rw [inv.ptr]
  exact Nat.mod_lt _ (by decide)

/-- A step that works on the driver's own descriptor keeps the invariant. -/
theorem TxInv.work (inv : TxInv s) {point : TxPoint} {ring : Pcnet32Ring}
    (idle : s.inFlight = []) (bounds : 1 ≤ packet.length ∧ packet.length ≤ 1600)
    (early : point ≠ .advance) (same : SameBut s.ring.ptr s.ring ring)
    (free : pcnet32Driverowns s.ring s.ring.ptr) (progress : TxProgress ring packet point)
    (kept : pcnet32Driverowns ring s.ring.ptr) :
    TxInv { s with ring, call := some (point, packet) } := by
  have given : TxSystem.given { s with ring, call := some (point, packet) } = s.given := by
    unfold TxSystem.given
    rw [idle]
    cases point <;> first | rfl | exact absurd rfl early
  have shared := inv.shared.quiet inv.ptr_lt same (not_owned.mpr free) (not_owned.mpr kept)
  refine ⟨by rw [given]; exact shared, same.ptr.trans inv.ptr, inv.card, ?_, ?_, ?_⟩
  · intro frame taken
    have before := inv.taken frame taken
    rw [given]
    refine ⟨?_, before.2⟩
    have other := (ne_of_owners free before.1).symm
    rw [same.others _ other]
    exact before.1
  · intro _ _ same
    cases same
    exact bounds
  · intro _ _ same
    cases same
    exact progress

/-- A step that leaves the ring alone and stays clear of the hand-over keeps the invariant. -/
theorem TxInv.move (inv : TxInv s) (idle : s.inFlight = []) {call : Option (TxPoint × List UInt8)}
    (bounds : ∀ point packet, call = some (point, packet) →
      1 ≤ packet.length ∧ packet.length ≤ 1600)
    (early : ∀ packet, call ≠ some (.advance, packet))
    (progress : ∀ point packet, call = some (point, packet) → TxProgress s.ring packet point) :
    TxInv { s with call } := by
  have given : TxSystem.given { s with call } = s.given := by
    unfold TxSystem.given
    rw [idle, TxSystem.inFlight]
    split
    · rename_i packet here
      exact absurd here (early packet)
    · rfl
  refine ⟨by rw [given]; exact inv.shared, inv.ptr, inv.card, ?_, bounds, progress⟩
  rw [given]
  exact inv.taken

theorem TxInv.give (inv : TxInv s) (idle : s.inFlight = [])
    (bounds : 1 ≤ packet.length ∧ packet.length ≤ 1600)
    (free : pcnet32Driverowns s.ring s.ring.ptr) (holds : Holds s.ring s.ring.ptr packet) :
    TxInv { s with ring := s.ring.txGive, call := some (.advance, packet) } := by
  have before : s.given = s.returned := by
    unfold TxSystem.given
    rw [idle, List.append_nil]
  have given : TxSystem.given { s with ring := s.ring.txGive, call := some (.advance, packet) } =
      s.given ++ [packet] := by
    rw [before]
    rfl
  have shared := inv.shared.give (by rw [before]; exact inv.ptr) (not_owned.mpr free) holds
  refine ⟨by rw [given]; exact shared, inv.ptr, inv.card, ?_, ?_, ?_⟩
  · intro frame taken
    have old := inv.taken frame taken
    have other := (ne_of_owners free old.1).symm
    rw [given]
    refine ⟨?_, ?_⟩
    · change (s.ring.txGive.des s.card).Owned
      rw [Pcnet32Ring.txGive, Pcnet32Ring.setDe_other _ _ _ _ other]
      exact old.1
    · rw [List.getElem?_append_left (List.getElem?_eq_some_iff.mp old.2).1]
      exact old.2
  · intro _ _ same
    cases same
    exact bounds
  · intro _ _ same
    cases same
    trivial

theorem TxInv.advance (inv : TxInv s) (running : s.call = some (.advance, packet)) :
    TxInv { s with
      ring := s.ring.txAdvance, call := none, returned := s.returned ++ [packet] } := by
  have given : TxSystem.given { s with
      ring := s.ring.txAdvance, call := none, returned := s.returned ++ [packet] } = s.given := by
    simp only [TxSystem.given, TxSystem.inFlight, running, List.append_nil]
  have inside := inv.ptr_lt
  have size := inv.shared.wired.size
  have next : s.ring.txAdvance.ptr = (s.returned ++ [packet]).length % 2 ^ 4 := by
    have wrap := succ_mod (n := 2 ^ 4) s.returned.length (by decide)
    rw [← inv.ptr] at wrap
    rw [List.length_append, List.length_singleton, wrap, Pcnet32Ring.txAdvance, size,
      Nat.mod_eq_of_lt (by omega)]
  have old := inv.shared
  have shared : TxShared s.ring.txAdvance s.given s.sent :=
    ⟨⟨old.wired.size, old.wired.area, old.wired.points⟩, old.owned,
      fun j frame later member =>
        let holds := old.pending j frame later member
        ⟨holds.length, holds.payload, holds.positive, holds.fits⟩, old.done⟩
  refine ⟨by rw [given]; exact shared, next, inv.card, ?_, ?_, ?_⟩
  · intro frame taken
    rw [given]
    exact inv.taken frame taken
  · intro _ _ same
    cases same
  · intro _ _ same
    cases same

theorem txDriver_inv (inv : TxInv s) {point : TxPoint} (running : s.call = some (point, packet)) :
    TxInv (txDriver s packet point) := by
  have bounds := inv.bounds point packet running
  have progress := inv.progress point packet running
  have idle : point ≠ .advance → s.inFlight = [] := by
    intro early
    unfold TxSystem.inFlight
    rw [running]
    cases point <;> first | rfl | exact absurd rfl early
  cases point with
  | test =>
      by_cases free : pcnet32Driverowns s.ring s.ring.ptr
      · rw [txDriver, if_neg (not_not_intro free)]
        refine inv.move (idle (by decide)) ?_ (by rintro _ ⟨⟩) ?_
        · intro _ _ same
          cases same
          exact bounds
        · intro _ _ same
          cases same
          exact free
      · rw [txDriver, if_pos free]
        exact inv.move (idle (by decide)) (by rintro _ _ ⟨⟩) (by rintro _ ⟨⟩) (by rintro _ _ ⟨⟩)
  | copy =>
      refine inv.work (idle (by decide)) bounds (by decide)
        (sameBut_txCopy s.ring packet bounds.2) progress ⟨progress, ?_⟩ progress
      exact bytes_blit_ofList _ _ _
  | free =>
      refine inv.move (idle (by decide)) ?_ (by rintro _ ⟨⟩) ?_
      · intro _ _ same
        cases same
        exact bounds
      · intro _ _ same
        cases same
        exact progress
  | mark =>
      have kept : pcnet32Driverowns s.ring.txMark s.ring.ptr := by
        rw [pcnet32Driverowns, Pcnet32Ring.txMark, Pcnet32Ring.setDe_same]
        exact (owned_mark _).trans progress.1
      exact inv.work (idle (by decide)) bounds (by decide) (sameBut_txMark s.ring)
        progress.1 ⟨kept, progress.2⟩ kept
  | length =>
      have kept : pcnet32Driverowns (s.ring.txLength (UInt16.ofNat packet.length)) s.ring.ptr := by
        rw [pcnet32Driverowns, Pcnet32Ring.txLength, Pcnet32Ring.setDe_same]
        exact progress.1
      refine inv.work (idle (by decide)) bounds (by decide)
        (sameBut_txLength s.ring _) progress.1 ⟨kept, ?_, ?_, bounds.1, bounds.2⟩ kept
      · change ((s.ring.txLength _).des s.ring.ptr).bcnt = _
        rw [Pcnet32Ring.txLength, Pcnet32Ring.setDe_same]
      · exact progress.2
  | count =>
      obtain ⟨free, holds⟩ := progress
      exact inv.work (idle (by decide)) bounds (by decide) (sameBut_txCount s.ring) free
        ⟨free, holds.length, holds.payload, holds.positive, holds.fits⟩ free
  | give => exact inv.give (idle (by decide)) bounds progress.1 progress.2
  | advance => exact inv.advance running

theorem TxInv.release (inv : TxInv s) {frame : List UInt8} (taken : s.taken = some frame) :
    TxInv { s with
      ring := s.ring.cardRelease s.card, card := (s.card + 1) % 2 ^ 4, taken := none
      sent := s.sent ++ [frame] } := by
  obtain ⟨owned, next⟩ := inv.taken frame taken
  have shared := inv.shared.release inv.card owned next
  refine ⟨shared, inv.ptr, ?_, by rintro _ ⟨⟩, inv.bounds, ?_⟩
  · change (s.card + 1) % 2 ^ 4 = (s.sent ++ [frame]).length % 2 ^ 4
    rw [List.length_append, List.length_singleton, inv.card, Nat.mod_add_mod]
  · intro point packet running
    have progress := inv.progress point packet running
    have kept (free : pcnet32Driverowns s.ring s.ring.ptr) :
        (s.ring.cardRelease s.card).des s.ring.ptr = s.ring.des s.ring.ptr :=
      Pcnet32Ring.setDe_other _ _ _ _ (ne_of_owners free owned)
    cases point with
    | test | advance => trivial
    | copy => exact (driverowns_congr (kept progress)).mpr progress
    | free | mark | length =>
        exact ⟨(driverowns_congr (kept progress.1)).mpr progress.1, progress.2⟩
    | count | give =>
        have same := kept progress.1
        refine ⟨(driverowns_congr same).mpr progress.1, ?_, progress.2.payload,
          progress.2.positive, progress.2.fits⟩
        change ((s.ring.cardRelease s.card).des s.ring.ptr).bcnt = _
        rw [same]
        exact progress.2.length

theorem txNext_inv (inv : TxInv s) {action : TxAction} (step : txNext s action = some t) :
    TxInv t := by
  cases action with
  | call packet =>
      simp only [txNext] at step
      split at step
      · rename_i guard
        obtain ⟨idle, bounds⟩ := guard
        cases step
        refine inv.move (by simp only [TxSystem.inFlight, idle]) ?_ (by rintro _ ⟨⟩) ?_
        · intro _ _ same
          cases same
          exact bounds
        · intro _ _ same
          cases same
          trivial
      · cases step
  | driver =>
      obtain ⟨⟨point, packet⟩, running, rfl⟩ := Option.map_eq_some_iff.mp step
      exact txDriver_inv inv running
  | take =>
      simp only [txNext] at step
      split at step
      · rename_i guard
        cases step
        refine ⟨inv.shared, inv.ptr, inv.card, ?_, inv.bounds, inv.progress⟩
        intro _ same
        cases same
        exact ⟨guard.2, inv.shared.take inv.card guard.2⟩
      · cases step
  | release =>
      obtain ⟨frame, taken, rfl⟩ := Option.map_eq_some_iff.mp step
      exact inv.release taken

theorem TxReachable.inv {ring : Pcnet32Ring} (reached : TxReachable ring s)
    (wired : Wired ring (2 ^ 4)) (start : ring.ptr = 0)
    (free : ∀ k, k < 2 ^ 4 → ¬ (ring.des k).Owned) : TxInv s := by
  induction reached with
  | start =>
      refine ⟨⟨wired, OwnedRing.start (by decide) free, ?_, List.nil_prefix⟩, start, rfl, ?_, ?_, ?_⟩
      · rintro j frame _ ⟨⟩
      · intro _ same
        cases same
      · intro _ _ same
        cases same
      · intro _ _ same
        cases same
  | next reached step ih => exact txNext_inv ih step

/-- A step of the driver writes no descriptor and no buffer of the card's. -/
theorem txDriver_isolated (inv : TxInv s) {point : TxPoint}
    (running : s.call = some (point, packet)) {k : Nat} (inside : k < 2 ^ 4)
    (owned : (s.ring.des k).Owned) :
    (txDriver s packet point).ring.des k = s.ring.des k ∧
      Agree (s.ring.slot k).toNat 1600 s.ring.mem (txDriver s packet point).ring.mem := by
  have bounds := inv.bounds point packet running
  have progress := inv.progress point packet running
  have other (free : pcnet32Driverowns s.ring s.ring.ptr) : k ≠ s.ring.ptr :=
    (ne_of_owners free owned).symm
  have kept {r : Pcnet32Ring} (same : SameBut s.ring.ptr s.ring r)
      (free : pcnet32Driverowns s.ring s.ring.ptr) :
      r.des k = s.ring.des k ∧ Agree (s.ring.slot k).toNat 1600 s.ring.mem r.mem :=
    ⟨same.others k (other free),
      same.agree inv.shared.wired.area inv.ptr_lt inside (other free)⟩
  have still : Agree (s.ring.slot k).toNat 1600 s.ring.mem s.ring.mem := fun _ _ _ => rfl
  cases point with
  | test =>
      simp only [txDriver]
      split <;> exact ⟨rfl, still⟩
  | copy => exact kept (sameBut_txCopy s.ring packet bounds.2) progress
  | free | advance => exact ⟨rfl, still⟩
  | mark => exact kept (sameBut_txMark s.ring) progress.1
  | length => exact kept (sameBut_txLength s.ring _) progress.1
  | give => exact kept (sameBut_txGive s.ring) progress.1
  | count => exact kept (sameBut_txCount s.ring) progress.1

/-- A call that nobody interrupts is `pcnet32_tx_packet`. -/
theorem txCall_alone (running : s.call = some (.test, packet)) :
    match pcnet32TxPacket s.ring packet with
    | none => txNext s .driver = some { s with call := none }
    | some ring => (List.replicate 8 TxAction.driver).foldlM txNext s =
        some { s with ring, call := none, returned := s.returned ++ [packet] } := by
  by_cases free : pcnet32Driverowns s.ring s.ring.ptr
  · simp only [pcnet32TxPacket, free, not_true_eq_false, ↓reduceIte]
    simp only [List.replicate, List.foldlM_cons, List.foldlM_nil, txNext, running, Option.map_some,
      Option.bind_eq_bind, Option.bind_some, Option.pure_def, txDriver, free, not_true_eq_false,
      ↓reduceIte]
  · simp only [pcnet32TxPacket, free, not_false_eq_true, ↓reduceIte, txNext, running,
      Option.map_some, txDriver]

end Steps

/-- What holds of the transmit ring in every state. A call returns 0 where it ends without a
packet being recorded. -/
structure TransmitSound (s : TxSystem) : Prop where
  order : s.sent <+: s.returned ++ s.inFlight
  settled : s.call = none → s.sent <+: s.returned
  position : s.ring.ptr < s.ring.count
  isolated : ∀ t, txNext s .driver = some t → ∀ k, k < s.ring.count → (s.ring.des k).Owned →
    t.ring.des k = s.ring.des k ∧ Agree (s.ring.slot k).toNat 1600 s.ring.mem t.ring.mem
  begun : ∀ packet t, txNext s (.call packet) = some t → t.ring = s.ring
  refused : ∀ t, txNext s .driver = some t → t.call = none → t.returned = s.returned →
    t.ring = s.ring

theorem TxInv.sound {s : TxSystem} (inv : TxInv s) : TransmitSound s := by
  have size := inv.shared.wired.size
  refine ⟨inv.shared.done, ?_, by rw [size]; exact inv.ptr_lt, ?_, ?_, ?_⟩
  · intro idle
    have order := inv.shared.done
    rw [TxSystem.given, TxSystem.inFlight, idle, List.append_nil] at order
    exact order
  · intro t step k inside owned
    obtain ⟨⟨point, packet⟩, running, rfl⟩ := Option.map_eq_some_iff.mp step
    exact txDriver_isolated inv running (by rw [← size]; exact inside) owned
  · intro packet t step
    simp only [txNext] at step
    split at step <;> cases step
    rfl
  · intro t step ended unrecorded
    obtain ⟨⟨point, packet⟩, running, rfl⟩ := Option.map_eq_some_iff.mp step
    cases point with
    | test =>
        simp only [txDriver]
        split <;> rfl
    | copy | free | mark | length | count | give => cases ended
    | advance =>
        have lengths := congrArg List.length unrecorded
        simp only [txDriver, List.length_append, List.length_singleton] at lengths
        omega

end FrogOS
