import FrogOS.Pcnet32Probe

set_option autoImplicit false

namespace FrogOS

/-- An access through `dwio_read_csr` or `dwio_write_csr`. -/
inductive CsrAccess
  | read (index : UInt16) (value : UInt32)
  | write (index : UInt16) (value : UInt32)
deriving DecidableEq, Repr

section Model

variable (card : Pcnet32Card) (csr0 : Nat → UInt32) (alloc : Nat → UInt32 → UInt16 → UInt32)
  (physaddr : UInt32 → UInt32)

/-- The loop behind the write of INIT, where the card answers the reads of CSR0 one after the other
with `csr0`. The condition is `dwio_read_csr(ioaddr,0) & (0x100==0)`. -/
def waitLoop : Nat → Nat → Option (List CsrAccess)
  | 0, _ => none
  | fuel + 1, k =>
      let test : UInt32 := if (0x100 : UInt32) = 0 then 1 else 0
      if csr0 k &&& test ≠ 0 then (waitLoop fuel (k + 1)).map fun rest => .read 0 (csr0 k) :: rest
      else some [.read 0 (csr0 k)]

/-- The accesses of `startCard`, also where the interrupt has no chain. -/
def startAccesses (fuel : Nat) (priv : UInt32) (interrupt : UInt8) : Option (List CsrAccess) := do
  let initBlock := physaddr (priv + 32)
  let waited ← waitLoop csr0 fuel 0
  let started : List CsrAccess :=
    if interrupt.toNat < irqCount then [.write 0 ((1 : UInt32) <<< 1 ||| (1 : UInt32) <<< 6)]
    else []
  return .write 1 (initBlock &&& 0xffff) :: .write 2 (initBlock >>> 16) :: .write 4 0x915 ::
    .write 0 1 :: waited ++ .write 0 ((1 : UInt32) <<< 2) :: started

/-- The accesses of `probeDevice`. -/
def deviceAccesses (fuel : Nat) (pcidev : UInt32) (ioaddr : UInt16) (interrupt : UInt8)
    (chipVersion : UInt32) (no : UInt16) (s : ProbeState) : Option (List CsrAccess) :=
  let entry := s.net.devs no.toNat
  let priv := entry.priv
  let s := s.setDev no { entry with doWork := some .doIrqWork, txPacket := some .txPacket }
  let dev := { s.privs priv with pcidev, ioaddr, interrupt, mii := 0, fdx := 0 }
  match chipFeatures chipVersion dev with
  | none => some []
  | some dev =>
      let s := s.setPriv priv dev
      let hwAddr := (List.range 6).map card.prom
      let s := s.setDev no { s.net.devs no.toNat with hwAddr }
      let csr58 := card.csr 58 &&& 0xfffffff0 ||| 0x2
      let s := s.writeCsr 58 csr58
      let style : List CsrAccess := [.read 58 (card.csr 58), .write 58 csr58]
      match allocateRings alloc priv s with
      | (false, _) => some style
      | (true, _) => (startAccesses csr0 physaddr fuel priv interrupt).map fun rest => style ++ rest

/-- The accesses of `probePcnet32`, in their order; `none` when the loop has more than `fuel`
rounds. -/
def probeAccesses (fuel : Nat) (pcidev : UInt32) (ioaddr : UInt16) (interrupt : UInt8)
    (s : ProbeState) : Option (List CsrAccess) :=
  let chipVersion := card.csr 88 ||| card.csr 89 <<< 16
  let version : List CsrAccess := [.read 88 (card.csr 88), .read 89 (card.csr 89)]
  if chipVersion &&& 0xfff ≠ 0x003 then some version
  else
    match allocNetdev alloc pcnet32DevSize s with
    | (none, _) => some version
    | (some no, s) =>
        (deviceAccesses card csr0 alloc physaddr fuel pcidev ioaddr interrupt chipVersion no s).map
          fun rest => version ++ rest

end Model

/-- What the accesses write. -/
def writes (accesses : List CsrAccess) : List (UInt16 × UInt32) :=
  accesses.filterMap fun access =>
    match access with
    | .read _ _ => none
    | .write index value => some (index, value)

/-- STOP, START and interrupt-enable. -/
def runBits : UInt32 := (1 : UInt32) <<< 2 ||| (1 : UInt32) <<< 1 ||| (1 : UInt32) <<< 6

/-- None of them is written to CSR0 after INIT unless a read in between has had IDON set. -/
def WaitsForInit (accesses : List CsrAccess) : Prop :=
  ∀ (i j : Nat) (init value : UInt32), i < j →
    accesses[i]? = some (CsrAccess.write 0 init) → init &&& 1 ≠ 0 →
    accesses[j]? = some (CsrAccess.write 0 value) → value &&& runBits ≠ 0 →
    ∃ k answer, i < k ∧ k < j ∧ accesses[k]? = some (CsrAccess.read 0 answer) ∧
      answer &&& 0x100 ≠ 0

/-- The probe gets to the initialisation: a chip it knows, room for another device, and memory. -/
def Initialises (card : Pcnet32Card) (alloc : Nat → UInt32 → UInt16 → UInt32) (s : ProbeState) :
    Prop :=
  card.version &&& 0xfff = 0x003 ∧ s.net.num ≠ netNumDevs ∧ alloc s.allocs pcnet32DevSize 1 ≠ 0 ∧
    KnownChip card.version ∧ RingsGranted alloc (s.allocs + 1)

section Proofs

variable {card : Pcnet32Card} {csr0 : Nat → UInt32} {alloc : Nat → UInt32 → UInt16 → UInt32}
  {physaddr : UInt32 → UInt32} {s : ProbeState} {interrupt : UInt8} {priv : UInt32}

/-- Whatever the card answers, one read ends the loop. -/
theorem waitLoop_once (csr0 : Nat → UInt32) (fuel k : Nat) :
    waitLoop csr0 (fuel + 1) k = some [.read 0 (csr0 k)] := by
  have never : (if (0x100 : UInt32) = 0 then 1 else 0 : UInt32) = 0 := if_neg (by decide)
  have ends : ¬ csr0 k &&& 0 ≠ 0 := fun more => more UInt32.and_zero
  simp only [waitLoop, never]
  exact if_neg ends

/-- What a probe does that gets to the initialisation. -/
def initTrace (card : Pcnet32Card) (csr58 low high answer : UInt32) (started : List CsrAccess) :
    List CsrAccess :=
  [.read 88 (card.csr 88), .read 89 (card.csr 89), .read 58 (card.csr 58), .write 58 csr58,
    .write 1 low, .write 2 high, .write 4 0x915, .write 0 1, .read 0 answer, .write 0 4] ++ started

/-- Up to the read in the loop only INIT is written to CSR0. -/
theorem initTrace_early {csr58 low high answer value : UInt32} {started : List CsrAccess} (j : Nat)
    (early : j ≤ 8)
    (written : (initTrace card csr58 low high answer started)[j]? = some (.write 0 value)) :
    value = 1 := by
  unfold initTrace at written
  rcases j with _ | _ | _ | _ | _ | _ | _ | _ | _ | j
  all_goals first | omega | skip
  all_goals simp at written
  exact written.symm

/-- Behind it INIT is not written again. -/
theorem initTrace_late {csr58 low high answer init : UInt32} {started : List CsrAccess} (i : Nat)
    (late : 8 ≤ i) (running : started = [] ∨ started = [.write 0 0x42])
    (written : (initTrace card csr58 low high answer started)[i]? = some (.write 0 init)) :
    init &&& 1 = 0 := by
  obtain ⟨i, rfl⟩ : ∃ more, i = more + 8 := ⟨i - 8, by omega⟩
  unfold initTrace at written
  rcases running with rfl | rfl
  · rcases i with _ | _ | i
    all_goals simp at written
    rw [← written]
    rfl
  · rcases i with _ | _ | _ | i
    all_goals simp at written
    all_goals
      rw [← written]
      rfl

/-- Whether it has waited is decided by the one answer that it has looked at. -/
theorem waitsForInit_initTrace {csr58 low high answer : UInt32} {started : List CsrAccess}
    (running : started = [] ∨ started = [.write 0 0x42]) :
    WaitsForInit (initTrace card csr58 low high answer started) ↔ answer &&& 0x100 ≠ 0 := by
  constructor
  · intro waits
    obtain ⟨k, other, above, below, looked, set⟩ :=
      waits 7 9 1 4 (by decide) rfl (by decide) rfl (by decide)
    have only : k = 8 := by omega
    rw [only] at looked
    have same : answer = other := by
      injection Option.some.inj looked
    rw [same]
    exact set
  · intro set i j init value before first bit later run
    have behind : i < 8 := by
      apply Nat.lt_of_not_le
      exact fun late => bit (initTrace_late i late running first)
    have above : 8 < j := by
      apply Nat.lt_of_not_le
      intro early
      rw [initTrace_early j early later] at run
      exact run (by decide)
    exact ⟨8, answer, behind, above, rfl, set⟩

/-- Without a write to CSR0 there is nothing to wait for. -/
theorem waitsForInit_none {accesses : List CsrAccess}
    (none : ∀ value, CsrAccess.write 0 value ∉ accesses) : WaitsForInit accesses := by
  intro i j init value _ first
  exact absurd (List.mem_of_getElem? first) (none init)

theorem startAccesses_eq (csr0 : Nat → UInt32) (physaddr : UInt32 → UInt32) (fuel : Nat)
    (priv : UInt32) (interrupt : UInt8) :
    ∃ low high started, (started = [] ∨ started = [.write 0 0x42]) ∧
      startAccesses csr0 physaddr (fuel + 1) priv interrupt =
        some ([.write 1 low, .write 2 high, .write 4 0x915, .write 0 1, .read 0 (csr0 0),
          .write 0 4] ++ started) := by
  refine ⟨physaddr (priv + 32) &&& 0xffff, physaddr (priv + 32) >>> 16,
    if interrupt.toNat < irqCount then [.write 0 0x42] else [], ?_, ?_⟩
  · split
    · exact Or.inr rfl
    · exact Or.inl rfl
  · rw [startAccesses, waitLoop_once]
    rfl

/-- A device that gets everything it needs is initialised, and any other is not. -/
theorem deviceAccesses_spec (card : Pcnet32Card) (csr0 : Nat → UInt32)
    (alloc : Nat → UInt32 → UInt16 → UInt32) (physaddr : UInt32 → UInt32) (fuel : Nat)
    (pcidev : UInt32) (ioaddr : UInt16) (interrupt : UInt8) (chipVersion : UInt32) (no : UInt16)
    (s : ProbeState) :
    ((KnownChip chipVersion ∧ RingsGranted alloc s.allocs) ∧
      ∃ csr58 low high started, (started = [] ∨ started = [.write 0 0x42]) ∧
        deviceAccesses card csr0 alloc physaddr (fuel + 1) pcidev ioaddr interrupt chipVersion no
          s = some ((initTrace card csr58 low high (csr0 0) started).drop 2)) ∨
    (¬ (KnownChip chipVersion ∧ RingsGranted alloc s.allocs) ∧
      ∃ accesses,
        deviceAccesses card csr0 alloc physaddr (fuel + 1) pcidev ioaddr interrupt chipVersion no
          s = some accesses ∧ ∀ value, CsrAccess.write 0 value ∉ accesses) := by
  unfold deviceAccesses
  simp only
  generalize s.net.devs no.toNat = e
  generalize ({ (s.setDev no { e with
    doWork := some .doIrqWork, txPacket := some .txPacket }).privs e.priv with
    pcidev, ioaddr, interrupt, mii := 0, fdx := 0 } : Pcnet32Dev) = dev
  rcases chipFeatures_spec chipVersion dev with ⟨unknown, none⟩ | ⟨known, dev', some⟩
  · rw [none]
    exact Or.inr ⟨fun all => unknown all.1, [], rfl, fun value => List.not_mem_nil⟩
  · rw [some]
    simp only
    generalize state : ProbeState.writeCsr _ _ _ = s₁
    have allocs₁ : s₁.allocs = s.allocs := by
      rw [← state]
      rfl
    obtain ⟨granted, t, called, -, -, enough, -⟩ := allocateRings_spec alloc e.priv s₁
    rw [allocs₁] at enough
    rw [called]
    cases granted with
    | false =>
        refine Or.inr ⟨fun all => absurd (enough.mpr all.2) (by decide), _, rfl, ?_⟩
        simp
    | true =>
        obtain ⟨low, high, started, running, done⟩ :=
          startAccesses_eq csr0 physaddr fuel e.priv interrupt
        simp only [done]
        exact Or.inl ⟨⟨known, enough.mp rfl⟩, _, low, high, started, running, rfl⟩

/-- A probe that gets to the initialisation goes through with it. -/
theorem probeAccesses_spec (card : Pcnet32Card) (csr0 : Nat → UInt32)
    (alloc : Nat → UInt32 → UInt16 → UInt32) (physaddr : UInt32 → UInt32) (fuel : Nat)
    (pcidev : UInt32) (ioaddr : UInt16) (interrupt : UInt8) (s : ProbeState) :
    (Initialises card alloc s ∧
      ∃ csr58 low high started, (started = [] ∨ started = [.write 0 0x42]) ∧
        probeAccesses card csr0 alloc physaddr (fuel + 1) pcidev ioaddr interrupt s =
          some (initTrace card csr58 low high (csr0 0) started)) ∨
    (¬ Initialises card alloc s ∧
      ∃ accesses, probeAccesses card csr0 alloc physaddr (fuel + 1) pcidev ioaddr interrupt s =
          some accesses ∧ ∀ value, CsrAccess.write 0 value ∉ accesses) := by
  have version : card.csr 88 ||| card.csr 89 <<< 16 = card.version := rfl
  unfold Initialises probeAccesses
  rw [version]
  by_cases other : card.version &&& 0xfff ≠ 0x003
  · simp only [other, ne_eq, not_false_eq_true, ↓reduceIte, false_and]
    exact Or.inr ⟨trivial, _, rfl, by simp⟩
  simp only [other, ↓reduceIte]
  rcases allocNetdev_spec alloc pcnet32DevSize s with ⟨failed, t, called, -⟩ |
    ⟨room, granted, t, called, -, -, allocs⟩
  · rw [called]
    refine Or.inr ⟨fun all => ?_, _, rfl, by simp⟩
    rcases failed with full | null
    · exact all.2.1 full
    · exact all.2.2.1 null
  rw [called]
  simp only
  rcases deviceAccesses_spec card csr0 alloc physaddr fuel pcidev ioaddr interrupt card.version
    s.net.num t with ⟨complete, csr58, low, high, started, running, done⟩ |
    ⟨incomplete, accesses, done, silent⟩
  · rw [done]
    rw [allocs] at complete
    exact Or.inl ⟨⟨Decidable.not_not.mp other, room, granted, complete⟩, csr58, low, high, started,
      running, rfl⟩
  · rw [done]
    rw [allocs] at incomplete
    refine Or.inr ⟨fun all => incomplete all.2.2.2, _, rfl, fun value => ?_⟩
    simpa using silent value

theorem allocNetdev_written (alloc : Nat → UInt32 → UInt16 → UInt32) (n : UInt32)
    (s : ProbeState) : (allocNetdev alloc n s).2.written = s.written := by
  unfold allocNetdev
  split
  · rfl
  · by_cases null : alloc s.allocs n 1 = 0
    · simp [ProbeState.allocate, null]
    · simp [ProbeState.allocate, ProbeState.setDev, null]

theorem allocateRings_written (alloc : Nat → UInt32 → UInt16 → UInt32) (priv : UInt32)
    (s : ProbeState) : (allocateRings alloc priv s).2.written = s.written := by
  unfold allocateRings
  simp only [ProbeState.allocate, ProbeState.setPriv]
  by_cases first : alloc s.allocs (((1 : UInt16) <<< 6).toUInt32 * 1600) 1 = 0
  · simp only [first, ↓reduceIte]
  by_cases second : alloc (s.allocs + 1) (((1 : UInt16) <<< 4).toUInt32 * 1600) 1 = 0
  · simp only [first, second, ↓reduceIte]
  by_cases third : alloc (s.allocs + 1 + 1) ((16 : UInt32) * ((1 : UInt16) <<< 6).toUInt32) 1 = 0
  · simp only [first, second, third, ↓reduceIte]
  · simp only [first, second, third, ↓reduceIte]

/-- Where the interrupt has a chain, `startCard` writes what `startAccesses` says. -/
theorem startCard_written {no : UInt16} {t : ProbeState} (csr0 : Nat → UInt32) (fuel : Nat)
    (started : startCard physaddr no priv interrupt s = some t) :
    ∃ accesses, startAccesses csr0 physaddr (fuel + 1) priv interrupt = some accesses ∧
      t.written = s.written ++ writes accesses := by
  unfold startCard installIrqHandler at started
  by_cases inside : interrupt.toNat < irqCount
  · simp only [inside, ↓reduceIte] at started
    have result := Option.some.inj started
    refine ⟨_, by rw [startAccesses, waitLoop_once]; rfl, ?_⟩
    rw [← result]
    simp [ProbeState.writeCsr, ProbeState.setPriv, inside, writes]
  · simp only [inside, ↓reduceIte] at started
    cases started

theorem probeDevice_written {pcidev : UInt32} {ioaddr : UInt16} {chipVersion : UInt32}
    {no : UInt16} {ended : Bool} {t : ProbeState} (csr0 : Nat → UInt32) (fuel : Nat)
    (probed : probeDevice card alloc physaddr pcidev ioaddr interrupt chipVersion no s =
      some (ended, t)) :
    ∃ accesses, deviceAccesses card csr0 alloc physaddr (fuel + 1) pcidev ioaddr interrupt
        chipVersion no s = some accesses ∧ t.written = s.written ++ writes accesses := by
  unfold probeDevice at probed
  unfold deviceAccesses
  simp only at probed ⊢
  generalize s.net.devs no.toNat = e at probed ⊢
  generalize ({ (s.setDev no { e with
    doWork := some .doIrqWork, txPacket := some .txPacket }).privs e.priv with
    pcidev, ioaddr, interrupt, mii := 0, fdx := 0 } : Pcnet32Dev) = dev at probed ⊢
  rcases chipFeatures_spec chipVersion dev with ⟨-, unknown⟩ | ⟨-, dev', known⟩
  · rw [unknown] at probed ⊢
    cases probed
    exact ⟨[], rfl, (List.append_nil _).symm⟩
  · rw [known] at probed ⊢
    simp only at probed ⊢
    generalize state : ProbeState.writeCsr _ _ _ = s₁ at probed ⊢
    have before : s₁.written = s.written ++ [(58, card.csr 58 &&& 0xfffffff0 ||| 0x2)] := by
      rw [← state]
      rfl
    have kept := allocateRings_written alloc e.priv s₁
    rcases called : allocateRings alloc e.priv s₁ with ⟨granted, u⟩
    rw [called] at probed kept
    cases granted with
    | false =>
        cases probed
        exact ⟨_, rfl, kept.trans before⟩
    | true =>
        obtain ⟨v, done, same⟩ := Option.map_eq_some_iff.mp probed
        obtain rfl : v = t := (Prod.mk.inj same).2
        obtain ⟨accesses, made, written⟩ := startCard_written csr0 fuel done
        simp only [made, Option.map_some]
        refine ⟨_, rfl, ?_⟩
        rw [written, kept, before, List.append_assoc]
        rfl

/-- A probe writes the registers that its accesses say. -/
theorem probePcnet32_written {pcidev : UInt32} {ioaddr : UInt16} {ended : Bool} {t : ProbeState}
    (csr0 : Nat → UInt32) (fuel : Nat)
    (probed : probePcnet32 card alloc physaddr pcidev ioaddr interrupt s = some (ended, t)) :
    ∃ accesses, probeAccesses card csr0 alloc physaddr (fuel + 1) pcidev ioaddr interrupt s =
        some accesses ∧ t.written = s.written ++ writes accesses := by
  unfold probePcnet32 at probed
  unfold probeAccesses
  simp only at probed ⊢
  split at probed
  · rename_i other
    rw [if_pos other]
    cases probed
    exact ⟨_, rfl, (List.append_nil _).symm⟩
  · rename_i ours
    rw [if_neg ours]
    have kept := allocNetdev_written alloc pcnet32DevSize s
    rcases called : allocNetdev alloc pcnet32DevSize s with ⟨found, u⟩
    rw [called] at probed kept
    cases found with
    | none =>
        cases probed
        refine ⟨_, rfl, ?_⟩
        rw [kept]
        exact (List.append_nil _).symm
    | some no =>
        obtain ⟨accesses, made, written⟩ := probeDevice_written csr0 fuel probed
        simp only [made, Option.map_some]
        refine ⟨_, rfl, ?_⟩
        rw [written, kept]
        rfl

end Proofs

/-- Every probe returns, and it has waited for the card exactly if it did not get to the
initialisation or the card had finished at the first read. -/
theorem probe_waits_for_init_iff (card : Pcnet32Card) (csr0 : Nat → UInt32)
    (alloc : Nat → UInt32 → UInt16 → UInt32) (physaddr : UInt32 → UInt32) (fuel : Nat)
    (pcidev : UInt32) (ioaddr : UInt16) (interrupt : UInt8) (s : ProbeState) :
    ∃ accesses, probeAccesses card csr0 alloc physaddr (fuel + 1) pcidev ioaddr interrupt s =
        some accesses ∧
      (WaitsForInit accesses ↔ (Initialises card alloc s → csr0 0 &&& 0x100 ≠ 0)) := by
  rcases probeAccesses_spec card csr0 alloc physaddr fuel pcidev ioaddr interrupt s with
    ⟨initialises, csr58, low, high, started, running, done⟩ | ⟨not, accesses, done, silent⟩
  · refine ⟨_, done, ?_⟩
    rw [waitsForInit_initTrace running]
    exact ⟨fun set _ => set, fun set => set initialises⟩
  · exact ⟨accesses, done, fun _ initialises => absurd initialises not,
      fun _ => waitsForInit_none silent⟩

/-- An Am79C973 that is still busy when CSR0 is read. -/
theorem slow_card_is_not_waited_for :
    ¬ ∀ card csr0 alloc physaddr fuel pcidev ioaddr interrupt s accesses,
      probeAccesses card csr0 alloc physaddr fuel pcidev ioaddr interrupt s = some accesses →
      WaitsForInit accesses := by
  intro claim
  let card : Pcnet32Card := ⟨fun index => if index = 89 then 0x0262 else 0x5003, fun _ => 0⟩
  let alloc : Nat → UInt32 → UInt16 → UInt32 := fun _ _ _ => 0xC0180000
  let start := unprobed ⟨fun _ => 0, fun _ => 0, ⟨⟨0, 0⟩, ⟨0, 0⟩⟩⟩
  rcases probeAccesses_spec card (fun _ => 4) alloc id 0 0 0xC000 11 start with
    ⟨-, csr58, low, high, started, running, done⟩ | ⟨not, -⟩
  · have waits := claim card (fun _ => 4) alloc id 1 0 0xC000 11 start _ done
    exact (waitsForInit_initTrace running).mp waits (by decide)
  · apply not
    exact ⟨by decide, by decide, by decide, Or.inr (by decide), by decide, by decide, by decide,
      by decide⟩

end FrogOS
