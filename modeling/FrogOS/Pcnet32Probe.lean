import FrogOS.Irq

set_option autoImplicit false

namespace FrogOS

/-- The functions of pcnet32.c that the records of a device point to. -/
inductive Pcnet32Function
  | doIrqWork
  | txPacket
  | irqHandler
deriving DecidableEq, Repr

/-- An entry of `net_devs`. -/
structure NetDevEntry where
  devNo : UInt16
  hwAddr : List UInt8
  ipv4Addr : UInt32
  ipv4Netmask : UInt32
  needsWork : UInt8
  doWork : Option Pcnet32Function
  txPacket : Option Pcnet32Function
  priv : UInt32
  rxPackets : UInt32
  txPackets : UInt32

/-- `memset(dev, 0, sizeof(net_dev))`. -/
def NetDevEntry.cleared : NetDevEntry where
  devNo := 0
  hwAddr := [0, 0, 0, 0, 0, 0]
  ipv4Addr := 0
  ipv4Netmask := 0
  needsWork := 0
  doWork := none
  txPacket := none
  priv := 0
  rxPackets := 0
  txPackets := 0

def netNumDevs : UInt16 := 16

/-- `net_devs` and `net_num_devs`, which counts the entries in use. -/
structure NetTable where
  devs : Nat → NetDevEntry
  num : UInt16
  bound : num ≤ netNumDevs

structure Pcnet32CardReg where
  mode : UInt16
  rlen : UInt8
  tlen : UInt8
  hwAddr : List UInt8
  reserved : UInt16
  ladr : List UInt8
  rde : UInt32
  tde : UInt32
deriving Inhabited

/-- The private data of a device. The link of its handler is in `IrqState.next`; the handler's
argument is the device by its number. -/
structure Pcnet32Dev where
  pcidev : UInt32
  ioaddr : UInt16
  interrupt : UInt8
  handler : Option Pcnet32Function
  handlerData : UInt16
  cardReg : Pcnet32CardReg
  rxBufferPtr : UInt16
  txBufferPtr : UInt16
  rxBufferCount : UInt16
  txBufferCount : UInt16
  rxBuffers : UInt32
  txBuffers : UInt32
  rdes : UInt32
  tdes : UInt32
  mii : UInt8
  fdx : UInt8
deriving Inhabited

/-- What `probe_pcnet32` works on: the tables of net.c and irq.c, the private data of the devices
by address, the registers it has written, and how often it has called `alloc`. -/
structure ProbeState where
  net : NetTable
  privs : UInt32 → Pcnet32Dev
  irq : IrqState
  written : List (UInt16 × UInt32)
  allocs : Nat

/-- What the card's registers and its address PROM read as. -/
structure Pcnet32Card where
  csr : UInt16 → UInt32
  prom : Nat → UInt8

/-- `sizeof(pcnet32_dev)`, and where `handler` is in it. -/
def pcnet32DevSize : UInt32 := 96

def handlerOffset : UInt32 := 8

section Model

variable (card : Pcnet32Card) (alloc : Nat → UInt32 → UInt16 → UInt32)
  (physaddr : UInt32 → UInt32)

namespace ProbeState

def setDev (s : ProbeState) (no : UInt16) (entry : NetDevEntry) : ProbeState :=
  { s with net := { s.net with devs := fun i => if i = no.toNat then entry else s.net.devs i } }

def setPriv (s : ProbeState) (priv : UInt32) (dev : Pcnet32Dev) : ProbeState :=
  { s with privs := fun p => if p = priv then dev else s.privs p }

def writeCsr (s : ProbeState) (index : UInt16) (conf : UInt32) : ProbeState :=
  { s with written := s.written ++ [(index, conf)] }

/-- A call of `alloc`, which may return anything. -/
def allocate (s : ProbeState) (size : UInt32) : UInt32 × ProbeState :=
  (alloc s.allocs size 1, { s with allocs := s.allocs + 1 })

end ProbeState

theorem NetTable.room_bound (t : NetTable) (room : ¬ netNumDevs = t.num) :
    t.num + 1 ≤ netNumDevs := by
  have bound := UInt16.le_iff_toNat_le.mp t.bound
  have other : t.num.toNat ≠ netNumDevs.toNat := fun same => room (UInt16.toNat_inj.mp same.symm)
  have sixteen : netNumDevs.toNat = 16 := rfl
  rw [UInt16.le_iff_toNat_le, UInt16.toNat_add]
  change (t.num.toNat + 1) % 2 ^ 16 ≤ _
  omega

/-- `net_num_devs++`. -/
def NetTable.grow (t : NetTable) (room : ¬ netNumDevs = t.num) : NetTable where
  devs := t.devs
  num := t.num + 1
  bound := t.room_bound room

/-- The number of the new device, or nothing where the table is full or there is no memory. -/
def allocNetdev (n : UInt32) (s : ProbeState) : Option UInt16 × ProbeState :=
  if full : netNumDevs = s.net.num then (none, s)
  else
    let (priv, s') := s.allocate alloc n
    if priv = 0 then (none, s')
    else
      let devNo := s.net.num
      let s' := { s' with net := s.net.grow full }
      (some devNo, s'.setDev devNo { NetDevEntry.cleared with priv, devNo })

/-- The `switch` on the chip; nothing for a chip it does not know. -/
def chipFeatures (chipVersion : UInt32) (dev : Pcnet32Dev) : Option Pcnet32Dev :=
  if chipVersion >>> 12 = 0x2621 then some { dev with fdx := 1 }
  else if chipVersion >>> 12 = 0x2625 then some { dev with fdx := 1, mii := 1 }
  else none

/-- The four allocations; `false` stands for `goto err`. -/
def allocateRings (priv : UInt32) (s : ProbeState) : Bool × ProbeState :=
  let rxCount := (1 : UInt16) <<< 6
  let (rxBuffers, s) := s.allocate alloc (rxCount.toUInt32 * 1600)
  let dev := { s.privs priv with rxBufferCount := rxCount, rxBufferPtr := 0, rxBuffers }
  let s := s.setPriv priv dev
  if rxBuffers = 0 then (false, s)
  else
    let txCount := (1 : UInt16) <<< 4
    let (txBuffers, s) := s.allocate alloc (txCount.toUInt32 * 1600)
    let dev := { dev with txBufferCount := txCount, txBufferPtr := 0, txBuffers }
    let s := s.setPriv priv dev
    if txBuffers = 0 then (false, s)
    else
      let (rdes, s) := s.allocate alloc (16 * rxCount.toUInt32)
      let dev := { dev with rdes }
      let s := s.setPriv priv dev
      if rdes = 0 then (false, s)
      else
        let (tdes, s) := s.allocate alloc (16 * txCount.toUInt32)
        let s := s.setPriv priv { dev with tdes }
        (tdes ≠ 0, s)

/-- From the descriptors on, which are `probeRx` and `probeTx`, to the end. The loop that should
wait for the card compares `0x100` with 0 and ends at once. -/
def startCard (no : UInt16) (priv : UInt32) (interrupt : UInt8) (s : ProbeState) :
    Option ProbeState := do
  let dev := s.privs priv
  let cardReg : Pcnet32CardReg :=
    { mode := 0, rlen := (6 : UInt8) <<< 4, tlen := (4 : UInt8) <<< 4
      hwAddr := (s.net.devs no.toNat).hwAddr, reserved := 0, ladr := List.replicate 8 0xff
      rde := physaddr dev.rdes, tde := physaddr dev.tdes }
  let s := s.setPriv priv { dev with cardReg, handler := some .irqHandler, handlerData := no }
  let initBlock := physaddr (priv + 32)
  let s := s.writeCsr 1 (initBlock &&& 0xffff)
  let s := s.writeCsr 2 (initBlock >>> 16)
  let s := s.writeCsr 4 0x915
  let s := s.writeCsr 0 1
  let s := s.writeCsr 0 ((1 : UInt32) <<< 2)
  let irq ← installIrqHandler s.irq interrupt.toNat (priv + handlerOffset)
  return { s with irq }.writeCsr 0 ((1 : UInt32) <<< 1 ||| (1 : UInt32) <<< 6)

/-- What comes behind `alloc_netdev`, which has put the new device into the table. -/
def probeDevice (pcidev : UInt32) (ioaddr : UInt16) (interrupt : UInt8) (chipVersion : UInt32)
    (no : UInt16) (s : ProbeState) : Option (Bool × ProbeState) :=
  let entry := s.net.devs no.toNat
  let priv := entry.priv
  let s := s.setDev no { entry with doWork := some .doIrqWork, txPacket := some .txPacket }
  let dev := { s.privs priv with pcidev, ioaddr, interrupt, mii := 0, fdx := 0 }
  match chipFeatures chipVersion dev with
  | none => some (false, s.setPriv priv dev)
  | some dev =>
      let s := s.setPriv priv dev
      let hwAddr := (List.range 6).map card.prom
      let s := s.setDev no { s.net.devs no.toNat with hwAddr }
      let s := s.writeCsr 58 (card.csr 58 &&& 0xfffffff0 ||| 0x2)
      match allocateRings alloc priv s with
      | (false, s) => some (false, s)
      | (true, s) => (startCard physaddr no priv interrupt s).map fun s => (true, s)

/-- Also says whether the function has come to its end without `goto err`. `none` stands for an
interrupt line that irq.c has no chain for. -/
def probePcnet32 (pcidev : UInt32) (ioaddr : UInt16) (interrupt : UInt8) (s : ProbeState) :
    Option (Bool × ProbeState) :=
  let chipVersion := card.csr 88 ||| card.csr 89 <<< 16
  if chipVersion &&& 0xfff ≠ 0x003 then some (false, s)
  else
    match allocNetdev alloc pcnet32DevSize s with
    | (none, s) => some (false, s)
    | (some no, s) => probeDevice card alloc physaddr pcidev ioaddr interrupt chipVersion no s

end Model

/-- The device with number `no` is there with its rings, and its handler heads the chain of its
interrupt. -/
structure Running (no : UInt16) (interrupt : UInt8) (s : ProbeState) : Prop where
  registered : s.net.num = no + 1
  rxBuffers : (s.privs (s.net.devs no.toNat).priv).rxBuffers ≠ 0
  txBuffers : (s.privs (s.net.devs no.toNat).priv).txBuffers ≠ 0
  rdes : (s.privs (s.net.devs no.toNat).priv).rdes ≠ 0
  tdes : (s.privs (s.net.devs no.toNat).priv).tdes ≠ 0
  handler : (s.privs (s.net.devs no.toNat).priv).handler = some .irqHandler
  installed : s.irq.irqHandlers interrupt.toNat = (s.net.devs no.toNat).priv + handlerOffset

/-- The tables that everybody else goes by are as they were. -/
structure Untouched (s t : ProbeState) : Prop where
  num : t.net.num = s.net.num
  devs : ∀ i < s.net.num.toNat, t.net.devs i = s.net.devs i
  heads : t.irq.irqHandlers = s.irq.irqHandlers
  next : t.irq.next = s.irq.next

section Proofs

variable {card : Pcnet32Card} {alloc : Nat → UInt32 → UInt16 → UInt32}
  {physaddr : UInt32 → UInt32} {s t : ProbeState} {interrupt : UInt8} {priv : UInt32}

theorem succ_ne (n : UInt16) : n + 1 ≠ n := by
  intro same
  have value := congrArg UInt16.toNat same
  have bound := n.toNat_lt
  rw [UInt16.toNat_add] at value
  change (n.toNat + 1) % 2 ^ 16 = _ at value
  omega

/-- Without a device the tables stay; with one there is one more, and its private data. -/
theorem allocNetdev_spec (alloc : Nat → UInt32 → UInt16 → UInt32) (n : UInt32) (s : ProbeState) :
    ((s.net.num = netNumDevs ∨ alloc s.allocs n 1 = 0) ∧
      ∃ t, allocNetdev alloc n s = (none, t) ∧ Untouched s t) ∨
    (s.net.num ≠ netNumDevs ∧ alloc s.allocs n 1 ≠ 0 ∧
      ∃ t, allocNetdev alloc n s = (some s.net.num, t) ∧ t.net.num = s.net.num + 1 ∧
        t.irq = s.irq ∧ t.allocs = s.allocs + 1) := by
  by_cases full : netNumDevs = s.net.num
  · refine Or.inl ⟨Or.inl full.symm, s, ?_, rfl, fun _ _ => rfl, rfl, rfl⟩
    rw [allocNetdev, dif_pos full]
  · by_cases null : alloc s.allocs n 1 = 0
    · refine Or.inl ⟨Or.inr null, { s with allocs := s.allocs + 1 }, ?_, rfl, fun _ _ => rfl, rfl,
        rfl⟩
      rw [allocNetdev, dif_neg full]
      simp only [ProbeState.allocate, null, ↓reduceIte]
    · refine Or.inr ⟨fun same => full same.symm, null, ?_⟩
      rw [allocNetdev, dif_neg full]
      simp only [ProbeState.allocate, null, ↓reduceIte]
      exact ⟨_, rfl, rfl, rfl, rfl⟩

/-- The requests of the driver for its two rings. -/
def RingsGranted (alloc : Nat → UInt32 → UInt16 → UInt32) (first : Nat) : Prop :=
  alloc first 102400 1 ≠ 0 ∧ alloc (first + 1) 25600 1 ≠ 0 ∧ alloc (first + 2) 1024 1 ≠ 0 ∧
    alloc (first + 3) 256 1 ≠ 0

/-- The private data has the four pointers. -/
def HasRings (s : ProbeState) (priv : UInt32) : Prop :=
  (s.privs priv).rxBuffers ≠ 0 ∧ (s.privs priv).txBuffers ≠ 0 ∧ (s.privs priv).rdes ≠ 0 ∧
    (s.privs priv).tdes ≠ 0

theorem allocateRings_spec (alloc : Nat → UInt32 → UInt16 → UInt32) (priv : UInt32)
    (s : ProbeState) :
    ∃ granted t, allocateRings alloc priv s = (granted, t) ∧ t.net = s.net ∧ t.irq = s.irq ∧
      (granted = true ↔ RingsGranted alloc s.allocs) ∧ (granted = true → HasRings t priv) := by
  have rx : ((1 : UInt16) <<< 6).toUInt32 * 1600 = 102400 := by decide
  have tx : ((1 : UInt16) <<< 4).toUInt32 * 1600 = 25600 := by decide
  have rd : (16 : UInt32) * ((1 : UInt16) <<< 6).toUInt32 = 1024 := by decide
  have td : (16 : UInt32) * ((1 : UInt16) <<< 4).toUInt32 = 256 := by decide
  unfold allocateRings RingsGranted
  simp only [ProbeState.allocate, ProbeState.setPriv, rx, tx, rd, td]
  by_cases first : alloc s.allocs 102400 1 = 0
  · simp only [first, ↓reduceIte]
    exact ⟨_, _, rfl, rfl, rfl, by simp, by simp⟩
  · simp only [first, ↓reduceIte]
    by_cases second : alloc (s.allocs + 1) 25600 1 = 0
    · simp only [second, ↓reduceIte]
      exact ⟨_, _, rfl, rfl, rfl, by simp, by simp⟩
    · simp only [second, ↓reduceIte]
      by_cases third : alloc (s.allocs + 1 + 1) 1024 1 = 0
      · simp only [third, ↓reduceIte]
        exact ⟨_, _, rfl, rfl, rfl, by simp, by simp⟩
      · simp only [third, ↓reduceIte]
        refine ⟨_, _, rfl, rfl, rfl, by simp [first, second, third], ?_⟩
        intro fourth
        simpa [HasRings, first, second, third] using fourth

/-- The card is started exactly where its interrupt has a chain, and the handler is put there. -/
theorem startCard_spec (physaddr : UInt32 → UInt32) (no : UInt16) (priv : UInt32)
    (interrupt : UInt8) (s : ProbeState) :
    (irqCount ≤ interrupt.toNat ∧ startCard physaddr no priv interrupt s = none) ∨
    (interrupt.toNat < irqCount ∧ ∃ t, startCard physaddr no priv interrupt s = some t ∧
      t.net = s.net ∧ (HasRings s priv → HasRings t priv) ∧
      (t.privs priv).handler = some .irqHandler ∧
      t.irq.irqHandlers interrupt.toNat = priv + handlerOffset) := by
  unfold startCard
  by_cases inside : interrupt.toNat < irqCount
  · refine Or.inr ⟨inside, ?_⟩
    simp only [installIrqHandler, ProbeState.writeCsr, ProbeState.setPriv, inside, ↓reduceIte]
    refine ⟨_, rfl, rfl, ?_, ?_, ?_⟩
    · intro rings
      simpa [HasRings] using rings
    · simp
    · simp [setHead]
  · refine Or.inl ⟨Nat.le_of_not_lt inside, ?_⟩
    simp only [installIrqHandler, ProbeState.writeCsr, ProbeState.setPriv, inside, ↓reduceIte]
    rfl

/-- The chip is one of the two that the `switch` knows. -/
def KnownChip (chipVersion : UInt32) : Prop :=
  chipVersion >>> 12 = 0x2621 ∨ chipVersion >>> 12 = 0x2625

theorem chipFeatures_spec (chipVersion : UInt32) (dev : Pcnet32Dev) :
    (¬ KnownChip chipVersion ∧ chipFeatures chipVersion dev = none) ∨
      (KnownChip chipVersion ∧ ∃ dev', chipFeatures chipVersion dev = some dev') := by
  unfold KnownChip chipFeatures
  by_cases first : chipVersion >>> 12 = 0x2621
  · rw [if_pos first]
    exact Or.inr ⟨Or.inl first, _, rfl⟩
  · by_cases second : chipVersion >>> 12 = 0x2625
    · rw [if_neg first, if_pos second]
      exact Or.inr ⟨Or.inr second, _, rfl⟩
    · rw [if_neg first, if_neg second]
      exact Or.inl ⟨not_or.mpr ⟨first, second⟩, rfl⟩

/-- A device in the table gets everything it needs, or it stays there without. -/
theorem probeDevice_spec (card : Pcnet32Card) (alloc : Nat → UInt32 → UInt16 → UInt32)
    (physaddr : UInt32 → UInt32) (pcidev : UInt32) (ioaddr : UInt16) (interrupt : UInt8)
    (chipVersion : UInt32) (no : UInt16) (s : ProbeState) (num : s.net.num = no + 1) :
    ((KnownChip chipVersion ∧ RingsGranted alloc s.allocs ∧ interrupt.toNat < irqCount) ∧
      ∃ t, probeDevice card alloc physaddr pcidev ioaddr interrupt chipVersion no s =
        some (true, t) ∧ Running no interrupt t) ∨
    (¬ (KnownChip chipVersion ∧ RingsGranted alloc s.allocs ∧ interrupt.toNat < irqCount) ∧
      ∀ ended t, probeDevice card alloc physaddr pcidev ioaddr interrupt chipVersion no s =
        some (ended, t) → ended = false ∧ t.net.num = no + 1) := by
  unfold probeDevice
  simp only
  generalize entry : s.net.devs no.toNat = e
  generalize private_ : ({ (s.setDev no { e with
    doWork := some .doIrqWork, txPacket := some .txPacket }).privs e.priv with
    pcidev, ioaddr, interrupt, mii := 0, fdx := 0 } : Pcnet32Dev) = dev
  rcases chipFeatures_spec chipVersion dev with ⟨unknown, none⟩ | ⟨known, dev', some⟩
  · rw [none]
    refine Or.inr ⟨fun all => unknown all.1, ?_⟩
    intro ended t result
    cases result
    exact ⟨rfl, num⟩
  · rw [some]
    simp only
    generalize state : ProbeState.writeCsr _ _ _ = s₁
    have num₁ : s₁.net.num = no + 1 := by
      rw [← state]
      exact num
    have priv₁ : (s₁.net.devs no.toNat).priv = e.priv := by
      rw [← state]
      simp [ProbeState.writeCsr, ProbeState.setDev, ProbeState.setPriv]
    have allocs₁ : s₁.allocs = s.allocs := by
      rw [← state]
      rfl
    obtain ⟨granted, t, called, net, -, enough, rings⟩ := allocateRings_spec alloc e.priv s₁
    rw [allocs₁] at enough
    rw [called]
    cases granted with
    | false =>
        refine Or.inr ⟨fun all => absurd (enough.mpr all.2.1) (by decide), ?_⟩
        intro ended u result
        cases result
        rw [net]
        exact ⟨rfl, num₁⟩
    | true =>
        simp only
        rcases startCard_spec physaddr no e.priv interrupt t with ⟨outside, none⟩ |
          ⟨inside, u, done, net', kept, handler, installed⟩
        · rw [none]
          refine Or.inr ⟨fun all => absurd all.2.2 (Nat.not_lt.mpr outside), ?_⟩
          intro ended u result
          cases result
        · rw [done]
          obtain ⟨rx, tx, rd, td⟩ := kept (rings rfl)
          have entry' : (u.net.devs no.toNat).priv = e.priv := by rw [net', net, priv₁]
          refine Or.inl ⟨⟨known, enough.mp rfl, inside⟩, u, rfl, ?_⟩
          constructor
          · rw [net', net, num₁]
          all_goals
            rw [entry']
            assumption

end Proofs

/-- The call comes to its end with a running device, or nobody else notices it. -/
def RegistersWhole (card : Pcnet32Card) (alloc : Nat → UInt32 → UInt16 → UInt32)
    (physaddr : UInt32 → UInt32) (pcidev : UInt32) (ioaddr : UInt16) (interrupt : UInt8)
    (s : ProbeState) : Prop :=
  ∃ ended t, probePcnet32 card alloc physaddr pcidev ioaddr interrupt s = some (ended, t) ∧
    ((ended = true ∧ Running s.net.num interrupt t) ∨ Untouched s t)

def Pcnet32Card.version (card : Pcnet32Card) : UInt32 := card.csr 88 ||| card.csr 89 <<< 16

/-- No device is registered, or nothing goes wrong after that. -/
def FailsEarly (card : Pcnet32Card) (alloc : Nat → UInt32 → UInt16 → UInt32) (interrupt : UInt8)
    (s : ProbeState) : Prop :=
  card.version &&& 0xfff ≠ 0x003 ∨ s.net.num = netNumDevs ∨ alloc s.allocs pcnet32DevSize 1 = 0 ∨
    (KnownChip card.version ∧ RingsGranted alloc (s.allocs + 1) ∧ interrupt.toNat < irqCount)

/-- A probe that goes wrong after `alloc_netdev` leaves a device behind, and any other probe is
right. -/
theorem probe_registers_whole_iff (card : Pcnet32Card)
    (alloc : Nat → UInt32 → UInt16 → UInt32) (physaddr : UInt32 → UInt32) (pcidev : UInt32)
    (ioaddr : UInt16) (interrupt : UInt8) (s : ProbeState) :
    RegistersWhole card alloc physaddr pcidev ioaddr interrupt s ↔
      FailsEarly card alloc interrupt s := by
  have version : card.csr 88 ||| card.csr 89 <<< 16 = card.version := rfl
  unfold RegistersWhole FailsEarly probePcnet32
  rw [version]
  by_cases other : card.version &&& 0xfff ≠ 0x003
  · simp only [other, ne_eq, not_false_eq_true, ↓reduceIte, true_or, iff_true]
    exact ⟨_, _, rfl, Or.inr ⟨rfl, fun _ _ => rfl, rfl, rfl⟩⟩
  simp only [other, ↓reduceIte, false_or]
  rcases allocNetdev_spec alloc pcnet32DevSize s with ⟨failed, t, called, untouched⟩ |
    ⟨room, granted, t, called, grown, irq, allocs⟩
  · rw [called]
    constructor
    · intro _
      rcases failed with full | null
      · exact Or.inl full
      · exact Or.inr (Or.inl null)
    · exact fun _ => ⟨_, _, rfl, Or.inr untouched⟩
  rw [called]
  simp only [room, granted, false_or, ← allocs]
  rcases probeDevice_spec card alloc physaddr pcidev ioaddr interrupt card.version s.net.num t grown
    with ⟨complete, u, done, running⟩ | ⟨incomplete, left⟩
  · rw [done]
    exact ⟨fun _ => complete, fun _ => ⟨true, u, rfl, Or.inl ⟨rfl, running⟩⟩⟩
  · constructor
    · intro whole
      obtain ⟨ended, u, result, running | untouched⟩ := whole
      · exact absurd running.1 (by rw [(left ended u result).1]; decide)
      · exact absurd ((left ended u result).2.symm.trans untouched.num) (succ_ne s.net.num)
    · exact fun complete => absurd complete incomplete

theorem NetTable.empty_bound : 0 ≤ netNumDevs := by decide

/-- Before the first probe. -/
def unprobed (irq : IrqState) : ProbeState where
  net := ⟨fun _ => .cleared, 0, NetTable.empty_bound⟩
  privs := fun _ => default
  irq := irq
  written := []
  allocs := 0

/-- An Am79C973 for whose receive buffers there is no memory. -/
theorem failed_probe_leaves_device :
    ¬ ∀ card alloc physaddr pcidev ioaddr interrupt s,
      RegistersWhole card alloc physaddr pcidev ioaddr interrupt s := by
  intro claim
  let card : Pcnet32Card := ⟨fun index => if index = 89 then 0x0262 else 0x5003, fun _ => 0⟩
  let alloc : Nat → UInt32 → UInt16 → UInt32 := fun k _ _ => if k = 1 then 0 else 0xC0180000
  let start := unprobed ⟨fun _ => 0, fun _ => 0, ⟨⟨0, 0⟩, ⟨0, 0⟩⟩⟩
  obtain ⟨ended, t, result, whole⟩ := claim card alloc id 0 0xC000 11 start
  have jumped : (probePcnet32 card alloc id 0 0xC000 11 start).map
      (fun r => (r.1, r.2.net.num)) = some (false, 1) := by decide
  rw [result] at jumped
  obtain ⟨failed, counted⟩ := Prod.mk.inj (Option.some.inj jumped)
  rcases whole with running | untouched
  · exact absurd (failed.symm.trans running.1) (by decide)
  · exact absurd (counted.symm.trans untouched.num) (by decide)

end FrogOS
