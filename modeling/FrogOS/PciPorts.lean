import FrogOS.Numeral
import FrogOS.Pci
import FrogOS.Simulation

set_option autoImplicit false

namespace FrogOS

open Numeral Simulation

/-- The address that pci.c makes of a function and the offset of a register. -/
def configAddress (bus slot func offset : UInt8) : UInt32 :=
  (bus.toUInt32 <<< 16) ||| (slot.toUInt32 <<< 11) ||| (func.toUInt32 <<< 8) |||
    (offset.toUInt32 &&& 0xfc) ||| 0x80000000

/-- A card that `checkFunction` hands to `probe_pcnet32`. -/
def IsPcnet32 (space : ConfigSpace) (bus device function : UInt8) : Prop :=
  getVendorId space bus device function = 0x1022 ∧
    (getDeviceId space bus device function = 0x2000 ∨
      getDeviceId space bus device function = 0x2001)

/-- What a write to port 0xCFC does to configuration space: it changes no register but the one that
is written, and the lower three bits of such a card's command register are as written. -/
structure HostBridge where
  store : ConfigSpace → UInt32 → UInt32 → ConfigSpace
  frame : ∀ space address value other, other ≠ address →
    store space address value other = space other
  command : ∀ space bus device function value, IsPcnet32 space bus device function →
    let address := configAddress bus device function 4
    store space address value address &&& 7 = value &&& 7

/-- A bridge to plain memory. -/
instance : Inhabited HostBridge where
  default :=
    { store := fun space address value other => if other = address then value else space other
      frame := fun _ _ _ _ differ => if_neg differ
      command := fun _ _ _ _ value _ => congrArg (· &&& 7) (if_pos rfl : _ = value) }

/-- The address last written to 0xCF8, and the writes to 0xCFC in their order. -/
structure PciHost where
  address : UInt32
  space : ConfigSpace
  stored : List (UInt32 × UInt32)

namespace PciHost

section Ports

variable (bridge : HostBridge) (h : PciHost)

def outportl (port : UInt16) (value : UInt32) : PciHost :=
  if port = 0xCF8 then { h with address := value }
  else if port = 0xCFC then
    { h with
      space := bridge.store h.space h.address value
      stored := h.stored ++ [(h.address, value)] }
  else h

def inportl (port : UInt16) : UInt32 :=
  if port = 0xCFC then h.space h.address
  else if port = 0xCF8 then h.address
  else 0xFFFFFFFF

variable (bus slot func offset : UInt8)

def pciConfigReadWord : UInt16 × PciHost :=
  let h := h.outportl bridge 0xCF8 (configAddress bus slot func offset)
  (((h.inportl 0xCFC >>> ((offset &&& 2) * 8).toUInt32) &&& 0xffff).toUInt16, h)

def pciConfigReadDword : UInt32 × PciHost :=
  let h := h.outportl bridge 0xCF8 (configAddress bus slot func offset)
  (h.inportl 0xCFC, h)

def pciConfigWriteDword (conf : UInt32) : PciHost :=
  let h := h.outportl bridge 0xCF8 (configAddress bus slot func offset)
  h.outportl bridge 0xCFC conf

def pciAdjust (dev : PciDev) : PciHost :=
  let (conf, h) := h.pciConfigReadDword bridge dev.bus dev.device dev.function 4
  h.pciConfigWriteDword bridge dev.bus dev.device dev.function 4 (conf ||| 7)

def getVendorId : UInt16 × PciHost := h.pciConfigReadWord bridge bus slot func 0

def getDeviceId : UInt16 × PciHost := h.pciConfigReadWord bridge bus slot func 2

def getHeaderType : UInt8 × PciHost :=
  let (word, h) := h.pciConfigReadWord bridge bus slot func 0xE
  ((word &&& 0xFF).toUInt8, h)

def getBaseClass : UInt8 × PciHost :=
  let (word, h) := h.pciConfigReadWord bridge bus slot func 0xA
  ((word >>> 8).toUInt8, h)

def getSubClass : UInt8 × PciHost :=
  let (word, h) := h.pciConfigReadWord bridge bus slot func 0xA
  ((word &&& 0xff).toUInt8, h)

def getSecondaryBus : UInt8 × PciHost :=
  let (word, h) := h.pciConfigReadWord bridge bus slot func 0x18
  ((word >>> 8).toUInt8, h)

def getProgIf : UInt8 × PciHost :=
  let (word, h) := h.pciConfigReadWord bridge bus slot func 0x8
  ((word >>> 8).toUInt8, h)

end Ports

end PciHost

/-- The host bridge, the globals of pci.c, its calls of `printf` with their arguments, and what the
first argument of each call of `probe_pcnet32` points to. -/
structure PciSystem where
  host : PciHost
  pci : PciState
  prints : List (List UInt8 × List UInt32)
  probed : List PciDev

namespace PciSystem

section Functions

-- Whether the first, the second and so on of the probes comes to its call of `pci_adjust`.
variable (bridge : HostBridge) (adjusts : Nat → Bool)

/-- A round of the loop over the bars. -/
def printBar (bus device function : UInt8) (sys : PciSystem) (bar : UInt8) : PciSystem :=
  let (barValue, host) := sys.host.pciConfigReadDword bridge bus device function (0x10 + bar * 0x4)
  let sys := { sys with host }
  if barValue ≠ 0 then
    { sys with prints := sys.prints ++ [(asciiText "BAR%d: 0x%08x\n", [bar.toUInt32, barValue])] }
  else sys

def printFunction (bus device function : UInt8) (sys : PciSystem) : PciSystem :=
  let (vendorId, h) := sys.host.getVendorId bridge bus device function
  let (deviceId, h) := h.getDeviceId bridge bus device function
  let (baseClass, h) := h.getBaseClass bridge bus device function
  let (subClass, h) := h.getSubClass bridge bus device function
  let (progIf, h) := h.getProgIf bridge bus device function
  let (subsystemVendorId, h) := h.pciConfigReadWord bridge bus device function 0x2C
  let (subsystemId, h) := h.pciConfigReadWord bridge bus device function 0x2E
  let (interrupt, h) := h.pciConfigReadWord bridge bus device function 0x3C
  let line := (asciiText "PCI: (%d,%d,%d) %x:%x %x:%x %x-%x-%x %04x\n",
    [bus.toUInt32, device.toUInt32, function.toUInt32, vendorId.toUInt32, deviceId.toUInt32,
      subsystemVendorId.toUInt32, subsystemId.toUInt32, baseClass.toUInt32, subClass.toUInt32,
      progIf.toUInt32, interrupt.toUInt32])
  let sys := { sys with host := h, prints := sys.prints ++ [line] }
  [0, 1, 2, 3, 4, 5].foldl (printBar bridge bus device function) sys

/-- The call of `probe_pcnet32`, of which only `pci_adjust` touches configuration space. -/
def probePcnet32 (dev : PciDev) (probe : Probe) (sys : PciSystem) : PciSystem :=
  let sys :=
    { sys with
      pci := { sys.pci with probes := sys.pci.probes ++ [probe] }
      probed := sys.probed ++ [dev] }
  if adjusts sys.probed.length then { sys with host := sys.host.pciAdjust bridge dev } else sys

/-- The part of `checkFunction` for a card. -/
def checkCard (dev : PciDev) (sys : PciSystem) : PciSystem :=
  if dev.vendorId = 0x1022 ∧ (dev.deviceId = 0x2000 ∨ dev.deviceId = 0x2001) then
    let sys := sys.printFunction bridge dev.bus dev.device dev.function
    let (interrupt, h) := sys.host.pciConfigReadWord bridge dev.bus dev.device dev.function 0x3C
    let (ioaddr, h) := h.pciConfigReadWord bridge dev.bus dev.device dev.function 0x10
    probePcnet32 bridge adjusts dev
      ⟨sys.pci.numdevs, (ioaddr &&& 0xFFFC).toUInt32, (interrupt &&& 0xff).toUInt8⟩
      { sys with host := h }
  else sys

/-- What `checkFunction` does before it looks for a bridge. -/
def record (baseClass : UInt8) (dev : PciDev) (sys : PciSystem) : PciSystem :=
  let pcidevs := fun i => if i = sys.pci.numdevs.toNat then dev else sys.pci.pcidevs i
  let sys := { sys with pci := { sys.pci with pcidevs } }
  let sys :=
    if dev.vendorId = 0x8086 ∧ baseClass = 2 then
      sys.printFunction bridge dev.bus dev.device dev.function
    else sys
  let sys := checkCard bridge adjusts dev sys
  { sys with pci := { sys.pci with numdevs := sys.pci.numdevs + 1 } }

/-- `checkBus` is the recursive call. -/
def checkFunction (checkBus : UInt8 → PciSystem → Option PciSystem) (bus device function : UInt8)
    (sys : PciSystem) : Option PciSystem :=
  let (baseClass, h) := sys.host.getBaseClass bridge bus device function
  let (subClass, h) := h.getSubClass bridge bus device function
  let (vendorId, h) := h.getVendorId bridge bus device function
  let (deviceId, h) := h.getDeviceId bridge bus device function
  let sys := record bridge adjusts baseClass { bus, device, function, vendorId, deviceId }
    { sys with host := h }
  if baseClass = 0x06 ∧ subClass = 0x04 then
    let (secondaryBus, h) := sys.host.getSecondaryBus bridge bus device function
    checkBus secondaryBus { sys with host := h }
  else some sys

/-- One round of the loop over functions 1 to 7. -/
def checkOther (checkBus : UInt8 → PciSystem → Option PciSystem) (bus device : UInt8)
    (sys : PciSystem) (function : UInt8) : Option PciSystem :=
  let (vendorId, h) := sys.host.getVendorId bridge bus device function
  let sys := { sys with host := h }
  if vendorId ≠ 0xFFFF then checkFunction bridge adjusts checkBus bus device function sys
  else some sys

def checkDevice (checkBus : UInt8 → PciSystem → Option PciSystem) (bus : UInt8) (sys : PciSystem)
    (device : UInt8) : Option PciSystem :=
  let (vendorId, h) := sys.host.getVendorId bridge bus device 0
  let sys := { sys with host := h }
  if vendorId = 0xFFFF then some sys
  else do
    let sys ← checkFunction bridge adjusts checkBus bus device 0 sys
    let (headerType, h) := sys.host.getHeaderType bridge bus device 0
    let sys := { sys with host := h }
    if headerType &&& 0x80 ≠ 0 then
      [1, 2, 3, 4, 5, 6, 7].foldlM (checkOther bridge adjusts checkBus bus device) sys
    else some sys

/-- `none` when the calls nest deeper than `fuel`. -/
def checkBus : Nat → UInt8 → PciSystem → Option PciSystem
  | 0, _, _ => none
  | fuel + 1, bus, sys => devices.foldlM (checkDevice bridge adjusts (checkBus fuel) bus) sys

/-- The loop of `checkAllBuses` with its condition `function>8`. -/
def hostLoop (checkBus : UInt8 → PciSystem → Option PciSystem) :
    Nat → UInt8 → PciSystem → Option PciSystem
  | 0, _, sys => some sys
  | rounds + 1, function, sys =>
      if function > 8 then
        let (vendorId, h) := sys.host.getVendorId bridge 0 0 function
        let sys := { sys with host := h }
        if vendorId ≠ 0xFFFF then some sys
        else (checkBus function sys).bind (hostLoop checkBus rounds (function + 1))
      else some sys

def checkAllBuses (fuel : Nat) (sys : PciSystem) : Option PciSystem :=
  let (headerType, h) := sys.host.getHeaderType bridge 0 0 0
  let sys := { sys with host := h }
  if headerType &&& 0x80 = 0 then checkBus bridge adjusts fuel 0 sys
  else hostLoop bridge (checkBus bridge adjusts fuel) 256 0 sys

def pciInit (fuel : Nat) (sys : PciSystem) : Option PciSystem :=
  checkAllBuses bridge adjusts fuel sys

end Functions

end PciSystem

/-- The register that an address names is in its low byte. -/
theorem configAddress_low (bus slot func offset : UInt8) :
    (configAddress bus slot func offset).toNat % 2 ^ 8 = (offset &&& 0xfc).toNat := by
  have shifted (x : UInt8) (k : UInt32) (far : 8 ≤ k.toNat % 32) :
      (x.toUInt32 <<< k).toNat % 2 ^ 8 = 0 := by
    rw [UInt32.toNat_shiftLeft, Nat.mod_mod_of_dvd _ (by decide : 2 ^ 8 ∣ 2 ^ 32), Nat.shiftLeft_eq]
    exact Nat.mod_eq_zero_of_dvd ((Nat.pow_dvd_pow 2 far).mul_left _)
  have masked : (offset.toUInt32 &&& 0xfc).toNat = (offset &&& 0xfc).toNat := by
    rw [UInt32.toNat_and, UInt8.toNat_and, UInt8.toNat_toUInt32]
    rfl
  have enable : (0x80000000 : UInt32).toNat % 2 ^ 8 = 0 := by decide
  simp only [configAddress, UInt32.toNat_or, Nat.or_mod_two_pow]
  rw [shifted bus 16 (by decide), shifted slot 11 (by decide), shifted func 8 (by decide), masked,
    enable, Nat.mod_eq_of_lt (offset &&& 0xfc).toNat_lt]
  simp only [Nat.zero_or, Nat.or_zero]

/-- The command register of a function. -/
def commandRegister (dev : PciDev) : UInt32 := configAddress dev.bus dev.device dev.function 4

/-- The cards among the probed ones whose probe comes to `pci_adjust`. -/
def adjusted (adjusts : Nat → Bool) (probed : List PciDev) : List PciDev :=
  ((probed.zipIdx 1).filter fun p => adjusts p.2).map Prod.fst

/-- A call of `probe_pcnet32` with the record of a card, its base address and its interrupt. -/
structure ProbeOf (space : ConfigSpace) (dev : PciDev) (probe : Probe) : Prop where
  record : dev = pciDev space dev.bus dev.device dev.function
  card : IsPcnet32 space dev.bus dev.device dev.function
  ioaddr : probe.ioaddr =
    (FrogOS.pciConfigReadWord space dev.bus dev.device dev.function 0x10 &&& 0xFFFC).toUInt32
  interrupt : probe.interrupt =
    (FrogOS.pciConfigReadWord space dev.bus dev.device dev.function 0x3C &&& 0xff).toUInt8

/-- The registers written are the command registers of the cards in the list, and their lower bits
are set. -/
structure Touched (space : ConfigSpace) (h : PciHost) (devs : List PciDev) : Prop where
  stored : h.stored.map Prod.fst = devs.map commandRegister
  other : ∀ address, (∀ dev ∈ devs, commandRegister dev ≠ address) →
    h.space address = space address
  cards : ∀ dev ∈ devs, IsPcnet32 space dev.bus dev.device dev.function
  set : ∀ dev ∈ devs, h.space (commandRegister dev) &&& 7 = 7

section Reads

variable {bridge : HostBridge} {space : ConfigSpace} {h : PciHost} {devs : List PciDev}
  {bus slot func offset : UInt8}

/-- What a read leaves. -/
def PciHost.latch (h : PciHost) (address : UInt32) : PciHost := { h with address }

namespace Touched

theorem latch (touched : Touched space h devs) (address : UInt32) :
    Touched space (h.latch address) devs :=
  ⟨touched.stored, touched.other, touched.cards, touched.set⟩

/-- Any register but the one of the command reads as before. -/
theorem same (touched : Touched space h devs) (apart : offset &&& 0xfc ≠ 4) :
    h.space (configAddress bus slot func offset) = space (configAddress bus slot func offset) := by
  apply touched.other
  intro dev member equal
  have low := configAddress_low bus slot func offset
  rw [← equal, commandRegister, configAddress_low] at low
  exact apart (UInt8.toNat_inj.mp low.symm)

theorem word (touched : Touched space h devs) (apart : offset &&& 0xfc ≠ 4) :
    FrogOS.pciConfigReadWord h.space bus slot func offset =
      FrogOS.pciConfigReadWord space bus slot func offset := by
  have same := @same space h devs bus slot func offset touched apart
  rw [configAddress] at same
  rw [FrogOS.pciConfigReadWord, same]
  rfl

theorem readWord (touched : Touched space h devs) (apart : offset &&& 0xfc ≠ 4) :
    h.pciConfigReadWord bridge bus slot func offset =
      (FrogOS.pciConfigReadWord space bus slot func offset,
        h.latch (configAddress bus slot func offset)) := by
  rw [← touched.word apart]
  rfl

theorem vendorId (touched : Touched space h devs) : h.getVendorId bridge bus slot func =
    (FrogOS.getVendorId space bus slot func, h.latch (configAddress bus slot func 0)) :=
  touched.readWord (by decide)

theorem deviceId (touched : Touched space h devs) : h.getDeviceId bridge bus slot func =
    (FrogOS.getDeviceId space bus slot func, h.latch (configAddress bus slot func 2)) :=
  touched.readWord (by decide)

theorem headerType (touched : Touched space h devs) : h.getHeaderType bridge bus slot func =
    (FrogOS.getHeaderType space bus slot func, h.latch (configAddress bus slot func 0xE)) := by
  rw [PciHost.getHeaderType, touched.readWord (by decide)]
  rfl

theorem baseClass (touched : Touched space h devs) : h.getBaseClass bridge bus slot func =
    (FrogOS.getBaseClass space bus slot func, h.latch (configAddress bus slot func 0xA)) := by
  rw [PciHost.getBaseClass, touched.readWord (by decide)]
  rfl

theorem subClass (touched : Touched space h devs) : h.getSubClass bridge bus slot func =
    (FrogOS.getSubClass space bus slot func, h.latch (configAddress bus slot func 0xA)) := by
  rw [PciHost.getSubClass, touched.readWord (by decide)]
  rfl

theorem secondaryBus (touched : Touched space h devs) : h.getSecondaryBus bridge bus slot func =
    (FrogOS.getSecondaryBus space bus slot func, h.latch (configAddress bus slot func 0x18)) := by
  rw [PciHost.getSecondaryBus, touched.readWord (by decide)]
  rfl

theorem isPcnet32 (touched : Touched space h devs) :
    IsPcnet32 h.space bus slot func ↔ IsPcnet32 space bus slot func := by
  rw [IsPcnet32, IsPcnet32, FrogOS.getVendorId, FrogOS.getDeviceId, touched.word (by decide),
    touched.word (by decide)]
  rfl

/-- `pci_adjust` of a card. -/
theorem adjust (touched : Touched space h devs) {dev : PciDev}
    (card : IsPcnet32 space dev.bus dev.device dev.function) :
    Touched space (h.pciAdjust bridge dev) (devs ++ [dev]) := by
  let a := commandRegister dev
  let v := h.space a ||| 7
  have done : h.pciAdjust bridge dev =
      { address := a, space := bridge.store h.space a v, stored := h.stored ++ [(a, v)] } := rfl
  have bits : v &&& 7 = 7 := by
    apply UInt32.toNat_inj.mp
    rw [UInt32.toNat_and, UInt32.toNat_or]
    apply Nat.eq_of_testBit_eq
    intro i
    rw [Nat.testBit_and, Nat.testBit_or]
    cases (7 : UInt32).toNat.testBit i <;> simp
  rw [done]
  constructor
  · rw [List.map_append, List.map_append, touched.stored]
    rfl
  · intro address none
    rw [List.forall_mem_append] at none
    have new : address ≠ a := (none.2 dev List.mem_cons_self).symm
    change bridge.store h.space a v address = _
    rw [bridge.frame h.space a v address new]
    exact touched.other address none.1
  · intro other member
    rcases List.mem_append.mp member with old | new
    · exact touched.cards other old
    · rw [List.mem_singleton.mp new]
      exact card
  · intro other member
    change bridge.store h.space a v (commandRegister other) &&& 7 = 7
    have here : bridge.store h.space a v a &&& 7 = 7 :=
      (bridge.command h.space _ _ _ v (touched.isPcnet32.mpr card)).trans bits
    by_cases same : commandRegister other = a
    · rw [same]
      exact here
    · rcases List.mem_append.mp member with old | new
      · rw [bridge.frame h.space a v _ same]
        exact touched.set other old
      · exact absurd (congrArg commandRegister (List.mem_singleton.mp new)) same

end Touched

end Reads

section Adjusted

variable {adjusts : Nat → Bool} {probed : List PciDev} {dev : PciDev}

theorem adjusted_append (adjusts : Nat → Bool) (probed : List PciDev) (dev : PciDev) :
    adjusted adjusts (probed ++ [dev]) =
      adjusted adjusts probed ++ if adjusts (probed.length + 1) then [dev] else [] := by
  rw [adjusted, List.zipIdx_append, List.filter_append, List.map_append, Nat.add_comm 1]
  cases reaches : adjusts (probed.length + 1) <;> simp [adjusted, reaches]

end Adjusted

/-- The enumeration through the ports stands where the one of `Pci` does, has probed the cards that
the new probes are of, and has left configuration space as it was but for the command registers of
those of them that come to `pci_adjust`. -/
structure Mirrors (space : ConfigSpace) (adjusts : Nat → Bool) (before : List Probe)
    (sys : PciSystem) (s : PciState) : Prop where
  pci : sys.pci = s
  touched : Touched space sys.host (adjusted adjusts sys.probed)
  probes : ∃ made, s.probes = before ++ made ∧ List.Forall₂ (ProbeOf space) sys.probed made

section Steps

variable (bridge : HostBridge) (adjusts : Nat → Bool) {space : ConfigSpace} {before : List Probe}
  {sys : PciSystem} {s : PciState}

theorem Mirrors.latch {adjusts : Nat → Bool} (mirrors : Mirrors space adjusts before sys s)
    (address : UInt32) : Mirrors space adjusts before { sys with host := sys.host.latch address } s :=
  ⟨mirrors.pci, mirrors.touched.latch address, mirrors.probes⟩

/-- What reads and prints leave. -/
theorem Mirrors.shown {adjusts : Nat → Bool} (mirrors : Mirrors space adjusts before sys s)
    (address : UInt32) (prints : List (List UInt8 × List UInt32)) :
    Mirrors space adjusts before ⟨sys.host.latch address, sys.pci, prints, sys.probed⟩ s :=
  ⟨mirrors.pci, mirrors.touched.latch address, mirrors.probes⟩

/-- Printing reads registers and nothing else. -/
theorem Mirrors.printBar {adjusts : Nat → Bool} (mirrors : Mirrors space adjusts before sys s)
    (bus device function bar : UInt8) :
    Mirrors space adjusts before (sys.printBar bridge bus device function bar) s := by
  have read := mirrors.latch (configAddress bus device function (0x10 + bar * 0x4))
  rw [PciSystem.printBar]
  dsimp only
  split_ifs
  · exact mirrors.shown _ _
  · exact read

theorem Mirrors.printFunction {adjusts : Nat → Bool} (mirrors : Mirrors space adjusts before sys s)
    (bus device function : UInt8) :
    Mirrors space adjusts before (sys.printFunction bridge bus device function) s := by
  have bars (run : List UInt8) (sys : PciSystem) (mirrors : Mirrors space adjusts before sys s) :
      Mirrors space adjusts before
        (run.foldl (PciSystem.printBar bridge bus device function) sys) s := by
    induction run generalizing sys with
    | nil => exact mirrors
    | cons bar run ih => exact ih _ (mirrors.printBar bridge bus device function bar)
  rw [PciSystem.printFunction]
  apply bars
  exact mirrors.shown _ _

/-- A probe writes at most the command register of its card. -/
theorem Mirrors.probePcnet32 (mirrors : Mirrors space adjusts before sys s) {dev : PciDev}
    {probe : Probe} (own : ProbeOf space dev probe) :
    Mirrors space adjusts before (sys.probePcnet32 bridge adjusts dev probe)
      { s with probes := s.probes ++ [probe] } := by
  have pci := congrArg (fun s : PciState => { s with probes := s.probes ++ [probe] }) mirrors.pci
  obtain ⟨made, behind, calls⟩ := mirrors.probes
  have probes : ∃ made, s.probes ++ [probe] = before ++ made ∧
      List.Forall₂ (ProbeOf space) (sys.probed ++ [dev]) made :=
    ⟨made ++ [probe], by rw [behind, List.append_assoc], List.rel_append calls (.cons own .nil)⟩
  have list := adjusted_append adjusts sys.probed dev
  rw [PciSystem.probePcnet32]
  dsimp only
  rw [List.length_append, List.length_singleton]
  split_ifs with reaches
  · refine ⟨pci, ?_, probes⟩
    rw [if_pos reaches] at list
    rw [list]
    exact mirrors.touched.adjust own.card
  · refine ⟨pci, ?_, probes⟩
    rw [if_neg reaches, List.append_nil] at list
    rw [list]
    exact mirrors.touched

theorem Mirrors.checkCard (mirrors : Mirrors space adjusts before sys s) {dev : PciDev}
    (vendor : dev.vendorId = getVendorId space dev.bus dev.device dev.function)
    (device : dev.deviceId = getDeviceId space dev.bus dev.device dev.function) :
    Mirrors space adjusts before (sys.checkCard bridge adjusts dev)
      { s with probes := (record space s dev).probes } := by
  by_cases card : dev.vendorId = 0x1022 ∧ (dev.deviceId = 0x2000 ∨ dev.deviceId = 0x2001)
  · have isCard : IsPcnet32 space dev.bus dev.device dev.function := by
      rw [IsPcnet32, ← vendor, ← device]
      exact card
    have same : dev = pciDev space dev.bus dev.device dev.function := by
      rw [pciDev, ← vendor, ← device]
    have printed := mirrors.printFunction bridge dev.bus dev.device dev.function
    rw [PciSystem.checkCard, if_pos card, record, if_pos card]
    generalize sys.printFunction bridge dev.bus dev.device dev.function = base at printed ⊢
    obtain ⟨host, pci, prints, probed⟩ := base
    obtain ⟨rfl, touched, probes⟩ := printed
    have interrupt := @Touched.readWord bridge space host _ dev.bus dev.device dev.function 0x3C
      touched (by decide)
    have read := touched.latch (configAddress dev.bus dev.device dev.function 0x3C)
    have ioaddr := @Touched.readWord bridge space _ _ dev.bus dev.device dev.function 0x10
      read (by decide)
    have start : Mirrors space adjusts before ⟨_, pci, prints, probed⟩ pci :=
      ⟨rfl, read.latch (configAddress dev.bus dev.device dev.function 0x10), probes⟩
    simp only [interrupt, ioaddr]
    exact start.probePcnet32 bridge adjusts ⟨same, isCard, rfl, rfl⟩
  · rw [PciSystem.checkCard, if_neg card, record, if_neg card]
    exact mirrors

theorem Mirrors.printIf (mirrors : Mirrors space adjusts before sys s) (p : Prop) [Decidable p]
    (bus device function : UInt8) :
    Mirrors space adjusts before
      (if p then sys.printFunction bridge bus device function else sys) s := by
  split_ifs
  · exact mirrors.printFunction bridge bus device function
  · exact mirrors

theorem record_probes (space : ConfigSpace) {s t : PciState} (numdevs : s.numdevs = t.numdevs)
    (probes : s.probes = t.probes) (dev : PciDev) :
    (record space s dev).probes = (record space t dev).probes := by
  simp only [record, numdevs, probes]

/-- What `checkFunction` does before it looks for a bridge. -/
theorem Mirrors.record (mirrors : Mirrors space adjusts before sys s) {dev : PciDev}
    (baseClass : UInt8)
    (vendor : dev.vendorId = getVendorId space dev.bus dev.device dev.function)
    (device : dev.deviceId = getDeviceId space dev.bus dev.device dev.function) :
    Mirrors space adjusts before (sys.record bridge adjusts baseClass dev)
      (record space s dev) := by
  obtain ⟨host, pci, prints, probed⟩ := sys
  obtain ⟨rfl, touched, probes⟩ := mirrors
  let entered : PciState :=
    { pci with pcidevs := fun i => if i = pci.numdevs.toNat then dev else pci.pcidevs i }
  have start : Mirrors space adjusts before ⟨host, entered, prints, probed⟩ entered :=
    ⟨rfl, touched, probes⟩
  have shown := start.printIf bridge adjusts (dev.vendorId = 0x8086 ∧ baseClass = 2) dev.bus
    dev.device dev.function
  have checked := shown.checkCard bridge adjusts vendor device
  rw [record_probes space (show entered.numdevs = pci.numdevs from rfl) rfl] at checked
  rw [PciSystem.record]
  generalize PciSystem.checkCard bridge adjusts dev _ = after at checked ⊢
  obtain ⟨host', pci', prints', probed'⟩ := after
  obtain ⟨rfl, touched', probes'⟩ := checked
  exact ⟨rfl, touched', probes'⟩

section Calls

variable {check : UInt8 → PciSystem → Option PciSystem}
  {check' : UInt8 → PciState → Option PciState}
  (calls : ∀ bus sys s, Mirrors space adjusts before sys s →
    Option.Rel (Mirrors space adjusts before) (check bus sys) (check' bus s))
include calls

/-- One function, if the recursive calls agree. -/
theorem checkFunction_mirrors (mirrors : Mirrors space adjusts before sys s)
    (bus device function : UInt8) :
    Option.Rel (Mirrors space adjusts before)
      (sys.checkFunction bridge adjusts check bus device function)
      (checkFunction space check' bus device function s) := by
  obtain ⟨host, pci, prints, probed⟩ := sys
  obtain ⟨rfl, touched, probes⟩ := mirrors
  have base := @Touched.baseClass bridge space host _ bus device function touched
  have read₁ := touched.latch (configAddress bus device function 0xA)
  have sub := @Touched.subClass bridge space _ _ bus device function read₁
  have read₂ := read₁.latch (configAddress bus device function 0xA)
  have vendor := @Touched.vendorId bridge space _ _ bus device function read₂
  have read₃ := read₂.latch (configAddress bus device function 0)
  have chip := @Touched.deviceId bridge space _ _ bus device function read₃
  have read₄ := read₃.latch (configAddress bus device function 2)
  rw [PciSystem.checkFunction, checkFunction]
  simp only [base, sub, vendor, chip]
  generalize PciHost.latch _ _ = host' at read₄ ⊢
  have start : Mirrors space adjusts before ⟨host', pci, prints, probed⟩ pci :=
    ⟨rfl, read₄, probes⟩
  have recorded : Mirrors space adjusts before _
      (record space pci (pciDev space bus device function)) :=
    start.record bridge adjusts (getBaseClass space bus device function) rfl rfl
  have test : isBridge space bus device function = true ↔
      getBaseClass space bus device function = 6 ∧ getSubClass space bus device function = 4 := by
    rw [isBridge, Bool.and_eq_true, decide_eq_true_iff, decide_eq_true_iff]
  by_cases isBridge : getBaseClass space bus device function = 6 ∧
      getSubClass space bus device function = 4
  · have below := @Touched.secondaryBus bridge space _ _ bus device function recorded.touched
    rw [if_pos isBridge, if_pos (test.mpr isBridge)]
    rw [pciDev] at below
    rw [below]
    exact calls _ _ _ (recorded.latch _)
  · rw [if_neg isBridge, if_neg (mt test.mp isBridge)]
    exact .some recorded

theorem checkOther_mirrors (mirrors : Mirrors space adjusts before sys s)
    (bus device function : UInt8) :
    Option.Rel (Mirrors space adjusts before)
      (sys.checkOther bridge adjusts check bus device function)
      (checkOther space check' bus device s function) := by
  have vendor := @Touched.vendorId bridge space _ _ bus device function mirrors.touched
  rw [PciSystem.checkOther, checkOther, vendor]
  dsimp only
  split_ifs
  · exact checkFunction_mirrors bridge adjusts calls (mirrors.latch _) bus device function
  · exact .some (mirrors.latch _)

theorem checkDevice_mirrors (mirrors : Mirrors space adjusts before sys s) (bus device : UInt8) :
    Option.Rel (Mirrors space adjusts before) (sys.checkDevice bridge adjusts check bus device)
      (checkDevice space check' bus s device) := by
  have vendor := @Touched.vendorId bridge space _ _ bus device 0 mirrors.touched
  rw [PciSystem.checkDevice, checkDevice, vendor]
  dsimp only
  by_cases none : getVendorId space bus device 0 = 0xFFFF
  · rw [if_pos none, if_pos none]
    exact .some (mirrors.latch _)
  · rw [if_neg none, if_neg none]
    apply rel_bind (checkFunction_mirrors bridge adjusts calls (mirrors.latch _) bus device 0)
    intro sys' s' mirrors'
    have header := @Touched.headerType bridge space _ _ bus device 0 mirrors'.touched
    rw [header]
    dsimp only
    split_ifs
    · exact rel_foldlM (fun function _ _ _ related =>
        checkOther_mirrors bridge adjusts calls related bus device function) (mirrors'.latch _)
    · exact .some (mirrors'.latch _)

theorem hostLoop_mirrors (rounds : Nat) (function : UInt8)
    (mirrors : Mirrors space adjusts before sys s) :
    Option.Rel (Mirrors space adjusts before) (sys.hostLoop bridge check rounds function)
      (hostLoop space check' rounds function s) := by
  induction rounds generalizing function sys s with
  | zero => exact .some mirrors
  | succ rounds ih =>
      have vendor := @Touched.vendorId bridge space _ _ 0 0 function mirrors.touched
      rw [PciSystem.hostLoop, hostLoop, vendor]
      dsimp only
      split_ifs
      · exact .some (mirrors.latch _)
      · exact rel_bind (calls function _ _ (mirrors.latch _)) fun _ _ related =>
          ih (function + 1) related
      · exact .some mirrors

end Calls

/-- The loops and the recursion. -/
theorem checkBus_mirrors (fuel : Nat) (bus : UInt8) (mirrors : Mirrors space adjusts before sys s) :
    Option.Rel (Mirrors space adjusts before) (sys.checkBus bridge adjusts fuel bus)
      (checkBus space fuel bus s) := by
  induction fuel generalizing bus sys s with
  | zero => exact .none
  | succ fuel ih =>
      rw [PciSystem.checkBus, checkBus]
      exact rel_foldlM (fun device _ _ _ related =>
        checkDevice_mirrors bridge adjusts (fun bus _ _ => ih bus) related bus device) mirrors

end Steps

/-- Through the ports, with the probes writing to their cards in between, `pci_init` finds what it
finds in configuration space as it was. Each new probe is of a card that it was handed the record
of; the cards whose probes come to `pci_adjust` are written to once each, in their order, and have
I/O, memory and bus mastering enabled; and no register but the command registers of these has
changed. -/
theorem pciInit_through_ports (bridge : HostBridge) (adjusts : Nat → Bool) (latched : UInt32)
    (space : ConfigSpace) (s : PciState) (prints : List (List UInt8 × List UInt32)) (fuel : Nat) :
    Option.Rel (fun (sys : PciSystem) t => sys.pci = t ∧
        (∃ made, t.probes = s.probes ++ made ∧ List.Forall₂ (ProbeOf space) sys.probed made) ∧
        sys.host.stored.map Prod.fst = (adjusted adjusts sys.probed).map commandRegister ∧
        (∀ dev ∈ adjusted adjusts sys.probed, sys.host.space (commandRegister dev) &&& 7 = 7) ∧
        ∀ address, sys.host.space address ≠ space address →
          ∃ dev ∈ adjusted adjusts sys.probed, commandRegister dev = address)
      ((PciSystem.mk ⟨latched, space, []⟩ s prints []).pciInit bridge adjusts fuel)
      (pciInit space fuel s) := by
  have start : Mirrors space adjusts s.probes ⟨⟨latched, space, []⟩, s, prints, []⟩ s :=
    ⟨rfl, ⟨rfl, fun _ _ => rfl, by simp [adjusted], by simp [adjusted]⟩,
      [], (List.append_nil _).symm, .nil⟩
  have header := @Touched.headerType bridge space ⟨latched, space, []⟩ _ 0 0 0 start.touched
  have run : Option.Rel (Mirrors space adjusts s.probes)
      ((PciSystem.mk ⟨latched, space, []⟩ s prints []).pciInit bridge adjusts fuel)
      (pciInit space fuel s) := by
    rw [PciSystem.pciInit, pciInit, PciSystem.checkAllBuses, checkAllBuses, header]
    dsimp only
    split_ifs
    · exact checkBus_mirrors bridge adjusts fuel 0 (start.latch _)
    · exact hostLoop_mirrors bridge adjusts
        (fun bus _ _ => checkBus_mirrors bridge adjusts fuel bus) 256 0 (start.latch _)
  refine rel_mono run fun sys t mirrors => ⟨mirrors.pci, mirrors.probes, mirrors.touched.stored,
    mirrors.touched.set, ?_⟩
  intro address changed
  by_contra untouched
  push Not at untouched
  exact changed (mirrors.touched.other address untouched)

end FrogOS
