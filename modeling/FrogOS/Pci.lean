import FrogOS.TreeWalk

set_option autoImplicit false

namespace FrogOS

open TreeWalk Relation

/-- The host bridge's answer at port 0xCFC to every address written to 0xCF8. -/
abbrev ConfigSpace := UInt32 → UInt32

structure PciDev where
  bus : UInt8
  device : UInt8
  function : UInt8
  vendorId : UInt16
  deviceId : UInt16
deriving DecidableEq, Repr

/-- The arguments of a call of `probe_pcnet32`; the first is an index into the table. -/
structure Probe where
  index : UInt16
  ioaddr : UInt32
  interrupt : UInt8
deriving DecidableEq, Repr

/-- The globals of pci.c, with the table as the memory from `pcidevs` on. The
calls of `probe_pcnet32` are kept in order; none of them touches the table. -/
structure PciState where
  pcidevs : Nat → PciDev
  numdevs : UInt16
  probes : List Probe

/-- The globals before `pci_init`: .bss is zero. -/
def pciStart : PciState where
  pcidevs := fun _ => ⟨0, 0, 0, 0, 0⟩
  numdevs := 0
  probes := []

def pciConfigReadWord (space : ConfigSpace) (bus slot func offset : UInt8) : UInt16 :=
  let address := (bus.toUInt32 <<< 16) ||| (slot.toUInt32 <<< 11) ||| (func.toUInt32 <<< 8) |||
    (offset.toUInt32 &&& 0xfc) ||| 0x80000000
  ((space address >>> ((offset &&& 2) * 8).toUInt32) &&& 0xffff).toUInt16

section Fields

variable (space : ConfigSpace) (bus slot function : UInt8)

def getVendorId : UInt16 := pciConfigReadWord space bus slot function 0

def getDeviceId : UInt16 := pciConfigReadWord space bus slot function 2

def getHeaderType : UInt8 := (pciConfigReadWord space bus slot function 0xE &&& 0xFF).toUInt8

def getBaseClass : UInt8 := (pciConfigReadWord space bus slot function 0xA >>> 8).toUInt8

def getSubClass : UInt8 := (pciConfigReadWord space bus slot function 0xA &&& 0xff).toUInt8

def getSecondaryBus : UInt8 := (pciConfigReadWord space bus slot function 0x18 >>> 8).toUInt8

/-- The record `checkFunction` writes for a function. -/
def pciDev : PciDev where
  bus := bus
  device := slot
  function := function
  vendorId := getVendorId space bus slot function
  deviceId := getDeviceId space bus slot function

/-- The test of `checkFunction` for a PCI-to-PCI bridge. -/
def isBridge : Bool :=
  getBaseClass space bus slot function = 0x06 && getSubClass space bus slot function = 0x04

end Fields

/-- What `checkFunction` does before it looks for a bridge. -/
def record (space : ConfigSpace) (s : PciState) (dev : PciDev) : PciState :=
  let probes :=
    if dev.vendorId = 0x1022 ∧ (dev.deviceId = 0x2000 ∨ dev.deviceId = 0x2001) then
      let interrupt := pciConfigReadWord space dev.bus dev.device dev.function 0x3C &&& 0xff
      let ioaddr := pciConfigReadWord space dev.bus dev.device dev.function 0x10 &&& 0xFFFC
      s.probes ++ [⟨s.numdevs, ioaddr.toUInt32, interrupt.toUInt8⟩]
    else s.probes
  { pcidevs := fun i => if i = s.numdevs.toNat then dev else s.pcidevs i
    numdevs := s.numdevs + 1
    probes := probes }

/-- `checkBus` is the recursive call. -/
def checkFunction (space : ConfigSpace) (checkBus : UInt8 → PciState → Option PciState)
    (bus device function : UInt8) (s : PciState) : Option PciState :=
  let s := record space s (pciDev space bus device function)
  if isBridge space bus device function then
    checkBus (getSecondaryBus space bus device function) s
  else some s

/-- One round of the loop over functions 1 to 7. -/
def checkOther (space : ConfigSpace) (checkBus : UInt8 → PciState → Option PciState)
    (bus device : UInt8) (s : PciState) (function : UInt8) : Option PciState :=
  if getVendorId space bus device function ≠ 0xFFFF then
    checkFunction space checkBus bus device function s
  else some s

def checkDevice (space : ConfigSpace) (checkBus : UInt8 → PciState → Option PciState)
    (bus : UInt8) (s : PciState) (device : UInt8) : Option PciState :=
  if getVendorId space bus device 0 = 0xFFFF then some s
  else do
    let s ← checkFunction space checkBus bus device 0 s
    if getHeaderType space bus device 0 &&& 0x80 ≠ 0 then
      [1, 2, 3, 4, 5, 6, 7].foldlM (checkOther space checkBus bus device) s
    else some s

/-- The values of the loop variable of `checkBus`. -/
def devices : List UInt8 := (List.range 32).map UInt8.ofNat

/-- `none` when the calls nest deeper than `fuel`. -/
def checkBus (space : ConfigSpace) : Nat → UInt8 → PciState → Option PciState
  | 0, _, _ => none
  | fuel + 1, bus, s => devices.foldlM (checkDevice space (checkBus space fuel) bus) s

/-- The loop of `checkAllBuses` over the functions of a multi-function host
bridge, with its condition `function > 8` and its break at a present function.
It has at most as many rounds as `function` has values. -/
def hostLoop (space : ConfigSpace) (checkBus : UInt8 → PciState → Option PciState) :
    Nat → UInt8 → PciState → Option PciState
  | 0, _, s => some s
  | rounds + 1, function, s =>
      if function > 8 then
        if getVendorId space 0 0 function ≠ 0xFFFF then some s
        else (checkBus function s).bind (hostLoop space checkBus rounds (function + 1))
      else some s

def checkAllBuses (space : ConfigSpace) (fuel : Nat) (s : PciState) : Option PciState :=
  if getHeaderType space 0 0 0 &&& 0x80 = 0 then checkBus space fuel 0 s
  else hostLoop space (checkBus space fuel) 256 0 s

def pciInit (space : ConfigSpace) (fuel : Nat) (s : PciState) : Option PciState :=
  checkAllBuses space fuel s

/-- A function responds: function 0 of its device does, and any other one only on
a device that says in its header that it has several. -/
structure Present (space : ConfigSpace) (bus device function : UInt8) : Prop where
  device_lt : device < 32
  function_lt : function < 8
  first : getVendorId space bus device 0 ≠ 0xFFFF
  other : function = 0 ∨ getHeaderType space bus device 0 &&& 0x80 ≠ 0 ∧
    getVendorId space bus device function ≠ 0xFFFF

/-- The functions of a device in the order `checkDevice` takes them. -/
def presentFunctions (space : ConfigSpace) (bus device : UInt8) : List UInt8 :=
  if getVendorId space bus device 0 = 0xFFFF then []
  else 0 :: if getHeaderType space bus device 0 &&& 0x80 ≠ 0 then
    [1, 2, 3, 4, 5, 6, 7].filter fun function => getVendorId space bus device function ≠ 0xFFFF
  else []

/-- A function as an item of its bus: its record, and the bus behind it if it is a bridge. -/
def busItem (space : ConfigSpace) (bus device function : UInt8) : PciDev × Option UInt8 :=
  (pciDev space bus device function,
    if isBridge space bus device function then some (getSecondaryBus space bus device function)
    else none)

def deviceItems (space : ConfigSpace) (bus device : UInt8) : List (PciDev × Option UInt8) :=
  (presentFunctions space bus device).map (busItem space bus device)

def busItems (space : ConfigSpace) (bus : UInt8) : List (PciDev × Option UInt8) :=
  devices.flatMap (deviceItems space bus)

/-- Recording a whole listing. -/
def recordAll (space : ConfigSpace) (s : PciState) (devs : List PciDev) : PciState :=
  devs.foldl (record space) s

section Refinement

variable {space : ConfigSpace} {check : UInt8 → PciState → Option PciState}
  {visit : UInt8 → Option (List PciDev)}

/-- Listing two runs of items one after the other and recording as one goes. -/
theorem recordAll_bind (xs ys : List (PciDev × Option UInt8)) (s : PciState) :
    ((walkItems visit xs).map (recordAll space s)).bind (fun t =>
        (walkItems visit ys).map (recordAll space t)) =
      (walkItems visit (xs ++ ys)).map (recordAll space s) := by
  rw [walkItems_append]
  cases walkItems visit xs with
  | none => rfl
  | some front =>
      cases walkItems visit ys with
      | none => rfl
      | some back => simp [recordAll]

theorem recordAll_bind_cons (x : PciDev × Option UInt8) (ys : List (PciDev × Option UInt8))
    (s : PciState) :
    ((walkItems visit [x]).map (recordAll space s)).bind (fun t =>
        (walkItems visit ys).map (recordAll space t)) =
      (walkItems visit (x :: ys)).map (recordAll space s) :=
  recordAll_bind [x] ys s

variable (same : ∀ bus s, check bus s = (visit bus).map (recordAll space s))
include same

theorem checkFunction_walk (bus device function : UInt8) (s : PciState) :
    checkFunction space check bus device function s =
      (walkItems visit [busItem space bus device function]).map (recordAll space s) := by
  unfold checkFunction busItem
  split
  · simp only [walkItems, same, Option.map_some, List.append_nil]
    cases visit (getSecondaryBus space bus device function) <;> rfl
  · rfl

theorem checkOthers_walk (bus device : UInt8) (functions : List UInt8) (s : PciState) :
    functions.foldlM (checkOther space check bus device) s =
      (walkItems visit ((functions.filter fun function =>
        getVendorId space bus device function ≠ 0xFFFF).map (busItem space bus device))).map
        (recordAll space s) := by
  induction functions generalizing s with
  | nil => rfl
  | cons function functions ih =>
      rw [List.foldlM_cons, checkOther]
      split
      · rename_i present
        rw [List.filter_cons_of_pos (by simpa using present), List.map_cons,
          ← recordAll_bind_cons, checkFunction_walk same]
        simp only [ih]
        rfl
      · rename_i absent
        rw [List.filter_cons_of_neg (by simpa using absent)]
        exact ih s

theorem checkDevice_walk (bus device : UInt8) (s : PciState) :
    checkDevice space check bus s device =
      (walkItems visit (deviceItems space bus device)).map (recordAll space s) := by
  unfold checkDevice deviceItems presentFunctions
  split
  · rfl
  · rw [List.map_cons, ← recordAll_bind_cons, checkFunction_walk same]
    split
    · simp only [checkOthers_walk same]
      rfl
    · rfl

theorem checkDevices_walk (bus : UInt8) (slots : List UInt8) (s : PciState) :
    slots.foldlM (checkDevice space check bus) s =
      (walkItems visit (slots.flatMap (deviceItems space bus))).map (recordAll space s) := by
  induction slots generalizing s with
  | nil => rfl
  | cons device slots ih =>
      rw [List.foldlM_cons, List.flatMap_cons, ← recordAll_bind, checkDevice_walk same]
      simp only [ih]
      rfl

end Refinement

/-- The recursion of pci.c records the depth-first listing of the buses. -/
theorem checkBus_walk (space : ConfigSpace) (fuel : Nat) (bus : UInt8) (s : PciState) :
    checkBus space fuel bus s = (walk (busItems space) fuel bus).map (recordAll space s) := by
  induction fuel generalizing bus s with
  | zero => rfl
  | succ fuel ih => exact checkDevices_walk (fun bus s => ih bus s) bus devices s

end FrogOS
