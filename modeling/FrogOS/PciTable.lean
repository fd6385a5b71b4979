import FrogOS.StackWalk
import FrogOS.PciEnumeration

set_option autoImplicit false

namespace FrogOS

open TreeWalk StackWalk Relation

/-- A call in progress, by what it has still to do. -/
inductive PciCall
  | checkBus (bus : UInt8) (left : List UInt8)
  | checkDevice (bus device : UInt8)
  /-- `checkDevice` behind its call for function 0. -/
  | headerTest (bus device : UInt8)
  /-- `checkDevice` in its loop over the other functions. -/
  | others (bus device : UInt8) (left : List UInt8)
  | checkFunction (bus device function : UInt8)
deriving DecidableEq, Repr

/-- The calls in progress, the innermost first, with the globals. -/
abbrev PciMachine := List PciCall × PciState

/-- The functions 1 to 7. -/
def otherFunctions : List UInt8 := [1, 2, 3, 4, 5, 6, 7]

/-- One step of the enumeration, `none` when it has ended. -/
def pciStep (space : ConfigSpace) : PciMachine → Option PciMachine
  | ([], _) => none
  | (.checkBus _ [] :: calls, s) => some (calls, s)
  | (.checkBus bus (device :: left) :: calls, s) =>
      some (.checkDevice bus device :: .checkBus bus left :: calls, s)
  | (.checkDevice bus device :: calls, s) =>
      if getVendorId space bus device 0 = 0xFFFF then some (calls, s)
      else some (.checkFunction bus device 0 :: .headerTest bus device :: calls, s)
  | (.headerTest bus device :: calls, s) =>
      if getHeaderType space bus device 0 &&& 0x80 ≠ 0 then
        some (.others bus device otherFunctions :: calls, s)
      else some (calls, s)
  | (.others _ _ [] :: calls, s) => some (calls, s)
  | (.others bus device (function :: left) :: calls, s) =>
      if getVendorId space bus device function ≠ 0xFFFF then
        some (.checkFunction bus device function :: .others bus device left :: calls, s)
      else some (.others bus device left :: calls, s)
  | (.checkFunction bus device function :: calls, s) =>
      let recorded := record space s (pciDev space bus device function)
      if isBridge space bus device function then
        some (.checkBus (getSecondaryBus space bus device function) devices :: calls, recorded)
      else some (calls, recorded)

/-- The calls that the loop over the host bridge's functions makes one after the other. -/
def hostCalls (space : ConfigSpace) : Nat → UInt8 → List PciCall
  | 0, _ => []
  | rounds + 1, function =>
      if function > 8 then
        if getVendorId space 0 0 function ≠ 0xFFFF then []
        else .checkBus function devices :: hostCalls space rounds (function + 1)
      else []

/-- What `checkAllBuses` calls. -/
def startCalls (space : ConfigSpace) : List PciCall :=
  if getHeaderType space 0 0 0 &&& 0x80 = 0 then [.checkBus 0 devices] else hostCalls space 256 0

def PciSteps (space : ConfigSpace) (x y : PciMachine) : Prop := pciStep space x = some y

/-- From one state of the machine to another in any number of steps. -/
def PciRuns (space : ConfigSpace) : PciMachine → PciMachine → Prop := ReflTransGen (PciSteps space)

/-- The entry `checkFunction` writes is always one of the table's 20, and so is every one
that `probe_pcnet32` has been given. -/
def StaysInTable (space : ConfigSpace) : Prop :=
  ∀ calls s, PciRuns space (startCalls space, pciStart) (calls, s) →
    (∀ bus device function rest, calls = .checkFunction bus device function :: rest →
      s.numdevs.toNat < 20) ∧ ∀ probe ∈ s.probes, probe.index.toNat < 20

section Steps

variable {space : ConfigSpace} {bus device function : UInt8} (left : List UInt8)
  (calls : List PciCall) (s : PciState)

theorem pciStep_absent (absent : getVendorId space bus device 0 = 0xFFFF) :
    pciStep space (.checkDevice bus device :: calls, s) = some (calls, s) :=
  if_pos absent

theorem pciStep_present (present : getVendorId space bus device 0 ≠ 0xFFFF) :
    pciStep space (.checkDevice bus device :: calls, s) =
      some (.checkFunction bus device 0 :: .headerTest bus device :: calls, s) :=
  if_neg present

theorem pciStep_several (several : getHeaderType space bus device 0 &&& 0x80 ≠ 0) :
    pciStep space (.headerTest bus device :: calls, s) =
      some (.others bus device otherFunctions :: calls, s) :=
  if_pos several

theorem pciStep_single (single : ¬ getHeaderType space bus device 0 &&& 0x80 ≠ 0) :
    pciStep space (.headerTest bus device :: calls, s) = some (calls, s) :=
  if_neg single

theorem pciStep_other (present : getVendorId space bus device function ≠ 0xFFFF) :
    pciStep space (.others bus device (function :: left) :: calls, s) =
      some (.checkFunction bus device function :: .others bus device left :: calls, s) :=
  if_pos present

theorem pciStep_skip (absent : ¬ getVendorId space bus device function ≠ 0xFFFF) :
    pciStep space (.others bus device (function :: left) :: calls, s) =
      some (.others bus device left :: calls, s) :=
  if_neg absent

theorem pciStep_bridge (bridge : isBridge space bus device function = true) :
    pciStep space (.checkFunction bus device function :: calls, s) =
      some (.checkBus (getSecondaryBus space bus device function) devices :: calls,
        record space s (pciDev space bus device function)) :=
  if_pos bridge

theorem pciStep_endpoint (endpoint : ¬ isBridge space bus device function = true) :
    pciStep space (.checkFunction bus device function :: calls, s) =
      some (calls, record space s (pciDev space bus device function)) :=
  if_neg endpoint

end Steps

section Run

variable {space : ConfigSpace} {check : UInt8 → PciState → Option PciState}

theorem pciRuns_step {x y z : PciMachine} (first : pciStep space x = some y)
    (rest : PciRuns space y z) : PciRuns space x z :=
  ReflTransGen.head first rest

variable (runs : ∀ bus s s', check bus s = some s' → ∀ calls,
  PciRuns space (.checkBus bus devices :: calls, s) (calls, s'))
include runs

theorem checkFunction_runs {bus device function : UInt8} {s s' : PciState}
    (ends : checkFunction space check bus device function s = some s') (calls : List PciCall) :
    PciRuns space (.checkFunction bus device function :: calls, s) (calls, s') := by
  unfold checkFunction at ends
  by_cases bridge : isBridge space bus device function = true
  · rw [if_pos bridge] at ends
    apply pciRuns_step (pciStep_bridge calls s bridge)
    exact runs _ _ _ ends calls
  · rw [if_neg bridge] at ends
    obtain rfl := Option.some.inj ends
    exact ReflTransGen.single (pciStep_endpoint calls s bridge)

theorem checkOthers_runs {bus device : UInt8} {left : List UInt8} {s s' : PciState}
    (ends : left.foldlM (checkOther space check bus device) s = some s')
    (calls : List PciCall) :
    PciRuns space (.others bus device left :: calls, s) (calls, s') := by
  induction left generalizing s with
  | nil =>
      obtain rfl := Option.some.inj ends
      exact ReflTransGen.single rfl
  | cons function left ih =>
      rw [List.foldlM_cons] at ends
      obtain ⟨t, first, rest⟩ := Option.bind_eq_some_iff.mp ends
      unfold checkOther at first
      by_cases present : getVendorId space bus device function ≠ 0xFFFF
      · rw [if_pos present] at first
        apply pciRuns_step (pciStep_other left calls s present)
        exact (checkFunction_runs runs first _).trans (ih rest)
      · rw [if_neg present] at first
        obtain rfl := Option.some.inj first
        apply pciRuns_step (pciStep_skip left calls s present)
        exact ih rest

theorem checkDevice_runs {bus device : UInt8} {s s' : PciState}
    (ends : checkDevice space check bus s device = some s') (calls : List PciCall) :
    PciRuns space (.checkDevice bus device :: calls, s) (calls, s') := by
  unfold checkDevice at ends
  by_cases absent : getVendorId space bus device 0 = 0xFFFF
  · rw [if_pos absent] at ends
    obtain rfl := Option.some.inj ends
    exact ReflTransGen.single (pciStep_absent calls s absent)
  · rw [if_neg absent] at ends
    obtain ⟨t, first, rest⟩ := Option.bind_eq_some_iff.mp ends
    apply pciRuns_step (pciStep_present calls s absent)
    apply (checkFunction_runs runs first _).trans
    by_cases several : getHeaderType space bus device 0 &&& 0x80 ≠ 0
    · rw [if_pos several] at rest
      apply pciRuns_step (pciStep_several calls t several)
      exact checkOthers_runs runs rest calls
    · rw [if_neg several] at rest
      obtain rfl := Option.some.inj rest
      exact ReflTransGen.single (pciStep_single calls t several)

theorem checkDevices_runs {bus : UInt8} {left : List UInt8} {s s' : PciState}
    (ends : left.foldlM (checkDevice space check bus) s = some s') (calls : List PciCall) :
    PciRuns space (.checkBus bus left :: calls, s) (calls, s') := by
  induction left generalizing s with
  | nil =>
      obtain rfl := Option.some.inj ends
      exact ReflTransGen.single rfl
  | cons device left ih =>
      rw [List.foldlM_cons] at ends
      obtain ⟨t, first, rest⟩ := Option.bind_eq_some_iff.mp ends
      apply pciRuns_step rfl
      exact (checkDevice_runs runs first _).trans (ih rest)

theorem hostLoop_runs {rounds : Nat} {function : UInt8} {s s' : PciState}
    (ends : hostLoop space check rounds function s = some s') :
    PciRuns space (hostCalls space rounds function, s) ([], s') := by
  induction rounds generalizing function s with
  | zero =>
      obtain rfl := Option.some.inj ends
      exact ReflTransGen.refl
  | succ rounds ih =>
      unfold hostLoop at ends
      unfold hostCalls
      split at ends
      · split at ends
        · obtain rfl := Option.some.inj ends
          rw [if_pos ‹_›, if_pos ‹_›]
          exact ReflTransGen.refl
        · obtain ⟨t, first, rest⟩ := Option.bind_eq_some_iff.mp ends
          rw [if_pos ‹_›, if_neg ‹_›]
          exact (runs _ _ _ first _).trans (ih rest)
      · obtain rfl := Option.some.inj ends
        rw [if_neg ‹_›]
        exact ReflTransGen.refl

omit runs in
theorem checkBus_runs {fuel : Nat} {bus : UInt8} {s s' : PciState}
    (ends : checkBus space fuel bus s = some s') (calls : List PciCall) :
    PciRuns space (.checkBus bus devices :: calls, s) (calls, s') := by
  induction fuel generalizing bus s s' calls with
  | zero => cases ends
  | succ fuel ih => exact checkDevices_runs (fun _ _ _ below calls => ih below calls) ends calls

omit runs in
/-- Whenever `pci_init` ends, the steps lead to what it ends with. -/
theorem pciInit_runs {fuel : Nat} {s s' : PciState} (ends : pciInit space fuel s = some s') :
    PciRuns space (startCalls space, s) ([], s') := by
  unfold pciInit checkAllBuses at ends
  unfold startCalls
  split at ends
  · rw [if_pos ‹_›]
    exact checkBus_runs ends []
  · rw [if_neg ‹_›]
    exact hostLoop_runs (fun _ _ _ below calls => checkBus_runs below calls) ends

end Run

/-- The functions a call is going to check itself, in order. -/
def PciCall.items (space : ConfigSpace) : PciCall → List (PciDev × Option UInt8)
  | .checkBus bus left => left.flatMap (deviceItems space bus)
  | .checkDevice bus device => deviceItems space bus device
  | .headerTest bus device =>
      if getHeaderType space bus device 0 &&& 0x80 ≠ 0 then
        (otherFunctions.filter fun function =>
          getVendorId space bus device function ≠ 0xFFFF).map (busItem space bus device)
      else []
  | .others bus device left =>
      (left.filter fun function => getVendorId space bus device function ≠ 0xFFFF).map
        (busItem space bus device)
  | .checkFunction bus device function => [busItem space bus device function]

def pending (space : ConfigSpace) (calls : List PciCall) : List (PciDev × Option UInt8) :=
  calls.flatMap (PciCall.items space)

/-- More than what a step other than one of `checkFunction` leaves to do. -/
def PciCall.weight : PciCall → Nat
  | .checkBus _ left => 12 * left.length + 1
  | .checkDevice _ _ => 11
  | .headerTest _ _ => 9
  | .others _ _ left => left.length + 1
  | .checkFunction _ _ _ => 0

def weight : List PciCall → Nat
  | [] => 0
  | call :: calls => call.weight + weight calls

section Pending

variable {space : ConfigSpace} {calls : List PciCall} {s : PciState}

@[simp] theorem pending_cons (call : PciCall) (calls : List PciCall) :
    pending space (call :: calls) = call.items space ++ pending space calls :=
  List.flatMap_cons

@[simp] theorem weight_cons (call : PciCall) (calls : List PciCall) :
    weight (call :: calls) = call.weight + weight calls :=
  rfl

theorem pending_start (space : ConfigSpace) (bus : UInt8) :
    pending space [.checkBus bus devices] = busItems space bus :=
  List.append_nil _

/-- The functions of a device are function 0 and those behind the header test. -/
theorem deviceItems_present {bus device : UInt8} (first : getVendorId space bus device 0 ≠ 0xFFFF) :
    deviceItems space bus device =
      busItem space bus device 0 :: (PciCall.headerTest bus device).items space := by
  have behindTest : (PciCall.headerTest bus device).items space =
      if getHeaderType space bus device 0 &&& 0x80 ≠ 0 then
        (otherFunctions.filter fun function =>
          getVendorId space bus device function ≠ 0xFFFF).map (busItem space bus device)
      else [] := rfl
  rw [behindTest, deviceItems, presentFunctions, if_neg first, List.map_cons]
  by_cases several : getHeaderType space bus device 0 &&& 0x80 ≠ 0
  · rw [if_pos several, if_pos several]
    rfl
  · rw [if_neg several, if_neg several]
    rfl

theorem PciCall.silent_or (call : PciCall) :
    (∀ bus device function, call ≠ .checkFunction bus device function) ∨
      ∃ bus device function, call = .checkFunction bus device function := by
  cases call with
  | checkFunction bus device function => exact Or.inr ⟨bus, device, function, rfl⟩
  | _ => exact Or.inl nofun

/-- A step that does not check a function makes what is left smaller and leaves
the functions that are still to be checked, and the globals, as they are. -/
theorem pciStep_silent (space : ConfigSpace) (call : PciCall) (calls : List PciCall) (s : PciState)
    (silent : ∀ bus device function, call ≠ .checkFunction bus device function) :
    ∃ next, pciStep space (call :: calls, s) = some (next, s) ∧
      pending space next = pending space (call :: calls) ∧ weight next < weight (call :: calls) := by
  cases call with
  | checkBus bus left =>
      cases left with
      | nil => exact ⟨calls, rfl, rfl, by simp [PciCall.weight]⟩
      | cons device left =>
          refine ⟨_, rfl, ?_, ?_⟩
          · simp [PciCall.items]
          · simp [PciCall.weight]
            omega
  | checkDevice bus device =>
      by_cases absent : getVendorId space bus device 0 = 0xFFFF
      · refine ⟨calls, pciStep_absent calls s absent, ?_, ?_⟩
        · simp [PciCall.items, deviceItems, presentFunctions, absent]
        · simp [PciCall.weight]
      · refine ⟨_, pciStep_present calls s absent, ?_, ?_⟩
        · rw [pending_cons, pending_cons, pending_cons, ← List.append_assoc]
          exact congrArg (· ++ pending space calls) (deviceItems_present absent).symm
        · simp [PciCall.weight]
  | headerTest bus device =>
      by_cases several : getHeaderType space bus device 0 &&& 0x80 ≠ 0
      · refine ⟨_, pciStep_several calls s several, ?_, ?_⟩
        · rw [pending_cons, pending_cons, PciCall.items, PciCall.items, if_pos several]
        · simp [PciCall.weight, otherFunctions]
      · refine ⟨calls, pciStep_single calls s several, ?_, ?_⟩
        · rw [pending_cons, PciCall.items, if_neg several]
          rfl
        · simp [PciCall.weight]
  | others bus device left =>
      cases left with
      | nil => exact ⟨calls, rfl, rfl, by simp [PciCall.weight]⟩
      | cons function left =>
          by_cases present : getVendorId space bus device function ≠ 0xFFFF
          · refine ⟨_, pciStep_other left calls s present, ?_, ?_⟩
            · simp [PciCall.items, present]
            · simp [PciCall.weight]
          · refine ⟨_, pciStep_skip left calls s present, ?_, ?_⟩
            · simp [PciCall.items, not_not.mp present]
            · simp [PciCall.weight]
  | checkFunction bus device function => exact absurd rfl (silent bus device function)

/-- A step of `checkFunction` records its function and takes on what is behind it. -/
theorem pciStep_function (space : ConfigSpace) (bus device function : UInt8)
    (calls : List PciCall) (s : PciState) :
    ∃ next, pciStep space (.checkFunction bus device function :: calls, s) =
        some (next, record space s (pciDev space bus device function)) ∧
      pending space next =
        behind (busItems space) (busItem space bus device function) ++ pending space calls := by
  by_cases bridge : isBridge space bus device function = true
  · refine ⟨.checkBus (getSecondaryBus space bus device function) devices :: calls, ?_, ?_⟩
    · exact pciStep_bridge calls s bridge
    · rw [busItem, if_pos bridge, pending_cons]
      rfl
  · refine ⟨calls, ?_, ?_⟩
    · exact pciStep_endpoint calls s bridge
    · rw [busItem, if_neg bridge]
      rfl

/-- As long as there is a function left to check the machine comes to check one. -/
theorem reaches_function (calls : List PciCall) (s : PciState) (left : pending space calls ≠ []) :
    ∃ bus device function rest,
      PciRuns space (calls, s) (.checkFunction bus device function :: rest, s) ∧
        pending space (.checkFunction bus device function :: rest) = pending space calls := by
  induction size : weight calls using Nat.strongRecOn generalizing calls with
  | ind n ih =>
      cases calls with
      | nil => exact absurd rfl left
      | cons call calls =>
          rcases call.silent_or with silent | ⟨bus, device, function, rfl⟩
          · obtain ⟨next, taken, same, less⟩ := pciStep_silent space call calls s silent
            rw [← same] at left
            obtain ⟨bus, device, function, rest, run, kept⟩ :=
              ih (weight next) (size ▸ less) next left rfl
            exact ⟨bus, device, function, rest, pciRuns_step taken run, kept.trans same⟩
          · exact ⟨bus, device, function, calls, ReflTransGen.refl, rfl⟩

theorem numdevs_record (space : ConfigSpace) (s : PciState) (dev : PciDev)
    (room : s.numdevs.toNat < 20) : (record space s dev).numdevs.toNat = s.numdevs.toNat + 1 :=
  (table_record space s dev (by omega)).1

/-- The functions recorded and the rounds that the pending ones take add up to `k`. -/
def Counted (space : ConfigSpace) (k : Nat) (x : PciMachine) : Prop :=
  ∃ n, Empties (busItems space) n (pending space x.1) ∧ x.2.numdevs.toNat + n = k

theorem Counted.room {k : Nat} {bus device function : UInt8}
    (counted : Counted space k (.checkFunction bus device function :: calls, s)) :
    s.numdevs.toNat < k := by
  obtain ⟨n, empties, total⟩ := counted
  rw [pending_cons] at empties
  cases empties with
  | next n _ _ later =>
      have sum : s.numdevs.toNat + (n + 1) = k := total
      omega

theorem Counted.step {k : Nat} {x y : PciMachine} (few : k ≤ 20) (counted : Counted space k x)
    (taken : pciStep space x = some y) : Counted space k y := by
  obtain ⟨calls, s⟩ := x
  obtain ⟨n, empties, total⟩ := counted
  cases calls with
  | nil => cases taken
  | cons call calls =>
      rcases call.silent_or with silent | ⟨bus, device, function, rfl⟩
      · obtain ⟨next, done, same, -⟩ := pciStep_silent space call calls s silent
        obtain rfl : (next, s) = y := Option.some.inj (done.symm.trans taken)
        refine ⟨n, ?_, total⟩
        show Empties (busItems space) n (pending space next)
        rw [same]
        exact empties
      · have room := Counted.room ⟨n, empties, total⟩
        obtain ⟨next, done, same⟩ := pciStep_function space bus device function calls s
        obtain rfl := Option.some.inj (done.symm.trans taken)
        have recorded := numdevs_record space s (pciDev space bus device function) (by omega)
        rw [pending_cons] at empties
        cases empties with
        | next n _ _ later =>
            have sum : s.numdevs.toNat + (n + 1) = k := total
            refine ⟨n, ?_, ?_⟩
            · show Empties (busItems space) n (pending space next)
              rw [same]
              exact later
            · show (record space s _).numdevs.toNat + n = k
              omega

theorem Counted.run {k : Nat} {x y : PciMachine} (few : k ≤ 20) (counted : Counted space k x)
    (run : PciRuns space x y) : Counted space k y := by
  induction run with
  | refl => exact counted
  | tail _ taken ih => exact ih.step few taken

/-- As long as every write is inside the table, so is every index `probe_pcnet32` has. -/
theorem probes_inside {x : PciMachine} (start : ∀ probe ∈ x.2.probes, probe.index.toNat < 20)
    (inside : ∀ bus device function rest s,
      PciRuns space x (.checkFunction bus device function :: rest, s) → s.numdevs.toNat < 20)
    {y : PciMachine} (run : PciRuns space x y) : ∀ probe ∈ y.2.probes, probe.index.toNat < 20 := by
  induction run with
  | refl => exact start
  | @tail y z before taken ih =>
      obtain ⟨calls, s⟩ := y
      cases calls with
      | nil => cases taken
      | cons call calls =>
          rcases call.silent_or with silent | ⟨bus, device, function, rfl⟩
          · obtain ⟨next, done, -, -⟩ := pciStep_silent space call calls s silent
            obtain rfl : (next, s) = z := Option.some.inj (done.symm.trans taken)
            exact ih
          · obtain ⟨next, done, -⟩ := pciStep_function space bus device function calls s
            obtain rfl := Option.some.inj (done.symm.trans taken)
            intro probe member
            have kept := inside bus device function calls s before
            simp only [record] at member
            split at member
            · rcases List.mem_append.mp member with earlier | latest
              · exact ih probe earlier
              · rw [List.mem_singleton.mp latest]
                exact kept
            · exact ih probe member

/-- If no function is ever checked with the table full, what is pending fits into the rest. -/
theorem empties_of_inside {x : PciMachine}
    (inside : ∀ bus device function rest s,
      PciRuns space x (.checkFunction bus device function :: rest, s) → s.numdevs.toNat < 20)
    (room : Nat) (total : x.2.numdevs.toNat + room = 20) :
    ∃ n, n ≤ room ∧ Empties (busItems space) n (pending space x.1) := by
  induction room generalizing x with
  | zero =>
      obtain ⟨calls, s⟩ := x
      by_cases left : pending space calls = []
      · refine ⟨0, Nat.le_refl 0, ?_⟩
        show Empties (busItems space) 0 (pending space calls)
        rw [left]
        exact Empties.done
      · obtain ⟨bus, device, function, rest, run, -⟩ := reaches_function calls s left
        have below := inside bus device function rest s run
        have full : s.numdevs.toNat + 0 = 20 := total
        omega
  | succ room ih =>
      obtain ⟨calls, s⟩ := x
      by_cases left : pending space calls = []
      · refine ⟨0, Nat.zero_le _, ?_⟩
        show Empties (busItems space) 0 (pending space calls)
        rw [left]
        exact Empties.done
      · obtain ⟨bus, device, function, rest, run, same⟩ := reaches_function calls s left
        obtain ⟨next, taken, onward⟩ :=
          pciStep_function space bus device function rest s
        have below := inside bus device function rest s run
        have recorded := numdevs_record space s (pciDev space bus device function) below
        have partway : s.numdevs.toNat + (room + 1) = 20 := total
        have further : PciRuns space (calls, s)
            (next, record space s (pciDev space bus device function)) := run.tail taken
        obtain ⟨n, small, empties⟩ := ih
          (fun bus' device' function' rest' s' beyond =>
            inside bus' device' function' rest' s' (further.trans beyond))
          (x := (next, record space s (pciDev space bus device function)))
          (by
            show (record space s _).numdevs.toNat + room = 20
            omega)
        have rounds : Empties (busItems space) n (pending space next) := empties
        rw [onward] at rounds
        refine ⟨n + 1, Nat.succ_le_succ small, ?_⟩
        show Empties (busItems space) (n + 1) (pending space calls)
        rw [← same, pending_cons]
        exact Empties.next n _ _ rounds

end Pending

section Bound

variable {space : ConfigSpace}

theorem startCalls_single (single : getHeaderType space 0 0 0 &&& 0x80 = 0) :
    startCalls space = [.checkBus 0 devices] :=
  if_pos single

/-- The loop over the host bridge's functions has no round. -/
theorem startCalls_multi (several : getHeaderType space 0 0 0 &&& 0x80 ≠ 0) :
    startCalls space = [] :=
  if_neg several

theorem staysInTable_multi (several : getHeaderType space 0 0 0 &&& 0x80 ≠ 0) :
    StaysInTable space := by
  intro calls s run
  rw [startCalls_multi several] at run
  rcases run.cases_head with same | ⟨next, taken, -⟩
  · obtain ⟨rfl, rfl⟩ := Prod.mk.inj same
    exact ⟨nofun, nofun⟩
  · cases taken

theorem staysInTable_single (single : getHeaderType space 0 0 0 &&& 0x80 = 0) :
    StaysInTable space ↔ AtMost (busItems space) 0 20 := by
  rw [← empties_iff_atMost (busItems_nodup space) 0 20, StaysInTable, startCalls_single single]
  constructor
  · intro stays
    have inside : ∀ bus device function rest s,
        PciRuns space ([.checkBus 0 devices], pciStart)
          (.checkFunction bus device function :: rest, s) → s.numdevs.toNat < 20 := by
      intro bus device function rest s run
      exact (stays _ s run).1 bus device function rest rfl
    have fits := empties_of_inside inside 20 rfl
    rw [pending_start] at fits
    exact fits
  · intro ⟨k, few, empties⟩ calls s run
    have start : Counted space k ([.checkBus 0 devices], pciStart) := by
      refine ⟨k, ?_, Nat.zero_add k⟩
      rw [pending_start]
      exact empties
    have inside : ∀ bus device function rest s,
        PciRuns space ([.checkBus 0 devices], pciStart)
          (.checkFunction bus device function :: rest, s) → s.numdevs.toNat < 20 := by
      intro bus device function rest s run
      exact Nat.lt_of_lt_of_le (start.run few run).room few
    constructor
    · intro bus device function rest same
      rw [same] at run
      exact inside bus device function rest s run
    · exact probes_inside (fun _ member => absurd member List.not_mem_nil) inside run

/-- `checkFunction` stays inside the table exactly if the host bridge is a multi-function
device, so that nothing is checked, or at most 20 descents lead from bus 0 through
bridges to a function. -/
theorem pci_table_bound_iff (space : ConfigSpace) :
    StaysInTable space ↔
      getHeaderType space 0 0 0 &&& 0x80 ≠ 0 ∨ AtMost (busItems space) 0 20 := by
  by_cases single : getHeaderType space 0 0 0 &&& 0x80 = 0
  · rw [staysInTable_single single]
    constructor
    · exact Or.inr
    · intro condition
      rcases condition with several | atMost
      · exact absurd single several
      · exact atMost
  · constructor
    · intro stays
      exact Or.inl single
    · intro condition
      exact staysInTable_multi single

/-- A host with a function in each of the 32 slots of bus 0, none of them a bridge. -/
def fullBus : ConfigSpace := fun address =>
  if address &&& 0xFC = 0 then 0x12378086 else if address &&& 0xFC = 8 then 0x06000002 else 0

/-- On a full bus the 21st function is written behind the table. -/
theorem full_bus_leaves_table : ¬ StaysInTable fullBus := by
  have single : getHeaderType fullBus 0 0 0 &&& 0x80 = 0 := by decide
  have responds : ∀ device ∈ devices, getVendorId fullBus 0 device 0 ≠ 0xFFFF := by
    decide +kernel
  have distinct : devices.Nodup := by decide
  rw [staysInTable_single single]
  intro atMost
  have short := atMost (devices.map fun device => [pciDev fullBus 0 device 0])
    (distinct.map fun device other same =>
      congrArg PciDev.device (List.cons.inj same).1) (by
      intro p member
      obtain ⟨device, slot, rfl⟩ := List.mem_map.mp member
      have present : Present fullBus 0 device 0 :=
        ⟨mem_devices.mp slot, by decide, responds device slot, Or.inl rfl⟩
      exact ⟨busItem fullBus 0 device 0, mem_busItems.mpr ⟨device, 0, present, rfl⟩,
        Descent.stop _⟩)
  rw [List.length_map] at short
  exact absurd short (by decide)

end Bound

end FrogOS
