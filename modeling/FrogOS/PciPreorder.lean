import FrogOS.PciEnumeration

set_option autoImplicit false

namespace FrogOS

open TreeWalk Relation

/-- The values of `function`. -/
def functions : List UInt8 := [0, 1, 2, 3, 4, 5, 6, 7]

instance (space : ConfigSpace) (bus device function : UInt8) :
    Decidable (Present space bus device function) :=
  decidable_of_iff (device < 32 ∧ function < 8 ∧ getVendorId space bus device 0 ≠ 0xFFFF ∧
      (function = 0 ∨ getHeaderType space bus device 0 &&& 0x80 ≠ 0 ∧
        getVendorId space bus device function ≠ 0xFFFF))
    ⟨fun ⟨small, below, first, other⟩ => ⟨small, below, first, other⟩,
      fun ⟨small, below, first, other⟩ => ⟨small, below, first, other⟩⟩

/-- The places of the functions that respond on a bus, by device and then by function. -/
def presentOn (space : ConfigSpace) (bus : UInt8) : List (UInt8 × UInt8) :=
  devices.flatMap fun device =>
    (functions.filter fun function => Present space bus device function).map fun function =>
      (device, function)

/-- The listings in depth-first order: the functions of a bus in their order, and behind each bridge
at once the listing of its secondary bus. -/
inductive DepthFirst (space : ConfigSpace) : UInt8 → List PciDev → Prop
  | bus (bus : UInt8) (below : UInt8 × UInt8 → List PciDev)
      (bridges : ∀ place ∈ presentOn space bus, isBridge space bus place.1 place.2 = true →
        DepthFirst space (getSecondaryBus space bus place.1 place.2) (below place))
      (endpoints : ∀ place ∈ presentOn space bus, isBridge space bus place.1 place.2 = false →
        below place = []) :
      DepthFirst space bus ((presentOn space bus).flatMap fun place =>
        pciDev space bus place.1 place.2 :: below place)

section Order

variable {space : ConfigSpace} {bus : UInt8}

/-- `checkDevice` takes the functions of a device in their order. -/
theorem presentFunctions_eq {device : UInt8} (slot : device ∈ devices) :
    presentFunctions space bus device =
      functions.filter fun function => Present space bus device function := by
  have all (function : UInt8) (member : function ∈ ([1, 2, 3, 4, 5, 6, 7] : List UInt8)) :
      function ≠ 0 ∧ function < 8 := mem_otherFunctions.mp member
  have small := mem_devices.mp slot
  unfold presentFunctions functions
  by_cases absent : getVendorId space bus device 0 = 0xFFFF
  · rw [if_pos absent, List.filter_eq_nil_iff.mpr]
    intro function _ present
    exact (of_decide_eq_true present).first absent
  · have zero : Present space bus device 0 := ⟨small, by decide, absent, Or.inl rfl⟩
    rw [if_neg absent, List.filter_cons_of_pos
      (p := fun function => Present space bus device function) (decide_eq_true zero)]
    apply congrArg (List.cons _)
    by_cases several : getHeaderType space bus device 0 &&& 0x80 ≠ 0
    · rw [if_pos several]
      apply List.filter_congr
      intro function member
      obtain ⟨other, below⟩ := all function member
      apply decide_eq_decide.mpr
      constructor
      · exact fun responds => ⟨small, below, absent, Or.inr ⟨several, responds⟩⟩
      · intro present
        rcases present.other with same | ⟨-, responds⟩
        · exact absurd same other
        · exact responds
    · rw [if_neg several, List.filter_eq_nil_iff.mpr]
      intro function member present
      rcases (of_decide_eq_true present).other with same | ⟨multi, -⟩
      · exact absurd same (all function member).1
      · exact several multi

theorem busItems_eq (space : ConfigSpace) (bus : UInt8) :
    busItems space bus =
      (presentOn space bus).map fun place => busItem space bus place.1 place.2 := by
  rw [busItems, presentOn, List.map_flatMap]
  apply List.flatMap_congr
  intro device slot
  rw [deviceItems, presentFunctions_eq slot, List.map_map]
  rfl

/-- The walk lists in depth-first order. -/
theorem walk_depthFirst (fuel : Nat) (bus : UInt8) (devs : List PciDev)
    (listing : walk (busItems space) fuel bus = some devs) : DepthFirst space bus devs := by
  induction fuel generalizing bus devs with
  | zero => cases listing
  | succ fuel ih =>
      obtain ⟨ends, rfl⟩ := walk_succ_of_some listing
      rw [busItems_eq, List.flatMap_map]
      have covered (place : UInt8 × UInt8) :
          cover (walk (busItems space) fuel) (busItem space bus place.1 place.2) =
            pciDev space bus place.1 place.2 ::
              if isBridge space bus place.1 place.2 = true then
                (walk (busItems space) fuel (getSecondaryBus space bus place.1 place.2)).getD []
              else [] := by
        unfold busItem
        split <;> rfl
      simp only [covered]
      constructor
      · intro place present bridge
        rw [if_pos bridge]
        have child : Child (busItems space) bus (getSecondaryBus space bus place.1 place.2) := by
          refine ⟨pciDev space bus place.1 place.2, ?_⟩
          rw [busItems_eq]
          refine List.mem_map.mpr ⟨place, present, ?_⟩
          rw [busItem, if_pos bridge]
        obtain ⟨below, visited⟩ := Option.isSome_iff_exists.mp (ends _ child)
        rw [visited]
        exact ih _ _ visited
      · intro place _ endpoint
        rw [if_neg (by rw [endpoint]; exact Bool.false_ne_true)]

end Order

/-- The table has an entry for every function behind a bus. -/
def RoomBehind (space : ConfigSpace) (bus : UInt8) (s : PciState) : Prop :=
  ∀ devs : List PciDev, devs.Nodup → (∀ dev ∈ devs, Behind space bus dev) →
    s.numdevs.toNat + devs.length ≤ 20

/-- Where the buses behind a bus are a tree and the table has room, `checkBus` appends to the table
the depth-first listing of exactly the functions that are there, each once. -/
theorem checkBus_appends_depthFirst (space : ConfigSpace) (bus : UInt8) (s : PciState)
    (buses : BusTree space bus) (room : RoomBehind space bus s) :
    ∃ fuel t devs, checkBus space fuel bus s = some t ∧ DepthFirst space bus devs ∧ devs.Nodup ∧
      (∀ dev, dev ∈ devs ↔ Behind space bus dev) ∧ table t = table s ++ devs ∧
      t.numdevs.toNat = s.numdevs.toNat + devs.length := by
  obtain ⟨fuel, devs, listing, nodup, listed⟩ := buses.walk_lists
  have short := room devs nodup fun dev => (listed dev).mp
  have entries : table (recordAll space s devs) = table s ++ devs :=
    table_recordAll s devs (by omega)
  refine ⟨fuel, recordAll space s devs, devs, by rw [checkBus_walk, listing]; rfl,
    walk_depthFirst fuel bus devs listing, nodup, listed, entries, ?_⟩
  have lengths := congrArg List.length entries
  simpa only [table, List.length_append, List.length_map, List.length_range] using lengths

/-- A network card behind a bridge. -/
theorem bridged_card_depthFirst :
    ∃ fuel t devs, checkBus bridgedCard fuel 0 pciStart = some t ∧ DepthFirst bridgedCard 0 devs ∧
      devs.Nodup ∧ (∀ dev, dev ∈ devs ↔ Behind bridgedCard 0 dev) ∧
      table t = table pciStart ++ devs ∧
      t.numdevs.toNat = pciStart.numdevs.toNat + devs.length := by
  have buses : BusTree bridgedCard 0 := by
    refine ⟨?_, ?_⟩
    · intro dev dev' first second bridge bridge' _
      rw [bridgedCard_bridge dev first bridge, bridgedCard_bridge dev' second bridge']
    · intro dev first bridge
      rw [bridgedCard_bridge dev first bridge]
      decide
  have room : RoomBehind bridgedCard 0 pciStart := by
    intro devs nodup behind
    have inside := List.subperm_of_subset nodup fun dev member =>
      bridgedCard_known dev (behind dev member)
    have length := inside.length_le
    change 0 + devs.length ≤ 20
    change devs.length ≤ 3 at length
    omega
  exact checkBus_appends_depthFirst bridgedCard 0 pciStart buses room

end FrogOS
