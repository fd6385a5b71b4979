import FrogOS.Pci

set_option autoImplicit false

namespace FrogOS

open TreeWalk Relation

/-- A bridge on `bus` reports `below` as its secondary bus. -/
def BridgeTo (space : ConfigSpace) (bus below : UInt8) : Prop :=
  ∃ device function, Present space bus device function ∧
    isBridge space bus device function = true ∧ getSecondaryBus space bus device function = below

section Items

variable {space : ConfigSpace} {bus device function : UInt8}

theorem mem_devices : device ∈ devices ↔ device < 32 := by
  simp only [devices, List.mem_map, List.mem_range]
  constructor
  · rintro ⟨i, small, rfl⟩
    rw [UInt8.lt_iff_toNat_lt, UInt8.toNat_ofNat']
    change i % 256 < 32
    omega
  · intro small
    exact ⟨device.toNat, UInt8.lt_iff_toNat_lt.mp small, UInt8.ofNat_toNat⟩

theorem mem_otherFunctions :
    function ∈ ([1, 2, 3, 4, 5, 6, 7] : List UInt8) ↔ function ≠ 0 ∧ function < 8 := by
  simp only [List.mem_cons, List.not_mem_nil, or_false, ne_eq, ← UInt8.toNat_inj,
    UInt8.lt_iff_toNat_lt, UInt8.toNat_ofNat]
  omega

theorem present_iff : Present space bus device function ↔
    device ∈ devices ∧ function ∈ presentFunctions space bus device := by
  rw [mem_devices, presentFunctions]
  constructor
  · rintro ⟨small, below, first, other⟩
    refine ⟨small, ?_⟩
    rw [if_neg first]
    rcases other with rfl | ⟨several, responds⟩
    · exact List.mem_cons_self
    · rw [if_pos several]
      by_cases zero : function = 0
      · rw [zero]
        exact List.mem_cons_self
      · apply List.mem_cons_of_mem
        exact List.mem_filter.mpr ⟨mem_otherFunctions.mpr ⟨zero, below⟩, by simpa using responds⟩
  · rintro ⟨small, member⟩
    split at member
    · cases member
    · rename_i first
      rcases List.mem_cons.mp member with rfl | rest
      · exact ⟨small, by decide, first, Or.inl rfl⟩
      · split at rest
        · rename_i several
          obtain ⟨listed, responds⟩ := List.mem_filter.mp rest
          exact ⟨small, (mem_otherFunctions.mp listed).2, first,
            Or.inr ⟨several, by simpa using responds⟩⟩
        · cases rest

theorem mem_busItems {item : PciDev × Option UInt8} : item ∈ busItems space bus ↔
    ∃ device function, Present space bus device function ∧
      item = busItem space bus device function := by
  simp only [busItems, deviceItems, List.mem_flatMap, List.mem_map, present_iff]
  constructor
  · rintro ⟨device, slot, function, listed, rfl⟩
    exact ⟨device, function, ⟨slot, listed⟩, rfl⟩
  · rintro ⟨device, function, ⟨slot, listed⟩, rfl⟩
    exact ⟨device, slot, function, listed, rfl⟩

/-- A bus behind an item is the secondary bus of the bridge the item is. -/
theorem mem_busItems_some {dev : PciDev} {below : UInt8} :
    (dev, some below) ∈ busItems space bus ↔
      dev.bus = bus ∧ Present space dev.bus dev.device dev.function ∧
      dev = pciDev space dev.bus dev.device dev.function ∧
      isBridge space dev.bus dev.device dev.function = true ∧
      getSecondaryBus space dev.bus dev.device dev.function = below := by
  rw [mem_busItems]
  constructor
  · rintro ⟨device, function, present, same⟩
    obtain ⟨rfl, next⟩ := Prod.mk.inj same
    split at next
    · rename_i bridge
      exact ⟨rfl, present, rfl, bridge, (Option.some.inj next).symm⟩
    · cases next
  · rintro ⟨rfl, present, record, bridge, rfl⟩
    refine ⟨dev.device, dev.function, present, ?_⟩
    rw [busItem, if_pos bridge, ← record]

theorem child_busItems : Child (busItems space) = BridgeTo space := by
  funext bus below
  apply propext
  constructor
  · rintro ⟨dev, member⟩
    obtain ⟨rfl, present, -, bridge, second⟩ := mem_busItems_some.mp member
    exact ⟨dev.device, dev.function, present, bridge, second⟩
  · rintro ⟨device, function, present, bridge, second⟩
    exact ⟨pciDev space bus device function,
      mem_busItems_some.mpr ⟨rfl, present, rfl, bridge, second⟩⟩

theorem presentFunctions_nodup (space : ConfigSpace) (bus device : UInt8) :
    (presentFunctions space bus device).Nodup := by
  unfold presentFunctions
  split
  · exact List.nodup_nil
  · refine List.nodup_cons.mpr ⟨?_, ?_⟩
    · split
      · intro listed
        exact absurd rfl (mem_otherFunctions.mp (List.mem_of_mem_filter listed)).1
      · exact List.not_mem_nil
    · split
      · exact List.Nodup.filter _ (by decide)
      · exact List.nodup_nil

theorem busItems_nodup (space : ConfigSpace) (bus : UInt8) :
    ((busItems space bus).map Prod.fst).Nodup := by
  have listing : (busItems space bus).map Prod.fst =
      devices.flatMap fun device => (presentFunctions space bus device).map
        (pciDev space bus device) := by
    simp only [busItems, deviceItems, List.map_flatMap, List.map_map]
    rfl
  rw [listing]
  refine List.nodup_flatMap.mpr ⟨?_, ?_⟩
  · intro device _
    exact (presentFunctions_nodup space bus device).map
      fun _ _ same => congrArg PciDev.function same
  · have distinct : devices.Nodup := by decide
    refine distinct.imp ?_
    intro device other ne dev left right
    obtain ⟨_, -, rfl⟩ := List.mem_map.mp left
    obtain ⟨_, -, same⟩ := List.mem_map.mp right
    exact ne (congrArg PciDev.device same).symm

end Items

instance finiteUInt8 : Finite UInt8 :=
  Finite.of_injective UInt8.toFin fun _ _ same => UInt8.toFin_inj.mp same

/-- The enumeration of a single-function host bridge ends exactly when no chain
of bridges from bus 0 comes back to a bus it has passed. -/
theorem checkBus_ends_iff (space : ConfigSpace) (bus : UInt8) (s : PciState) :
    (∃ fuel, (checkBus space fuel bus s).isSome) ↔
      ¬ ∃ b, ReflTransGen (BridgeTo space) bus b ∧ TransGen (BridgeTo space) b b := by
  rw [← child_busItems, ← acc_iff_no_cycle, ← walk_ends_iff]
  simp only [checkBus_walk, Option.isSome_map]

theorem checkAllBuses_single {space : ConfigSpace}
    (single : getHeaderType space 0 0 0 &&& 0x80 = 0) (fuel : Nat) (s : PciState) :
    checkAllBuses space fuel s = checkBus space fuel 0 s :=
  if_pos single

/-- The loop over the host bridge's functions has no round: 0 is not above 8. -/
theorem checkAllBuses_multi {space : ConfigSpace}
    (several : getHeaderType space 0 0 0 &&& 0x80 ≠ 0) (fuel : Nat) (s : PciState) :
    checkAllBuses space fuel s = some s :=
  if_neg several

/-- `pci_init` ends exactly when the host bridge is a multi-function device, so
that nothing is walked, or no bus that bridges lead to from bus 0 lies behind itself. -/
theorem pciInit_ends_iff (space : ConfigSpace) (s : PciState) :
    (∃ fuel, (pciInit space fuel s).isSome) ↔
      getHeaderType space 0 0 0 &&& 0x80 ≠ 0 ∨
        ¬ ∃ b, ReflTransGen (BridgeTo space) 0 b ∧ TransGen (BridgeTo space) b b := by
  unfold pciInit
  by_cases single : getHeaderType space 0 0 0 &&& 0x80 = 0
  · simp only [checkAllBuses_single single, checkBus_ends_iff, ne_eq, single,
      not_true_eq_false, false_or]
  · simp only [checkAllBuses_multi single, Option.isSome_some, exists_const, ne_eq, single,
      not_false_eq_true, true_or]

/-- A configuration space by the words it holds; every other address reads as all ones. -/
def configSpace (words : List (UInt32 × UInt32)) : ConfigSpace :=
  fun address => (words.lookup address).getD 0xFFFFFFFF

/-- A host bridge and, as device 1, a bridge whose bus numbers are still zero. -/
def unconfiguredBridge : ConfigSpace := configSpace
  [(0x80000000, 0x12378086), (0x80000008, 0x06000002), (0x8000000C, 0x00000000),
   (0x80000800, 0x00241011), (0x80000808, 0x06040003), (0x8000080C, 0x00010000),
   (0x80000818, 0x00000000)]

theorem unconfigured_bridge_never_ends :
    ¬ ∃ fuel, (pciInit unconfiguredBridge fuel pciStart).isSome := by
  have single : getHeaderType unconfiguredBridge 0 0 0 &&& 0x80 = 0 := by decide
  have present : Present unconfiguredBridge 0 1 0 :=
    ⟨by decide, by decide, by decide, Or.inl rfl⟩
  have loop : BridgeTo unconfiguredBridge 0 0 := ⟨1, 0, present, by decide, by decide⟩
  simp only [pciInit, checkAllBuses_single single, checkBus_ends_iff, not_not]
  exact ⟨0, ReflTransGen.refl, TransGen.single loop⟩

/-- The buses directly at the host bridge: bus 0, or one for each function of a
multi-function host bridge. -/
def IsRoot (space : ConfigSpace) (bus : UInt8) : Prop :=
  if getHeaderType space 0 0 0 &&& 0x80 = 0 then bus = 0 else Present space 0 0 bus

/-- The record of a function on a bus that bridges lead to from a root. -/
structure Reached (space : ConfigSpace) (dev : PciDev) : Prop where
  bus : ∃ root, IsRoot space root ∧ ReflTransGen (BridgeTo space) root dev.bus
  present : Present space dev.bus dev.device dev.function
  record : dev = pciDev space dev.bus dev.device dev.function

/-- Every secondary bus belongs to one bridge only and is not a root. -/
structure Hierarchy (space : ConfigSpace) : Prop where
  parent : ∀ dev dev', Reached space dev → Reached space dev' →
    isBridge space dev.bus dev.device dev.function = true →
    isBridge space dev'.bus dev'.device dev'.function = true →
    getSecondaryBus space dev.bus dev.device dev.function =
      getSecondaryBus space dev'.bus dev'.device dev'.function → dev = dev'
  inner : ∀ dev, Reached space dev → isBridge space dev.bus dev.device dev.function = true →
    ¬ IsRoot space (getSecondaryBus space dev.bus dev.device dev.function)

/-- The table has an entry for every function. -/
def FitsTable (space : ConfigSpace) : Prop :=
  ∀ devs : List PciDev, devs.Nodup → (∀ dev ∈ devs, Reached space dev) → devs.length ≤ 20

/-- The entries `pcidevs[0 .. numdevs)`. -/
def table (s : PciState) : List PciDev := (List.range s.numdevs.toNat).map s.pcidevs

/-- The table lists every reachable function exactly once. -/
def Complete (space : ConfigSpace) (s : PciState) : Prop :=
  (table s).Nodup ∧ ∀ dev, dev ∈ table s ↔ Reached space dev

section Table

variable {space : ConfigSpace}

theorem table_record (space : ConfigSpace) (s : PciState) (dev : PciDev)
    (room : s.numdevs.toNat + 1 < 2 ^ 16) :
    (record space s dev).numdevs.toNat = s.numdevs.toNat + 1 ∧
      table (record space s dev) = table s ++ [dev] := by
  have next : (record space s dev).numdevs.toNat = s.numdevs.toNat + 1 := by
    change (s.numdevs + 1).toNat = _
    rw [UInt16.toNat_add]
    change (s.numdevs.toNat + 1) % 2 ^ 16 = _
    exact Nat.mod_eq_of_lt room
  refine ⟨next, ?_⟩
  rw [table, next, List.range_succ, List.map_append, List.map_singleton, table]
  congr 1
  · apply List.map_congr_left
    intro i member
    have below := List.mem_range.mp member
    exact if_neg (Nat.ne_of_lt below)
  · simp only [record, ↓reduceIte]

/-- Recording a listing appends it to the table. -/
theorem table_recordAll (s : PciState) (devs : List PciDev)
    (room : s.numdevs.toNat + devs.length < 2 ^ 16) :
    table (recordAll space s devs) = table s ++ devs := by
  induction devs generalizing s with
  | nil => exact (List.append_nil _).symm
  | cons dev devs ih =>
      rw [List.length_cons] at room
      obtain ⟨next, appended⟩ := table_record space s dev (by omega)
      have rest := ih (record space s dev) (by rw [next]; omega)
      rw [appended, List.append_assoc] at rest
      exact rest

theorem table_start : table pciStart = [] := rfl

end Table

/-- The record of a function on a bus that bridges lead to from `root`. -/
structure Behind (space : ConfigSpace) (root : UInt8) (dev : PciDev) : Prop where
  bus : ReflTransGen (BridgeTo space) root dev.bus
  present : Present space dev.bus dev.device dev.function
  record : dev = pciDev space dev.bus dev.device dev.function

/-- The buses that bridges lead to from `root` form a tree: one bridge leads to each of them, and
none to `root`. -/
structure BusTree (space : ConfigSpace) (root : UInt8) : Prop where
  parent : ∀ dev dev', Behind space root dev → Behind space root dev' →
    isBridge space dev.bus dev.device dev.function = true →
    isBridge space dev'.bus dev'.device dev'.function = true →
    getSecondaryBus space dev.bus dev.device dev.function =
      getSecondaryBus space dev'.bus dev'.device dev'.function → dev = dev'
  inner : ∀ dev, Behind space root dev → isBridge space dev.bus dev.device dev.function = true →
    getSecondaryBus space dev.bus dev.device dev.function ≠ root

section Behind

variable {space : ConfigSpace} {root : UInt8}

theorem behind_of_bridge {bus below : UInt8} (path : ReflTransGen (BridgeTo space) root bus)
    (bridge : BridgeTo space bus below) :
    ∃ dev, Behind space root dev ∧ dev.bus = bus ∧
      isBridge space dev.bus dev.device dev.function = true ∧
      getSecondaryBus space dev.bus dev.device dev.function = below := by
  obtain ⟨device, function, present, test, second⟩ := bridge
  exact ⟨pciDev space bus device function, ⟨path, present, rfl⟩, rfl, test, second⟩

theorem behind_iff (dev : PciDev) :
    Behind space root dev ↔ ∃ bus, ReflTransGen (Child (busItems space)) root bus ∧
      ∃ next, (dev, next) ∈ busItems space bus := by
  rw [child_busItems]
  constructor
  · intro behind
    have member : busItem space dev.bus dev.device dev.function ∈ busItems space dev.bus :=
      mem_busItems.mpr ⟨dev.device, dev.function, behind.present, rfl⟩
    rw [busItem, ← behind.record] at member
    exact ⟨dev.bus, behind.bus, _, member⟩
  · rintro ⟨bus, path, next, member⟩
    obtain ⟨device, function, present, same⟩ := mem_busItems.mp member
    obtain ⟨rfl, -⟩ := Prod.mk.inj same
    exact ⟨path, present, rfl⟩

end Behind

namespace BusTree

variable {space : ConfigSpace} {root : UInt8}

/-- Going up from a bus on a cycle, the only bridge into each bus stays on the
cycle, up to the root, which no bridge leads to. -/
theorem no_cycle (buses : BusTree space root) {bus : UInt8}
    (path : ReflTransGen (BridgeTo space) root bus) : ¬ TransGen (BridgeTo space) bus bus := by
  induction path with
  | refl =>
      intro cycle
      obtain ⟨y, upto, last⟩ := TransGen.tail'_iff.mp cycle
      obtain ⟨dev, behind, -, bridge, second⟩ := behind_of_bridge upto last
      exact buses.inner dev behind bridge second
  | tail upto child ih =>
      intro cycle
      obtain ⟨z, around, last⟩ := TransGen.tail'_iff.mp cycle
      obtain ⟨dev, behind, rfl, bridge, second⟩ := behind_of_bridge upto child
      obtain ⟨dev', behind', rfl, bridge', second'⟩ :=
        behind_of_bridge ((upto.tail child).trans around) last
      obtain rfl := buses.parent dev dev' behind behind' bridge bridge'
        (second.trans second'.symm)
      exact ih (TransGen.head' child around)

theorem tree (buses : BusTree space root) : Tree (busItems space) root where
  distinct := fun bus _ => busItems_nodup space bus
  home := by
    intro a c dev o o' _ _ first second
    obtain ⟨_, _, -, left⟩ := mem_busItems.mp first
    obtain ⟨_, _, -, right⟩ := mem_busItems.mp second
    exact (congrArg PciDev.bus (Prod.mk.inj left).1).symm.trans
      (congrArg PciDev.bus (Prod.mk.inj right).1)
  parent := by
    intro a a' dev dev' c pathA pathA' first second
    rw [child_busItems] at pathA pathA'
    obtain ⟨rfl, present, record, bridge, below⟩ := mem_busItems_some.mp first
    obtain ⟨rfl, present', record', bridge', below'⟩ := mem_busItems_some.mp second
    exact buses.parent dev dev' ⟨pathA, present, record⟩ ⟨pathA', present', record'⟩ bridge bridge'
      (below.trans below'.symm)

/-- The walk of a tree ends and lists what is behind its root, nothing twice. -/
theorem walk_lists (buses : BusTree space root) :
    ∃ fuel devs, walk (busItems space) fuel root = some devs ∧ devs.Nodup ∧
      ∀ dev, dev ∈ devs ↔ Behind space root dev := by
  have ends : ¬ ∃ b, ReflTransGen (Child (busItems space)) root b ∧
      TransGen (Child (busItems space)) b b := by
    rw [child_busItems]
    rintro ⟨b, path, cycle⟩
    exact buses.no_cycle path cycle
  obtain ⟨fuel, some⟩ := (walk_ends_iff root).mpr ((acc_iff_no_cycle root).mpr ends)
  obtain ⟨devs, listing⟩ := Option.isSome_iff_exists.mp some
  refine ⟨fuel, devs, listing, buses.tree.nodup_walk ReflTransGen.refl listing, fun dev => ?_⟩
  rw [mem_walk listing, behind_iff]

end BusTree

/-- What is behind a root of a hierarchy is a tree. -/
theorem Hierarchy.busTree {space : ConfigSpace} (hierarchy : Hierarchy space) {root : UInt8}
    (isRoot : IsRoot space root) : BusTree space root where
  parent := fun dev dev' behind behind' =>
    hierarchy.parent dev dev' ⟨⟨root, isRoot, behind.bus⟩, behind.present, behind.record⟩
      ⟨⟨root, isRoot, behind'.bus⟩, behind'.present, behind'.record⟩
  inner := by
    intro dev behind bridge same
    apply hierarchy.inner dev ⟨⟨root, isRoot, behind.bus⟩, behind.present, behind.record⟩ bridge
    rw [same]
    exact isRoot

section Complete

variable {space : ConfigSpace}

theorem isRoot_single (single : getHeaderType space 0 0 0 &&& 0x80 = 0) : IsRoot space 0 := by
  rw [IsRoot, if_pos single]

theorem reached_iff (dev : PciDev) :
    Reached space dev ↔ ∃ root, IsRoot space root ∧ Behind space root dev := by
  constructor
  · rintro ⟨⟨root, isRoot, path⟩, present, record⟩
    exact ⟨root, isRoot, path, present, record⟩
  · rintro ⟨root, isRoot, path, present, record⟩
    exact ⟨⟨root, isRoot, path⟩, present, record⟩

/-- With a single-function host bridge the walk from bus 0 ends and lists all. -/
theorem checkBus_complete (hierarchy : Hierarchy space) (fits : FitsTable space)
    (single : getHeaderType space 0 0 0 &&& 0x80 = 0) :
    ∃ fuel s, checkBus space fuel 0 pciStart = some s ∧ Complete space s := by
  obtain ⟨fuel, devs, listing, nodup, listed⟩ :=
    (hierarchy.busTree (isRoot_single single)).walk_lists
  have all : ∀ dev, dev ∈ devs ↔ Reached space dev := by
    intro dev
    rw [listed, reached_iff]
    simp only [IsRoot, if_pos single, exists_eq_left]
  have short := fits devs nodup fun dev => (all dev).mp
  refine ⟨fuel, recordAll space pciStart devs, by rw [checkBus_walk, listing]; rfl, ?_⟩
  have entries : table (recordAll space pciStart devs) = devs := by
    rw [table_recordAll]
    · rfl
    · change 0 + devs.length < 2 ^ 16
      omega
  rw [Complete, entries]
  exact ⟨nodup, all⟩

/-- On a configuration space with a proper bridge hierarchy that fits the table,
`pci_init` lists every reachable function once if the host bridge is a
single-function device, and otherwise only if there is nothing to list. -/
theorem pciInit_complete_iff (space : ConfigSpace) (hierarchy : Hierarchy space)
    (fits : FitsTable space) :
    (∃ fuel s, pciInit space fuel pciStart = some s ∧ Complete space s) ↔
      getHeaderType space 0 0 0 &&& 0x80 = 0 ∨ getVendorId space 0 0 0 = 0xFFFF := by
  unfold pciInit
  by_cases single : getHeaderType space 0 0 0 &&& 0x80 = 0
  · simp only [checkAllBuses_single single, single, true_or, iff_true]
    exact checkBus_complete hierarchy fits single
  · simp only [checkAllBuses_multi single, single, false_or, Option.some.injEq]
    constructor
    · rintro ⟨_, s, rfl, -, listed⟩
      apply Decidable.byContradiction
      intro responds
      have present : Present space 0 0 0 := ⟨by decide, by decide, responds, Or.inl rfl⟩
      have isRoot : IsRoot space 0 := by
        rw [IsRoot, if_neg single]
        exact present
      have missing := (listed (pciDev space 0 0 0)).mpr
        ⟨⟨0, isRoot, ReflTransGen.refl⟩, present, rfl⟩
      rw [table_start] at missing
      cases missing
    · intro absent
      refine ⟨0, pciStart, rfl, List.nodup_nil, ?_⟩
      intro dev
      rw [table_start]
      constructor
      · intro member
        cases member
      · rintro ⟨⟨root, isRoot, -⟩, -, -⟩
        rw [IsRoot, if_neg single] at isRoot
        exact absurd absent isRoot.first

end Complete

/-- Functions that lie in a known list of at most 20 fit the table. -/
theorem fitsTable_of_known {space : ConfigSpace} (known : List PciDev) (short : known.length ≤ 20)
    (all : ∀ dev, Reached space dev → dev ∈ known) : FitsTable space := by
  intro devs nodup reached
  have inside := List.subperm_of_subset nodup fun dev member => all dev (reached dev member)
  exact Nat.le_trans inside.length_le short

/-- A host bridge, a bridge to bus 1 and a network card behind it. -/
def bridgedCard : ConfigSpace := configSpace
  [(0x80000000, 0x12378086), (0x80000008, 0x06000002), (0x8000000C, 0x00000000),
   (0x80000800, 0x00241011), (0x80000808, 0x06040003), (0x8000080C, 0x00010000),
   (0x80000818, 0x00010100), (0x80010000, 0x20001022), (0x80010008, 0x02000010),
   (0x8001000C, 0x00000000), (0x80010010, 0x0000C001), (0x8001003C, 0x0000010B)]

/-- Its functions. -/
def bridgedCardDevs : List PciDev :=
  [⟨0, 0, 0, 0x8086, 0x1237⟩, ⟨0, 1, 0, 0x1011, 0x0024⟩, ⟨1, 0, 0, 0x1022, 0x2000⟩]

theorem bridgedCard_known (dev : PciDev) (behind : Behind bridgedCard 0 dev) :
    dev ∈ bridgedCardDevs := by
  have onBus0 : busItems bridgedCard 0 =
      [(⟨0, 0, 0, 0x8086, 0x1237⟩, none), (⟨0, 1, 0, 0x1011, 0x0024⟩, some 1)] := by decide
  have onBus1 : busItems bridgedCard 1 = [(⟨1, 0, 0, 0x1022, 0x2000⟩, none)] := by decide
  have buses : ∀ bus, ReflTransGen (Child (busItems bridgedCard)) 0 bus → bus = 0 ∨ bus = 1 := by
    intro bus path
    induction path with
    | refl => exact Or.inl rfl
    | tail _ child ih =>
        obtain ⟨dev, member⟩ := child
        rcases ih with rfl | rfl
        · rw [onBus0] at member
          simp at member
          exact Or.inr member.2
        · rw [onBus1] at member
          simp at member
  obtain ⟨bus, path, next, member⟩ := (behind_iff dev).mp behind
  rcases buses bus path with rfl | rfl
  · rw [onBus0] at member
    simp at member
    rcases member with ⟨rfl, -⟩ | ⟨rfl, -⟩ <;> decide
  · rw [onBus1] at member
    simp at member
    rcases member with ⟨rfl, -⟩
    decide

theorem bridgedCard_bridge (dev : PciDev) (behind : Behind bridgedCard 0 dev)
    (bridge : isBridge bridgedCard dev.bus dev.device dev.function = true) :
    dev = ⟨0, 1, 0, 0x1011, 0x0024⟩ := by
  have listed := bridgedCard_known dev behind
  simp only [bridgedCardDevs, List.mem_cons, List.not_mem_nil, or_false] at listed
  rcases listed with rfl | rfl | rfl
  · exact absurd bridge (by decide)
  · rfl
  · exact absurd bridge (by decide)

theorem bridged_card_is_listed :
    (∃ fuel s, pciInit bridgedCard fuel pciStart = some s ∧ Complete bridgedCard s) ↔
      getHeaderType bridgedCard 0 0 0 &&& 0x80 = 0 ∨ getVendorId bridgedCard 0 0 0 = 0xFFFF := by
  have root : ∀ bus, IsRoot bridgedCard bus ↔ bus = 0 := fun bus => by
    rw [IsRoot, if_pos (by decide)]
  have reached (dev : PciDev) : Reached bridgedCard dev ↔ Behind bridgedCard 0 dev := by
    rw [reached_iff]
    simp only [root, exists_eq_left]
  have hierarchy : Hierarchy bridgedCard := by
    refine ⟨?_, ?_⟩
    · intro dev dev' first second bridge bridge' _
      rw [bridgedCard_bridge dev ((reached dev).mp first) bridge,
        bridgedCard_bridge dev' ((reached dev').mp second) bridge']
    · intro dev first bridge
      rw [bridgedCard_bridge dev ((reached dev).mp first) bridge, root]
      decide
  exact pciInit_complete_iff bridgedCard hierarchy (fitsTable_of_known bridgedCardDevs (by decide)
    fun dev first => bridgedCard_known dev ((reached dev).mp first))

/-- A host bridge that is a multi-function device, with only function 0 present. -/
def multiFunctionHost : ConfigSpace := configSpace
  [(0x80000000, 0x12378086), (0x80000008, 0x06000002), (0x8000000C, 0x00800000)]

theorem multi_function_host_is_missed :
    Hierarchy multiFunctionHost ∧ FitsTable multiFunctionHost ∧
      ¬ ∃ fuel s, pciInit multiFunctionHost fuel pciStart = some s ∧
        Complete multiFunctionHost s := by
  have onBus0 : busItems multiFunctionHost 0 = [(⟨0, 0, 0, 0x8086, 0x1237⟩, none)] := by decide
  have several : getHeaderType multiFunctionHost 0 0 0 &&& 0x80 ≠ 0 := by decide
  have root : ∀ bus, IsRoot multiFunctionHost bus ↔ bus = 0 := by
    intro bus
    have functions : presentFunctions multiFunctionHost 0 0 = [0] := by decide
    rw [IsRoot, if_neg several, present_iff, functions, List.mem_singleton]
    simp [mem_devices]
  have known : ∀ dev, Reached multiFunctionHost dev →
      dev ∈ ([⟨0, 0, 0, 0x8086, 0x1237⟩] : List PciDev) := by
    intro dev reached
    obtain ⟨r, isRoot, behind⟩ := (reached_iff dev).mp reached
    obtain ⟨bus, path, next, member⟩ := (behind_iff dev).mp behind
    obtain rfl := (root r).mp isRoot
    rcases path.cases_head with rfl | ⟨_, ⟨_, child⟩, _⟩
    · rw [onBus0] at member
      simp at member
      exact List.mem_singleton.mpr member.1
    · rw [onBus0] at child
      simp at child
  have reachedHost : Reached multiFunctionHost ⟨0, 0, 0, 0x8086, 0x1237⟩ :=
    (reached_iff _).mpr ⟨0, (root 0).mpr rfl,
      (behind_iff _).mpr ⟨0, ReflTransGen.refl, none, by rw [onBus0]; simp⟩⟩
  refine ⟨⟨?_, ?_⟩, fitsTable_of_known _ (by decide) known, ?_⟩
  · intro dev dev' reached reached' _ _ _
    rw [List.mem_singleton.mp (known dev reached), List.mem_singleton.mp (known dev' reached')]
  · intro dev reached bridge
    rw [List.mem_singleton.mp (known dev reached)] at bridge
    exact absurd bridge (by decide)
  · rintro ⟨fuel, s, ends, -, listed⟩
    rw [pciInit, checkAllBuses_multi several] at ends
    obtain rfl := Option.some.inj ends
    have missing := (listed _).mpr reachedHost
    rw [table_start] at missing
    cases missing

end FrogOS
