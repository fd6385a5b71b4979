import FrogOS.AscendingBlocks
import FrogOS.HeapBump

set_option autoImplicit false

namespace FrogOS

open ByteMemory LinkedChain AscendingBlocks

section Numbers

/-- The size rounded up to a multiple of 16, as a natural number. -/
def wholeUnits (size : UInt32) : Nat := (size.toNat + 15) / 16 * 16

/-- The bytes up to the next multiple of `align`, as a natural number. -/
def gapTo (align : UInt16) (p : UInt32) : Nat :=
  (p.toNat + (align.toNat - 1)) / align.toNat * align.toNat - p.toNat

variable {h : Heap} {size p : UInt32} {align : UInt16}

/-- The chunk has room for the block and what lies in front of it. -/
def HasRoom (h : Heap) (size : UInt32) (align : UInt16) (p : UInt32) : Prop :=
  gapTo align p + wholeUnits size < (h.size p).toNat

/-- The chunk passes the first test, and the subtraction of the second one wraps. -/
def Wraps (h : Heap) (size : UInt32) (align : UInt16) (p : UInt32) : Prop :=
  roundUp size 16 ≤ h.size p ∧ h.size p < lost p align

instance (h : Heap) (size : UInt32) (align : UInt16) (p : UInt32) :
    Decidable (Wraps h size align p) := inferInstanceAs (Decidable (_ ∧ _))

theorem roundUp_units (small : size.toNat ≤ 0xFFFFFFF0) :
    (roundUp size 16).toNat = wholeUnits size :=
  roundUp_16 size (by omega)

/-- The last fifteen sizes round up to nothing. -/
theorem roundUp_wraps (large : 0xFFFFFFF0 < size.toNat) : roundUp size 16 = 0 := by
  apply UInt32.toNat_inj.mp
  have bound := size.toNat_lt
  rw [roundUp_toNat size 16 4 (by decide) rfl]
  show (size.toNat + 15) % 2 ^ 32 / 16 * 16 = 0
  omega

theorem lost_eq_gap (power : PowerOfTwo align) (room : p.toNat + 2 ^ 15 ≤ 2 ^ 32) :
    (lost p align).toNat = gapTo align p ∧ gapTo align p < 2 ^ 15 := by
  obtain ⟨k, small, value⟩ := power
  have positive := Nat.two_pow_pos k
  have fits : 2 ^ k ≤ 2 ^ 15 := Nat.pow_le_pow_right (by decide) small
  have up := roundUp_toNat p align k small value
  rw [Nat.mod_eq_of_lt (by omega)] at up
  have parts := Nat.div_add_mod (p.toNat + (2 ^ k - 1)) (2 ^ k)
  have below := Nat.mod_lt (p.toNat + (2 ^ k - 1)) positive
  rw [Nat.mul_comm] at parts
  have bound := (roundUp p align).toNat_lt
  rw [gapTo, value, ← up, lost, UInt32.toNat_sub]
  omega

theorem hasRoom_small (room : HasRoom h size align p) : size.toNat ≤ 0xFFFFFFF0 := by
  have bound := (h.size p).toNat_lt
  unfold HasRoom wholeUnits at room
  omega

/-- Where nothing wraps the code's tests say exactly that there is room. -/
theorem fits_iff (power : PowerOfTwo align) (room : p.toNat + 2 ^ 15 ≤ 2 ^ 32)
    (small : size.toNat ≤ 0xFFFFFFF0) (kept : (h.size p).toNat + 2 ^ 15 ≤ 2 ^ 32) :
    h.Fits (roundUp size 16) align p ↔ HasRoom h size align p ∨ Wraps h size align p := by
  have numbers := lost_eq_gap power room
  have rounded := roundUp_units small
  have difference : (h.size p - lost p align).toNat =
      (2 ^ 32 - gapTo align p + (h.size p).toNat) % 2 ^ 32 := by
    rw [UInt32.toNat_sub, numbers.1]
  rw [Heap.Fits, HasRoom, Wraps, UInt32.le_iff_toNat_le, UInt32.lt_iff_toNat_lt,
    UInt32.lt_iff_toNat_lt, difference, numbers.1, rounded]
  omega

end Numbers

/-- What every call without a wrap keeps: the chunks ascend, in units of 16. -/
structure ChunksInv (h : Heap) (free : List UInt32) : Prop where
  chain : h.FreeList free
  aligned : ∀ p ∈ free, p.toNat % 16 = 0
  units : ∀ p ∈ free, 16 ≤ (h.size p).toNat ∧ (h.size p).toNat % 16 = 0
  ascending : Ascending UInt32.toNat (fun p => (h.size p).toNat) 0 free arenaEnd.toNat

section Carve

variable {h : Heap} {before after : List UInt32} {p l s : UInt32}

theorem ChunksInv.length_lt {free : List UInt32} (inv : ChunksInv h free) :
    free.length < allocFuel := by
  have fits := inv.ascending.length_le fun p member => (inv.units p member).1
  have edge : arenaEnd.toNat = 0xC0C00000 := rfl
  have fuel : allocFuel = 268435457 := rfl
  omega

/-- The other chunks end before the picked one or start behind it. -/
theorem ChunksInv.others (inv : ChunksInv h (before ++ p :: after)) :
    (∀ q ∈ before, q.toNat + (h.size q).toNat ≤ p.toNat) ∧
      (∀ q ∈ after, p.toNat + (h.size p).toNat ≤ q.toNat) := by
  obtain ⟨mid, front, lower, back⟩ := ascending_append.mp inv.ascending
  constructor
  · intro q member
    have within := front.within member
    omega
  · intro q member
    exact (back.within member).1

/-- Numbers of a chunk that is carved without a wrap; `l` bytes are lost in front of the block. -/
structure Carved (h : Heap) (p s l : UInt32) : Prop where
  gap : l.toNat % 16 = 0
  unit : s.toNat % 16 = 0
  room : l.toNat + s.toNat < (h.size p).toNat

theorem ChunksInv.carveInside (inv : ChunksInv h (before ++ p :: after)) (carved : Carved h p s l)
    (inside : 16 ≤ l.toNat) :
    ChunksInv (carveInside h s p l).2 (before ++ p :: (p + l + s) :: after) := by
  have member : p ∈ before ++ p :: after := List.mem_append_right _ List.mem_cons_self
  have aligned := inv.aligned p member
  have unit := inv.units p member
  have within := (inv.ascending.within member).2
  have apart := inv.others
  have gap := carved.gap
  have rounded := carved.unit
  have room := carved.room
  obtain ⟨fresh, rest, freshAligned, nonnull, ne⟩ :=
    carved_header_inside aligned gap rounded inside (by omega) within
  have others : ∀ q ∈ before ++ after, q ≠ p ∧ q ≠ p + l + s := by
    intro q other
    have clear : q.toNat < p.toNat ∨ p.toNat + (h.size p).toNat ≤ q.toNat := by
      rcases List.mem_append.mp other with inFront | behind
      · have ends := apart.1 q inFront
        have units := inv.units q (List.mem_append_left _ inFront)
        omega
      · exact Or.inr (apart.2 q behind)
    constructor
    · rintro rfl
      omega
    · rintro rfl
      omega
  obtain ⟨chain, keep, sizeP, sizeFresh⟩ :=
    carveInside_headers inv.chain inv.aligned others freshAligned nonnull ne
  have front (q : UInt32) (inFront : q ∈ before) := keep q (List.mem_append_left _ inFront)
  have back (q : UInt32) (behind : q ∈ after) := keep q (List.mem_append_right _ behind)
  refine ⟨chain, ?_, ?_, ?_⟩
  · exact forall_carved (forall_others inv.aligned) aligned freshAligned
  · apply forall_carved
    · intro q other
      rw [keep q other]
      exact forall_others inv.units q other
    · rw [sizeP]
      exact ⟨inside, gap⟩
    · rw [sizeFresh, rest]
      omega
  · obtain ⟨mid, first, lower, last⟩ := ascending_append.mp inv.ascending
    apply ascending_append.mpr
    refine ⟨mid, first.congr fun q inFront => congrArg UInt32.toNat (front q inFront), lower, ?_⟩
    have tail := last.congr fun q behind => congrArg UInt32.toNat (back q behind)
    refine ⟨?_, tail.lower ?_⟩
    · change p.toNat + ((FrogOS.carveInside h s p l).2.size p).toNat ≤ _
      rw [sizeP, fresh]
      omega
    · change _ + ((FrogOS.carveInside h s p l).2.size (p + l + s)).toNat ≤
        p.toNat + (h.size p).toNat
      rw [sizeFresh, fresh, rest]
      omega

/-- The front branch drops the chunks before the one it carves. -/
theorem ChunksInv.carveFront (inv : ChunksInv h (before ++ p :: after)) (carved : Carved h p s l) :
    ChunksInv (carveFront h s p).2 ((p + s) :: after) := by
  have member : p ∈ before ++ p :: after := List.mem_append_right _ List.mem_cons_self
  have aligned := inv.aligned p member
  have unit := inv.units p member
  have within := (inv.ascending.within member).2
  have apart := inv.others
  have rounded := carved.unit
  have room := carved.room
  obtain ⟨r, -, -, present, links⟩ := path_append.mp inv.chain
  have positive : p.toNat ≠ 0 := fun zero => present (UInt32.toNat_inj.mp zero)
  obtain ⟨fresh, rest, freshAligned, nonnull⟩ :=
    carved_header aligned rounded (by omega) (by omega) within
  have others : ∀ q ∈ after, q ≠ p + s := by
    rintro q behind rfl
    have start := apart.2 _ behind
    omega
  have old : ∀ q ∈ p :: after, q.toNat % 16 = 0 :=
    fun q known => inv.aligned q (List.mem_append_right _ known)
  obtain ⟨chain, keep, sizeFresh⟩ := carveFront_headers links old others freshAligned nonnull
  refine ⟨chain, ?_, ?_, ?_⟩
  · intro q inNew
    rcases List.mem_cons.mp inNew with rfl | behind
    · exact freshAligned
    · exact old q (List.mem_cons_of_mem p behind)
  · intro q inNew
    rcases List.mem_cons.mp inNew with rfl | behind
    · rw [sizeFresh, rest]
      omega
    · rw [keep q behind]
      exact inv.units q (List.mem_append_right _ (List.mem_cons_of_mem p behind))
  · obtain ⟨mid, -, -, last⟩ := ascending_append.mp inv.ascending
    have tail := last.congr fun q behind => congrArg UInt32.toNat (keep q behind)
    refine ⟨Nat.zero_le _, tail.lower ?_⟩
    change _ + ((FrogOS.carveFront h s p).2.size (p + s)).toNat ≤ p.toNat + (h.size p).toNat
    rw [sizeFresh, fresh, rest]
    omega

end Carve

section Call

variable {h h' : Heap} {free : List UInt32} {size ret : UInt32} {align : UInt16}

theorem ChunksInv.alloc_cases (inv : ChunksInv h free) (size : UInt32) (align : UInt16) :
    ((∀ p ∈ free, ¬ h.Fits (roundUp size 16) align p) ∧ alloc size align h = some (0, h)) ∨
    ∃ before p after, free = before ++ p :: after ∧
      (∀ q ∈ before, ¬ h.Fits (roundUp size 16) align q) ∧ h.Fits (roundUp size 16) align p ∧
      alloc size align h = some (carve h (roundUp size 16) align p) :=
  allocLoop_first_fit (roundUp size 16) align h free allocFuel inv.length_lt h.highMem inv.chain

/-- A chunk of the list and what aligning its start loses lie in the address space. -/
theorem ChunksInv.bounds (inv : ChunksInv h free) {p : UInt32} (member : p ∈ free) :
    p.toNat + 2 ^ 15 ≤ 2 ^ 32 ∧ (h.size p).toNat + 2 ^ 15 ≤ 2 ^ 32 := by
  have edge : arenaEnd.toNat = 0xC0C00000 := rfl
  have within := (inv.ascending.within member).2
  omega

/-- Carving never returns null. -/
theorem ChunksInv.carve_nonnull (inv : ChunksInv h free) (power : PowerOfTwo align) {p s : UInt32}
    (member : p ∈ free) : (carve h s align p).1 ≠ 0 := by
  intro null
  unfold carve at null
  split at null
  · have aligned := inv.aligned p member
    have room := (inv.bounds member).1
    obtain ⟨-, -, below⟩ := lost_spec p align power aligned room
    rename_i inside
    have large := UInt32.le_iff_toNat_le.mp inside
    have value := congrArg UInt32.toNat null
    change (p + lost p align).toNat = 0 at value
    change 16 ≤ (lost p align).toNat at large
    rw [UInt32.toNat_add] at value
    omega
  · have chain := inv.chain
    have head : h.highMem = 0 := null
    rw [Heap.FreeList, head] at chain
    rw [chain_null.mp chain] at member
    exact absurd member List.not_mem_nil

/-- What the call should do: succeed exactly if some chunk has room, and leave everything as it
was where it fails. -/
def RefusesRightly (h : Heap) (size : UInt32) (align : UInt16) : Prop :=
  ∃ free ret h', h.FreeList free ∧ alloc size align h = some (ret, h') ∧
    (ret ≠ 0 ↔ ∃ p ∈ free, HasRoom h size align p) ∧ (ret = 0 → h' = h)

theorem ChunksInv.refusesRightly_iff (inv : ChunksInv h free) (power : PowerOfTwo align) :
    RefusesRightly h size align ↔
      ((∃ p ∈ free, h.Fits (roundUp size 16) align p) ↔ ∃ p ∈ free, HasRoom h size align p) := by
  have unique {other : List UInt32} (list : h.FreeList other) : other = free :=
    list.unique inv.chain
  rcases inv.alloc_cases size align with ⟨none, null⟩ | ⟨before, p, after, split, -, fits, carved⟩
  · have nothing : ¬ ∃ p ∈ free, h.Fits (roundUp size 16) align p :=
      fun some => none some.choose some.choose_spec.1 some.choose_spec.2
    constructor
    · intro rightly
      obtain ⟨other, ret, h', list, called, answer, -⟩ := rightly
      obtain ⟨rfl, -⟩ := Prod.mk.inj (Option.some.inj (null.symm.trans called))
      rw [unique list] at answer
      exact ⟨fun some => absurd some nothing, fun room => absurd rfl (answer.mpr room)⟩
    · intro same
      refine ⟨free, 0, h, inv.chain, null, ?_, fun _ => rfl⟩
      exact ⟨fun nonnull => absurd rfl nonnull, fun room => absurd (same.mpr room) nothing⟩
  · have member : p ∈ free := by
      rw [split]
      exact List.mem_append_right _ List.mem_cons_self
    have nonnull := inv.carve_nonnull power (s := roundUp size 16) member
    constructor
    · intro rightly
      obtain ⟨other, ret, h', list, called, answer, -⟩ := rightly
      have value := Prod.mk.inj (Option.some.inj (carved.symm.trans called))
      rw [unique list, ← value.1] at answer
      exact ⟨fun _ => answer.mp nonnull, fun _ => ⟨p, member, fits⟩⟩
    · intro same
      refine ⟨free, _, _, inv.chain, carved, ?_, fun null => absurd null nonnull⟩
      exact ⟨fun _ => same.mp ⟨p, member, fits⟩, fun _ => nonnull⟩

/-- The call neither rounds its size to nothing nor comes, before a chunk with room, to a chunk
at which the subtraction wraps. -/
def NoWrap (h : Heap) (size : UInt32) (align : UInt16) : Prop :=
  size.toNat ≤ 0xFFFFFFF0 ∧ ∀ before p after, h.FreeList (before ++ p :: after) →
    Wraps h size align p → ∃ q ∈ before, HasRoom h size align q

/-- The chunks of the list are such that a wrap makes no difference. -/
def WrapsHarmlessly (h : Heap) (size : UInt32) (align : UInt16) (free : List UInt32) : Prop :=
  if size.toNat ≤ 0xFFFFFFF0 then
    (∃ p ∈ free, HasRoom h size align p) ∨ ∀ p ∈ free, ¬ Wraps h size align p
  else ∀ p ∈ free, h.size p = lost p align

/-- In any state with the invariant a call is right exactly if no wrap makes a difference. -/
theorem ChunksInv.harmless_iff (inv : ChunksInv h free) (power : PowerOfTwo align) :
    RefusesRightly h size align ↔ WrapsHarmlessly h size align free := by
  rw [inv.refusesRightly_iff power, WrapsHarmlessly]
  by_cases small : size.toNat ≤ 0xFFFFFFF0
  · rw [if_pos small]
    have tests (p : UInt32) (member : p ∈ free) :
        h.Fits (roundUp size 16) align p ↔ HasRoom h size align p ∨ Wraps h size align p :=
      fits_iff power (inv.bounds member).1 small (inv.bounds member).2
    constructor
    · intro same
      by_cases room : ∃ p ∈ free, HasRoom h size align p
      · exact Or.inl room
      · refine Or.inr fun p member wraps => room (same.mp ⟨p, member, ?_⟩)
        exact (tests p member).mpr (Or.inr wraps)
    · intro harmless
      constructor
      · intro some
        obtain ⟨p, member, fits⟩ := some
        rcases harmless with room | none
        · exact room
        · exact ⟨p, member, ((tests p member).mp fits).resolve_right (none p member)⟩
      · intro room
        obtain ⟨p, member, fits⟩ := room
        exact ⟨p, member, (tests p member).mpr (Or.inl fits)⟩
  · rw [if_neg small]
    have zero := roundUp_wraps (Nat.lt_of_not_le small)
    have noRoom : ¬ ∃ p ∈ free, HasRoom h size align p :=
      fun room => small (hasRoom_small room.choose_spec.2)
    have tests (p : UInt32) : h.Fits (roundUp size 16) align p ↔ h.size p ≠ lost p align := by
      have bound := (h.size p).toNat_lt
      have other := (lost p align).toNat_lt
      have none : (0 : UInt32).toNat = 0 := rfl
      rw [zero, Heap.Fits, UInt32.le_iff_toNat_le, UInt32.lt_iff_toNat_lt, UInt32.toNat_sub, none,
        ne_eq, ← UInt32.toNat_inj]
      omega
    constructor
    · intro same p member
      by_cases equal : h.size p = lost p align
      · exact equal
      · exact absurd (same.mp ⟨p, member, (tests p).mpr equal⟩) noRoom
    · intro equal
      refine ⟨fun some => ?_, fun room => absurd room noRoom⟩
      obtain ⟨p, member, fits⟩ := some
      exact absurd (equal p member) ((tests p).mp fits)

theorem ChunksInv.noWrap (inv : ChunksInv h free) (small : size.toNat ≤ 0xFFFFFFF0)
    (none : ∀ p ∈ free, ¬ Wraps h size align p) : NoWrap h size align := by
  refine ⟨small, fun before p after list wraps => absurd wraps (none p ?_)⟩
  rw [inv.chain.unique list]
  exact List.mem_append_right _ List.mem_cons_self

/-- A call without a wrap is right. -/
theorem ChunksInv.noWrap_right (inv : ChunksInv h free) (power : PowerOfTwo align)
    (noWrap : NoWrap h size align) : RefusesRightly h size align := by
  rw [inv.harmless_iff power, WrapsHarmlessly, if_pos noWrap.1]
  by_cases room : ∃ p ∈ free, HasRoom h size align p
  · exact Or.inl room
  · refine Or.inr fun p member wraps => ?_
    obtain ⟨before, after, split⟩ := List.append_of_mem member
    have list := inv.chain
    rw [split] at list
    obtain ⟨q, inFront, larger⟩ := noWrap.2 before p after list wraps
    refine room ⟨q, ?_, larger⟩
    rw [split]
    exact List.mem_append_left _ inFront

/-- A call without a wrap carves a chunk with room, and the invariant stays. -/
theorem ChunksInv.called (inv : ChunksInv h free) (power : PowerOfTwo align)
    (noWrap : NoWrap h size align) (returns : alloc size align h = some (ret, h')) :
    ∃ free', ChunksInv h' free' := by
  rcases inv.alloc_cases size align with ⟨-, null⟩ | ⟨before, p, after, split, none, fits, carved⟩
  · obtain ⟨-, rfl⟩ := Prod.mk.inj (Option.some.inj (null.symm.trans returns))
    exact ⟨free, inv⟩
  · subst split
    have member : p ∈ before ++ p :: after := List.mem_append_right _ List.mem_cons_self
    have bounds := inv.bounds member
    have tests := (fits_iff power bounds.1 noWrap.1 bounds.2).mp fits
    have room : HasRoom h size align p := by
      apply tests.resolve_right
      intro wraps
      obtain ⟨q, inFront, larger⟩ := noWrap.2 before p after inv.chain wraps
      have listed : q ∈ before ++ p :: after := List.mem_append_left _ inFront
      have other := inv.bounds listed
      exact none q inFront ((fits_iff power other.1 noWrap.1 other.2).mpr (Or.inl larger))
    have gap := lost_eq_gap power bounds.1
    have rounded := roundUp_units noWrap.1
    have multiple := (lost_spec p align power (inv.aligned p member) bounds.1).1
    have numbers : Carved h p (roundUp size 16) (lost p align) := by
      refine ⟨multiple, ?_, ?_⟩
      · rw [rounded, wholeUnits]
        omega
      · rw [gap.1, rounded]
        exact room
    have result : h' = (carve h (roundUp size 16) align p).2 :=
      congrArg Prod.snd (Option.some.inj (returns.symm.trans carved))
    rw [result, carve]
    split
    · rename_i inside
      exact ⟨_, inv.carveInside numbers (UInt32.le_iff_toNat_le.mp inside)⟩
    · exact ⟨_, inv.carveFront numbers⟩

end Call

/-- The states that `init_mem` and any calls lead to that meet a condition. In between anything may
be written but the headers of the chunks. -/
inductive ChunksRun (meets : Heap → UInt32 → UInt16 → Prop) (kernelEnd : UInt32) : Heap → Prop
  | start (m : Mem) : ChunksRun meets kernelEnd (initMem kernelEnd m)
  | call {h h' : Heap} {size ret : UInt32} {align : UInt16} (run : ChunksRun meets kernelEnd h)
      (power : PowerOfTwo align) (met : meets h size align)
      (returns : alloc size align h = some (ret, h')) : ChunksRun meets kernelEnd h'
  | write {h : Heap} {mem : Mem} {free : List UInt32} (run : ChunksRun meets kernelEnd h)
      (list : h.FreeList free) (kept : ∀ p ∈ free, Agree p.toNat 8 h.mem mem) :
      ChunksRun meets kernelEnd { h with mem }

theorem initMem_chunks (kernelEnd : UInt32) (m : Mem) (placed : Placed kernelEnd) :
    ChunksInv (initMem kernelEnd m) [roundUp kernelEnd 16] := by
  have inv := initMem_inv kernelEnd m placed
  refine ⟨inv.chain, inv.aligned, inv.units, Nat.zero_le _, ?_⟩
  exact (inv.chunk_within List.mem_cons_self).2

theorem ChunksInv.written {h : Heap} {free : List UInt32} {mem : Mem} (inv : ChunksInv h free)
    (kept : ∀ p ∈ free, Agree p.toNat 8 h.mem mem) : ChunksInv { h with mem } free := by
  have next (p : UInt32) (member : p ∈ free) : Heap.next { h with mem } p = h.next p :=
    load32_congr fun x lower upper => kept p member x (by omega) (by omega)
  have size (p : UInt32) (member : p ∈ free) : Heap.size { h with mem } p = h.size p :=
    load32_congr fun x lower upper => kept p member x lower (by omega)
  refine ⟨inv.chain.congr next, inv.aligned, ?_, ?_⟩
  · intro p member
    rw [size p member]
    exact inv.units p member
  · exact inv.ascending.congr fun p member => congrArg UInt32.toNat (size p member)

theorem ChunksRun.inv {kernelEnd : UInt32} {h : Heap} (run : ChunksRun NoWrap kernelEnd h)
    (placed : Placed kernelEnd) : ∃ free, ChunksInv h free := by
  induction run with
  | start m => exact ⟨_, initMem_chunks kernelEnd m placed⟩
  | call run power met returns ih =>
      obtain ⟨free, inv⟩ := ih
      exact inv.called power met returns
  | write run list kept ih =>
      obtain ⟨free, inv⟩ := ih
      rw [list.unique inv.chain] at kept
      exact ⟨free, inv.written kept⟩

/-- In every run without a wrap, a call without a wrap is right; and any call is right exactly if
no wrap makes a difference to it. -/
theorem alloc_refuses_rightly (kernelEnd : UInt32) (placed : Placed kernelEnd) (h : Heap)
    (run : ChunksRun NoWrap kernelEnd h) (size : UInt32) (align : UInt16)
    (power : PowerOfTwo align) :
    (NoWrap h size align → RefusesRightly h size align) ∧
      ∃ free, h.FreeList free ∧
        (RefusesRightly h size align ↔ WrapsHarmlessly h size align free) := by
  obtain ⟨free, inv⟩ := run.inv placed
  exact ⟨inv.noWrap_right power, free, inv.chain, inv.harmless_iff power⟩

/-- The gap in front of a page is too small for the next request. -/
theorem gap_is_refused :
    ∃ h, alloc 16 4096 (initMem 0xC0120010 fun _ => 0) = some (0xC0121000, h) ∧
      (NoWrap h 0x2000 1 → RefusesRightly h 0x2000 1) ∧
      ∃ free, h.FreeList free ∧
        (RefusesRightly h 0x2000 1 ↔ WrapsHarmlessly h 0x2000 1 free) := by
  have placed : Placed 0xC0120010 := ⟨by decide, by decide⟩
  have inv := initMem_chunks 0xC0120010 (fun _ => 0) placed
  have whole : ∀ p ∈ [roundUp 0xC0120010 16],
      ¬ Wraps (initMem 0xC0120010 fun _ => 0) 16 4096 p := by
    intro p member
    rw [List.mem_singleton.mp member]
    decide
  have page : PowerOfTwo 4096 := ⟨12, by decide, by decide⟩
  have returns : alloc 16 4096 (initMem 0xC0120010 fun _ => 0) =
      some (carveInside (initMem 0xC0120010 fun _ => 0) 16 0xC0120010 0xFF0) := rfl
  have run := (ChunksRun.start fun _ => 0).call page (inv.noWrap (by decide) whole) returns
  exact ⟨_, returns, alloc_refuses_rightly 0xC0120010 placed _ run 0x2000 1 ⟨0, by decide, rfl⟩⟩

/-- The largest size rounds up to nothing, and the whole arena is enough for that. -/
theorem largest_size_is_granted :
    ¬ ∀ kernelEnd h, Placed kernelEnd → ChunksRun (fun _ _ _ => True) kernelEnd h →
      ∀ size align, PowerOfTwo align → RefusesRightly h size align := by
  intro claim
  have placed : Placed 0xC0180000 := ⟨by decide, by decide⟩
  have one : PowerOfTwo 1 := ⟨0, by decide, rfl⟩
  have rightly := claim 0xC0180000 (initMem 0xC0180000 fun _ => 0) placed (.start _) 0xFFFFFFFF 1
    one
  have inv := initMem_chunks 0xC0180000 (fun _ => 0) placed
  have harmless := (inv.harmless_iff one).mp rightly
  rw [WrapsHarmlessly, if_neg (by decide)] at harmless
  have empty := harmless _ List.mem_cons_self
  have unit := (inv.units _ List.mem_cons_self).1
  rw [empty, lost_one] at unit
  exact absurd unit (by decide)

end FrogOS
