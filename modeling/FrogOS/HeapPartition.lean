import FrogOS.Heap

set_option autoImplicit false

namespace FrogOS

open ByteMemory LinkedChain Tiling

/-- A block that `alloc` returned, with the request it answers. -/
structure Grant where
  ret : UInt32
  size : UInt32
  align : UInt16

def Grant.span (g : Grant) : Span := ⟨g.ret.toNat, (roundUp g.size 16).toNat⟩

structure Request (size : UInt32) (align : UInt16) : Prop where
  positive : 1 ≤ size.toNat
  bounded : size.toNat ≤ 0xC00000
  power : PowerOfTwo align

/-- The linker puts the end of the image behind its start, and leaves at least
one unit of the mapped window free. -/
structure Placed (kernelEnd : UInt32) : Prop where
  lower : 0xC0100000 ≤ kernelEnd.toNat
  upper : kernelEnd.toNat + 16 ≤ arenaEnd.toNat

/-- The states `init_mem` and any sequence of allowed calls lead to, with the
blocks returned on the way. -/
inductive AllocRun (allowed : Heap → UInt32 → UInt16 → Prop) (kernelEnd : UInt32) :
    Heap → List Grant → Prop
  | start (m : Mem) : AllocRun allowed kernelEnd (initMem kernelEnd m) []
  | call {h h' : Heap} {grants : List Grant} {size ret : UInt32} {align : UInt16}
      (run : AllocRun allowed kernelEnd h grants) (request : Request size align)
      (permitted : allowed h size align) (returns : alloc size align h = some (ret, h')) :
      AllocRun allowed kernelEnd h' (if ret = 0 then grants else ⟨ret, size, align⟩ :: grants)

/-- What the arena looks like between two calls. -/
structure HeapPartition (lo : Nat) (h : Heap) (grants : List Grant) (free : List UInt32) :
    Prop where
  freeList : h.FreeList free
  apart : (grants.map Grant.span).Pairwise Span.Apart
  within : ∀ g ∈ grants, g.span.Within lo arenaEnd.toNat
  multiple : ∀ g ∈ grants, g.align.toNat ∣ g.ret.toNat
  clear : ∀ g ∈ grants, ∀ p ∈ free, g.span.Apart (h.span p)
  exact : Tiles lo arenaEnd.toNat (grants.map Grant.span ++ free.map h.span)

/-- The chunk the loop picks has room for the bytes the alignment loses, and it
is the head of the list unless it is carved inside. -/
def FirstFitSound (h : Heap) (size : UInt32) (align : UInt16) : Prop :=
  ∀ before p after, h.FreeList (before ++ p :: after) →
    (∀ q ∈ before, ¬ h.Fits (roundUp size 16) align q) → h.Fits (roundUp size 16) align p →
    lost p align ≤ h.size p ∧ (lost p align < 16 → before = [])

/-- What every sound call keeps. -/
structure HeapInv (lo : Nat) (h : Heap) (grants : List Grant) (free : List UInt32) : Prop where
  chain : h.FreeList free
  low : 0 < lo
  aligned : ∀ p ∈ free, p.toNat % 16 = 0
  units : ∀ p ∈ free, 16 ≤ (h.size p).toNat ∧ (h.size p).toNat % 16 = 0
  tiles : Tiles lo arenaEnd.toNat (grants.map Grant.span ++ free.map h.span)
  whole : total (grants.map Grant.span ++ free.map h.span) = arenaEnd.toNat - lo
  blocks : ∀ g ∈ grants, 0 < g.span.size ∧ g.align.toNat ∣ g.ret.toNat

namespace HeapInv

variable {lo : Nat} {h : Heap} {grants : List Grant} {free : List UInt32}

theorem chunk_within (inv : HeapInv lo h grants free) {p : UInt32} (member : p ∈ free) :
    lo ≤ p.toNat ∧ p.toNat + (h.size p).toNat ≤ arenaEnd.toNat := by
  have unit := inv.units p member
  apply inv.tiles.within (s := h.span p)
  · exact List.mem_append_right _ (List.mem_map_of_mem member)
  · change 0 < (h.size p).toNat
    omega

/-- Two chunks of the list do not share an address. -/
theorem chunk_apart (inv : HeapInv lo h grants free) {before after : List UInt32} {p q : UInt32}
    (split : free = before ++ p :: after) (other : q ∈ before ++ after) :
    (h.span q).Apart (h.span p) := by
  have pairs := (List.pairwise_append.mp inv.tiles.apart).2.1
  rw [split, List.map_append, List.map_cons] at pairs
  obtain ⟨-, tail, across⟩ := List.pairwise_append.mp pairs
  rcases List.mem_append.mp other with front | back
  · exact across _ (List.mem_map_of_mem front) _ List.mem_cons_self
  · exact ((List.pairwise_cons.mp tail).1 _ (List.mem_map_of_mem back)).symm

/-- An address inside one chunk is not where another chunk starts. -/
theorem inside_ne (inv : HeapInv lo h grants free) {before after : List UInt32} {p q : UInt32}
    (split : free = before ++ p :: after) (other : q ∈ before ++ after) {a : Nat}
    (lower : p.toNat ≤ a) (upper : a < p.toNat + (h.size p).toNat) : q.toNat ≠ a := by
  rintro rfl
  have member : q ∈ free := by
    rw [split]
    exact List.mem_append.mpr ((List.mem_append.mp other).imp_right (List.mem_cons_of_mem p))
  have unit := inv.units q member
  apply inv.chunk_apart split other q.toNat
  exact ⟨⟨Nat.le_refl _, by change q.toNat < q.toNat + (h.size q).toNat; omega⟩, lower, upper⟩

theorem length_lt (inv : HeapInv lo h grants free) : free.length < allocFuel := by
  have units : ∀ s ∈ free.map h.span, 16 ≤ s.size := by
    intro s member
    obtain ⟨p, inside, rfl⟩ := List.mem_map.mp member
    exact (inv.units p inside).1
  have fits := length_mul_le_total units
  have whole := inv.whole
  rw [total_append] at whole
  rw [List.length_map] at fits
  have top : arenaEnd.toNat = 0xC0C00000 := rfl
  have fuel : allocFuel = 268435457 := rfl
  omega

theorem partition (inv : HeapInv lo h grants free) : HeapPartition lo h grants free where
  freeList := inv.chain
  apart := (List.pairwise_append.mp inv.tiles.apart).1
  within := fun g member => inv.tiles.within
    (List.mem_append_left _ (List.mem_map_of_mem member)) (inv.blocks g member).1
  multiple := fun g member => (inv.blocks g member).2
  clear := fun _ member _ inside => (List.pairwise_append.mp inv.tiles.apart).2.2 _
    (List.mem_map_of_mem member) _ (List.mem_map_of_mem inside)
  exact := inv.tiles

end HeapInv

/-- Headers that keep their sizes keep their spans. -/
theorem map_span_congr {h h' : Heap} {free : List UInt32}
    (same : ∀ q ∈ free, h'.size q = h.size q) : free.map h'.span = free.map h.span := by
  apply List.map_congr_left
  intro q member
  rw [Heap.span, Heap.span, same q member]

theorem initMem_eq (kernelEnd : UInt32) (m : Mem) :
    initMem kernelEnd m =
      ((Heap.mk m (roundUp kernelEnd 16)).setSize (roundUp kernelEnd 16)
        (arenaEnd - roundUp kernelEnd 16)).setNext (roundUp kernelEnd 16) 0 := rfl

theorem initMem_inv (kernelEnd : UInt32) (m : Mem) (placed : Placed kernelEnd) :
    HeapInv (roundUp kernelEnd 16).toNat (initMem kernelEnd m) [] [roundUp kernelEnd 16] := by
  have lower := placed.lower
  have upper := placed.upper
  have top : arenaEnd.toNat = 0xC0C00000 := rfl
  have start := roundUp_16 kernelEnd (by omega)
  have aligned : (roundUp kernelEnd 16).toNat % 16 = 0 := by omega
  have nonnull : roundUp kernelEnd 16 ≠ 0 := by
    intro zero
    rw [zero] at start
    change 0 = _ at start
    omega
  have size : (initMem kernelEnd m).size (roundUp kernelEnd 16) =
      arenaEnd - roundUp kernelEnd 16 := by
    rw [initMem_eq, Heap.size_setNext _ _ _ _ aligned aligned,
      Heap.size_setSize _ _ _ _ aligned aligned, if_pos rfl]
  have bytes : (arenaEnd - roundUp kernelEnd 16).toNat =
      arenaEnd.toNat - (roundUp kernelEnd 16).toNat := by
    rw [UInt32.toNat_sub]
    omega
  have chunk : (initMem kernelEnd m).span (roundUp kernelEnd 16) =
      ⟨(roundUp kernelEnd 16).toNat, arenaEnd.toNat - (roundUp kernelEnd 16).toNat⟩ := by
    rw [Heap.span, size, bytes]
  have last : (initMem kernelEnd m).next (roundUp kernelEnd 16) = 0 := by
    rw [initMem_eq, Heap.next_setNext _ _ _ _ aligned aligned, if_pos rfl]
  refine ⟨⟨rfl, nonnull, last⟩, by omega, ?_, ?_, ?_, ?_, by simp⟩
  · simpa using aligned
  · simp only [List.mem_singleton, forall_eq, size, bytes]
    omega
  · simp only [List.map_nil, List.nil_append, List.map_cons, chunk]
    exact tiles_single (by omega)
  · simp only [List.map_nil, List.nil_append, List.map_cons, chunk, total_cons, total_nil,
      Nat.add_zero]

/-- The picked chunk's numbers, without wrap-around; `s` is the rounded size
and `l` the number of bytes lost in front of the block. -/
structure Picked (h : Heap) (p s l : UInt32) : Prop where
  aligned : p.toNat % 16 = 0
  gap : l.toNat % 16 = 0
  unit : s.toNat % 16 = 0
  positive : 0 < s.toNat
  room : l.toNat + s.toNat < (h.size p).toNat
  below : p.toNat + (h.size p).toNat < 2 ^ 32

section Carve

variable {lo : Nat} {h : Heap} {grants : List Grant} {before after : List UInt32}
  {p s l size : UInt32} {align : UInt16}

theorem HeapInv.picked (inv : HeapInv lo h grants (before ++ p :: after))
    (request : Request size align) (fits : h.Fits (roundUp size 16) align p)
    (large : lost p align ≤ h.size p) :
    Picked h p (roundUp size 16) (lost p align) ∧
      align.toNat ∣ p.toNat + (lost p align).toNat := by
  have member : p ∈ before ++ p :: after := List.mem_append_right _ List.mem_cons_self
  have within := inv.chunk_within member
  have aligned := inv.aligned p member
  have top : arenaEnd.toNat = 0xC0C00000 := rfl
  have unit := inv.units p member
  obtain ⟨gap, multiple, -⟩ := lost_spec p align request.power aligned (by omega)
  have bounded := request.bounded
  have positive := request.positive
  have rounded := roundUp_16 size (by omega)
  have remains := UInt32.lt_iff_toNat_lt.mp fits.2
  rw [UInt32.toNat_sub_of_le _ _ large] at remains
  have order := UInt32.le_iff_toNat_le.mp large
  exact ⟨⟨aligned, gap, by omega, by omega, by omega, by omega⟩, multiple⟩

/-- The tiling seen from the picked chunk. -/
theorem HeapInv.tiles_picked (inv : HeapInv lo h grants (before ++ p :: after)) :
    Tiles lo arenaEnd.toNat
      (h.span p :: (grants.map Grant.span ++ (before ++ after).map h.span)) ∧
    (h.size p).toNat + total (grants.map Grant.span ++ (before ++ after).map h.span) =
      arenaEnd.toNat - lo := by
  have same : (grants.map Grant.span ++ (before ++ p :: after).map h.span).Perm
      (h.span p :: (grants.map Grant.span ++ (before ++ after).map h.span)) := by
    simp only [List.map_append, List.map_cons, ← List.append_assoc]
    exact List.perm_middle
  refine ⟨inv.tiles.perm same, ?_⟩
  have whole := inv.whole
  rw [total_perm same, total_cons] at whole
  exact whole

/-- The other chunks start neither at the picked one nor inside it. -/
theorem HeapInv.others (inv : HeapInv lo h grants (before ++ p :: after))
    (picked : Picked h p s l) (q : UInt32) (member : q ∈ before ++ after) :
    q.toNat % 16 = 0 ∧ 16 ≤ (h.size q).toNat ∧ (h.size q).toNat % 16 = 0 ∧ q ≠ p ∧
      ∀ x : UInt32, p.toNat ≤ x.toNat → x.toNat < p.toNat + (h.size p).toNat → q ≠ x := by
  have inside : q ∈ before ++ p :: after :=
    List.mem_append.mpr ((List.mem_append.mp member).imp_right (List.mem_cons_of_mem p))
  have room := picked.room
  have differs : ∀ x : UInt32, p.toNat ≤ x.toNat → x.toNat < p.toNat + (h.size p).toNat →
      q ≠ x := by
    rintro x lower upper rfl
    exact inv.inside_ne rfl member lower upper rfl
  exact ⟨inv.aligned q inside, (inv.units q inside).1, (inv.units q inside).2,
    differs p (Nat.le_refl _) (by omega), differs⟩

/-- The links after the four stores, at any header of the old or the new list. -/
theorem carveInside_next (hp : p.toNat % 16 = 0) (hn : (p + l + s).toNat % 16 = 0)
    (q : UInt32) (hq : q.toNat % 16 = 0) :
    (carveInside h s p l).2.next q =
      if q = p then p + l + s else if q = p + l + s then h.next p else h.next q := by
  rw [carveInside, Heap.next_setNext _ _ _ _ hp hq, Heap.next_setSize _ _ _ _ hp hq,
    Heap.next_setSize _ _ _ _ hn hq, Heap.next_setNext _ _ _ _ hn hq]

theorem carveInside_size (hp : p.toNat % 16 = 0) (hn : (p + l + s).toNat % 16 = 0)
    (q : UInt32) (hq : q.toNat % 16 = 0) :
    (carveInside h s p l).2.size q =
      if q = p then l else if q = p + l + s then h.size p - (l + s) else h.size q := by
  rw [carveInside, Heap.size_setNext _ _ _ _ hp hq, Heap.size_setSize _ _ _ _ hp hq,
    Heap.size_setSize _ _ _ _ hn hq, Heap.size_setNext _ _ _ _ hn hq,
    Heap.size_setNext _ _ _ _ hn hp]

theorem carveFront_next (hn : (p + s).toNat % 16 = 0) (q : UInt32) (hq : q.toNat % 16 = 0) :
    (carveFront h s p).2.next q = if q = p + s then h.next p else h.next q := by
  change Heap.next ((h.setNext (p + s) (h.next p)).setSize (p + s) _) q = _
  rw [Heap.next_setSize _ _ _ _ hn hq, Heap.next_setNext _ _ _ _ hn hq]

theorem carveFront_size (hp : p.toNat % 16 = 0) (hn : (p + s).toNat % 16 = 0)
    (q : UInt32) (hq : q.toNat % 16 = 0) :
    (carveFront h s p).2.size q = if q = p + s then h.size p - s else h.size q := by
  change Heap.size ((h.setNext (p + s) (h.next p)).setSize (p + s)
    ((h.setNext (p + s) (h.next p)).size p - s)) q = _
  rw [Heap.size_setSize _ _ _ _ hn hq, Heap.size_setNext _ _ _ _ hn hq,
    Heap.size_setNext _ _ _ _ hn hp]

theorem forall_others {P : UInt32 → Prop} (all : ∀ q ∈ before ++ p :: after, P q) :
    ∀ q ∈ before ++ after, P q := by
  intro q member
  exact all q (List.mem_append.mpr
    ((List.mem_append.mp member).imp_right (List.mem_cons_of_mem p)))

/-- What holds of the chunks that stay, of the picked one and of the new one. -/
theorem forall_carved {P : UInt32 → Prop} {fresh : UInt32} (others : ∀ q ∈ before ++ after, P q)
    (picked : P p) (new : P fresh) : ∀ q ∈ before ++ p :: fresh :: after, P q := by
  intro q member
  simp only [List.mem_append, List.mem_cons] at member
  rcases member with front | rfl | rfl | back
  · exact others q (List.mem_append_left _ front)
  · exact picked
  · exact new
  · exact others q (List.mem_append_right _ back)

/-- The list behind `carveInside`: the picked chunk is followed by a new one, the others are as they
were. -/
theorem carveInside_headers (chain : h.FreeList (before ++ p :: after))
    (aligned : ∀ q ∈ before ++ p :: after, q.toNat % 16 = 0)
    (others : ∀ q ∈ before ++ after, q ≠ p ∧ q ≠ p + l + s)
    (freshAligned : (p + l + s).toNat % 16 = 0) (nonnull : p + l + s ≠ 0) (ne : p + l + s ≠ p) :
    (carveInside h s p l).2.FreeList (before ++ p :: (p + l + s) :: after) ∧
      (∀ q ∈ before ++ after, (carveInside h s p l).2.size q = h.size q) ∧
      (carveInside h s p l).2.size p = l ∧
      (carveInside h s p l).2.size (p + l + s) = h.size p - (l + s) := by
  have alignedP := aligned p (List.mem_append_right _ List.mem_cons_self)
  have nextAt := carveInside_next (h := h) alignedP freshAligned
  have sizeAt := carveInside_size (h := h) alignedP freshAligned
  have old := forall_others aligned
  have links : ∀ q ∈ before ++ after, (carveInside h s p l).2.next q = h.next q := by
    intro q member
    rw [nextAt q (old q member), if_neg (others q member).1, if_neg (others q member).2]
  refine ⟨?_, ?_, ?_, ?_⟩
  · obtain ⟨r, front, start, present, back⟩ := path_append.mp chain
    apply path_append.mpr
    refine ⟨r, ?_, start, present, ?_, nonnull, ?_⟩
    · exact front.congr fun q member => links q (List.mem_append_left _ member)
    · rw [nextAt p alignedP, if_pos rfl]
    · rw [nextAt _ freshAligned, if_neg ne, if_pos rfl]
      exact back.congr fun q member => links q (List.mem_append_right _ member)
  · intro q member
    rw [sizeAt q (old q member), if_neg (others q member).1, if_neg (others q member).2]
  · rw [sizeAt p alignedP, if_pos rfl]
  · rw [sizeAt _ freshAligned, if_neg ne, if_pos rfl]

/-- The list behind `carveFront`: a new chunk, and those that followed the carved one. -/
theorem carveFront_headers (chain : Chain h.next 0 (h.next p) after)
    (aligned : ∀ q ∈ p :: after, q.toNat % 16 = 0) (others : ∀ q ∈ after, q ≠ p + s)
    (freshAligned : (p + s).toNat % 16 = 0) (nonnull : p + s ≠ 0) :
    (carveFront h s p).2.FreeList ((p + s) :: after) ∧
      (∀ q ∈ after, (carveFront h s p).2.size q = h.size q) ∧
      (carveFront h s p).2.size (p + s) = h.size p - s := by
  have nextAt := carveFront_next (h := h) (p := p) freshAligned
  have sizeAt := carveFront_size (h := h) (aligned p List.mem_cons_self) freshAligned
  have old (q : UInt32) (member : q ∈ after) := aligned q (List.mem_cons_of_mem p member)
  refine ⟨⟨rfl, nonnull, ?_⟩, ?_, ?_⟩
  · rw [nextAt _ freshAligned, if_pos rfl]
    apply chain.congr
    intro q member
    rw [nextAt q (old q member), if_neg (others q member)]
  · intro q member
    rw [sizeAt q (old q member), if_neg (others q member)]
  · rw [sizeAt _ freshAligned, if_pos rfl]

/-- The header behind `d` carved bytes: no number wraps, and the new header can be linked. -/
theorem carved_header {d bytes : UInt32} (aligned : p.toNat % 16 = 0) (unit : d.toNat % 16 = 0)
    (positive : 0 < p.toNat + d.toNat) (room : d.toNat ≤ bytes.toNat)
    (within : p.toNat + bytes.toNat ≤ arenaEnd.toNat) :
    (p + d).toNat = p.toNat + d.toNat ∧ (bytes - d).toNat = bytes.toNat - d.toNat ∧
      (p + d).toNat % 16 = 0 ∧ p + d ≠ 0 := by
  have edge : arenaEnd.toNat = 0xC0C00000 := rfl
  have start : (p + d).toNat = p.toNat + d.toNat := by
    rw [UInt32.toNat_add]
    omega
  have rest := UInt32.toNat_sub_of_le _ _ (UInt32.le_iff_toNat_le.mpr room)
  refine ⟨start, rest, by omega, ?_⟩
  intro null
  have value := congrArg UInt32.toNat null
  rw [start] at value
  change _ = 0 at value
  omega

/-- The same where a gap of `l` bytes stays in front of the block. -/
theorem carved_header_inside {bytes : UInt32} (aligned : p.toNat % 16 = 0)
    (gap : l.toNat % 16 = 0) (unit : s.toNat % 16 = 0) (inside : 16 ≤ l.toNat)
    (room : l.toNat + s.toNat ≤ bytes.toNat)
    (within : p.toNat + bytes.toNat ≤ arenaEnd.toNat) :
    (p + l + s).toNat = p.toNat + l.toNat + s.toNat ∧
      (bytes - (l + s)).toNat = bytes.toNat - (l.toNat + s.toNat) ∧
      (p + l + s).toNat % 16 = 0 ∧ p + l + s ≠ 0 ∧ p + l + s ≠ p := by
  have bound := bytes.toNat_lt
  have both : (l + s).toNat = l.toNat + s.toNat := by
    rw [UInt32.toNat_add]
    omega
  obtain ⟨start, rest, onGrid, nonnull⟩ :=
    carved_header (d := l + s) aligned (by omega) (by omega) (by omega) within
  rw [both] at start rest
  rw [UInt32.add_assoc]
  refine ⟨by omega, rest, onGrid, nonnull, ?_⟩
  intro same
  have value := congrArg UInt32.toNat same
  omega

/-- Carving inside keeps the chunk with the bytes in front of the block and
links a chunk with the bytes behind it after it. -/
theorem carveInside_inv (inv : HeapInv lo h grants (before ++ p :: after))
    (picked : Picked h p (roundUp size 16) l) (inside : 16 ≤ l.toNat)
    (multiple : align.toNat ∣ p.toNat + l.toNat) :
    HeapInv lo (carveInside h (roundUp size 16) p l).2 (⟨p + l, size, align⟩ :: grants)
      (before ++ p :: (p + l + roundUp size 16) :: after) := by
  have others := inv.others picked
  have within := (inv.chunk_within (List.mem_append_right _ List.mem_cons_self)).2
  obtain ⟨tiles, whole⟩ := inv.tiles_picked
  obtain ⟨aligned, gap, unit, positive, room, below⟩ := picked
  have unitP := inv.units p (List.mem_append_right _ List.mem_cons_self)
  generalize hs : roundUp size 16 = s at *
  have ret : (p + l).toNat = p.toNat + l.toNat := by
    rw [UInt32.toNat_add]
    omega
  obtain ⟨fresh, rest, freshAligned, nonnull, ne⟩ :=
    carved_header_inside aligned gap unit inside (by omega) within
  have apart : ∀ q ∈ before ++ after, q ≠ p ∧ q ≠ p + l + s := by
    intro q member
    obtain ⟨-, -, -, notP, notInside⟩ := others q member
    exact ⟨notP, notInside (p + l + s) (by omega) (by omega)⟩
  obtain ⟨chain, keep, sizeP, sizeFresh⟩ :=
    carveInside_headers inv.chain inv.aligned apart freshAligned nonnull ne
  have spanP : (carveInside h s p l).2.span p = ⟨p.toNat, l.toNat⟩ := by
    rw [Heap.span, sizeP]
  have spanFresh : (carveInside h s p l).2.span (p + l + s) =
      ⟨p.toNat + l.toNat + s.toNat, (h.size p).toNat - (l.toNat + s.toNat)⟩ := by
    rw [Heap.span, sizeFresh, fresh, rest]
  have grantSpan : Grant.span ⟨p + l, size, align⟩ = ⟨p.toNat + l.toNat, s.toNat⟩ := by
    rw [Grant.span, ret, hs]
  have same : ((⟨p + l, size, align⟩ :: grants).map Grant.span ++
      (before ++ p :: (p + l + s) :: after).map (carveInside h s p l).2.span).Perm
      (⟨p.toNat, l.toNat⟩ :: ⟨p.toNat + l.toNat, s.toNat⟩ ::
        ⟨p.toNat + l.toNat + s.toNat, (h.size p).toNat - (l.toNat + s.toNat)⟩ ::
        (grants.map Grant.span ++ (before ++ after).map h.span)) := by
    rw [← map_span_congr keep]
    simp only [List.map_cons, List.map_append, grantSpan, spanP, spanFresh, List.cons_append,
      ← List.append_assoc]
    refine (List.Perm.cons _ List.perm_middle).trans ?_
    refine (List.Perm.swap _ _ _).trans (List.Perm.cons _ (List.Perm.cons _ ?_))
    exact List.perm_middle
  have cuts : h.span p = ⟨p.toNat, l.toNat + (s.toNat + ((h.size p).toNat -
      (l.toNat + s.toNat)))⟩ := by
    rw [Heap.span]
    congr 1
    omega
  rw [cuts] at tiles
  refine ⟨chain, inv.low, ?_, ?_, tiles.cut_twice.perm same.symm, ?_, ?_⟩
  · exact forall_carved (forall_others inv.aligned) aligned freshAligned
  · apply forall_carved
    · intro q member
      rw [keep q member]
      exact forall_others inv.units q member
    · rw [sizeP]
      exact ⟨inside, gap⟩
    · rw [sizeFresh, rest]
      omega
  · rw [total_perm same]
    simp only [total_cons]
    omega
  · intro g member
    rcases List.mem_cons.mp member with rfl | old
    · rw [grantSpan, ret]
      exact ⟨positive, multiple⟩
    · exact inv.blocks g old

/-- Carving at the head of the list, where no byte is lost: the chunk that the
branch returns is the one it carved. -/
theorem carveFront_inv (inv : HeapInv lo h grants (p :: after))
    (picked : Picked h p (roundUp size 16) l) (none : l.toNat = 0)
    (multiple : align.toNat ∣ p.toNat + l.toNat) :
    HeapInv lo (carveFront h (roundUp size 16) p).2 (⟨p, size, align⟩ :: grants)
      ((p + roundUp size 16) :: after) := by
  have others := HeapInv.others (show HeapInv lo h grants ([] ++ p :: after) from inv) picked
  have within := (inv.chunk_within List.mem_cons_self).2
  obtain ⟨tiles, whole⟩ :=
    HeapInv.tiles_picked (show HeapInv lo h grants ([] ++ p :: after) from inv)
  simp only [List.nil_append] at tiles whole
  obtain ⟨aligned, gap, unit, positive, room, below⟩ := picked
  have unitP := inv.units p List.mem_cons_self
  generalize hs : roundUp size 16 = s at *
  obtain ⟨fresh, rest, freshAligned, nonnull⟩ :=
    carved_header aligned unit (by omega) (by omega) within
  have apart : ∀ q ∈ after, q ≠ p + s := by
    intro q member
    obtain ⟨-, -, -, -, notInside⟩ := others q member
    exact notInside (p + s) (by omega) (by omega)
  obtain ⟨-, -, back⟩ := inv.chain
  obtain ⟨chain, keep, sizeFresh⟩ :=
    carveFront_headers back inv.aligned apart freshAligned nonnull
  have spanFresh : (carveFront h s p).2.span (p + s) =
      ⟨p.toNat + s.toNat, (h.size p).toNat - s.toNat⟩ := by
    rw [Heap.span, sizeFresh, fresh, rest]
  have grantSpan : Grant.span ⟨p, size, align⟩ = ⟨p.toNat, s.toNat⟩ := by
    rw [Grant.span, hs]
  have same : ((⟨p, size, align⟩ :: grants).map Grant.span ++
      ((p + s) :: after).map (carveFront h s p).2.span).Perm
      (⟨p.toNat, s.toNat⟩ :: ⟨p.toNat + s.toNat, (h.size p).toNat - s.toNat⟩ ::
        (grants.map Grant.span ++ after.map h.span)) := by
    rw [← map_span_congr keep]
    simp only [List.map_cons, grantSpan, spanFresh, List.cons_append]
    exact List.Perm.cons _ List.perm_middle
  have cuts : h.span p = ⟨p.toNat, s.toNat + ((h.size p).toNat - s.toNat)⟩ := by
    rw [Heap.span]
    congr 1
    omega
  rw [cuts] at tiles
  refine ⟨chain, inv.low, ?_, ?_, tiles.cut.perm same.symm, ?_, ?_⟩
  · intro q member
    rcases List.mem_cons.mp member with rfl | back
    · exact freshAligned
    · exact (others _ back).1
  · intro q member
    rcases List.mem_cons.mp member with rfl | back
    · rw [sizeFresh, rest]
      omega
    · rw [keep q back]
      exact inv.units q (List.mem_cons_of_mem p back)
  · rw [total_perm same]
    simp only [total_cons]
    omega
  · intro g member
    rcases List.mem_cons.mp member with rfl | old
    · rw [grantSpan]
      rw [none, Nat.add_zero] at multiple
      exact ⟨positive, multiple⟩
    · exact inv.blocks g old

end Carve

section Run

variable {lo : Nat} {kernelEnd : UInt32} {h h' : Heap} {grants : List Grant}
  {free : List UInt32} {size ret : UInt32} {align : UInt16}

/-- What one call does: nothing, or it carves the first chunk that passes. -/
theorem HeapInv.alloc_cases (inv : HeapInv lo h grants free) (size : UInt32) (align : UInt16) :
    ((∀ p ∈ free, ¬ h.Fits (roundUp size 16) align p) ∧ alloc size align h = some (0, h)) ∨
    ∃ before p after, free = before ++ p :: after ∧
      (∀ q ∈ before, ¬ h.Fits (roundUp size 16) align q) ∧ h.Fits (roundUp size 16) align p ∧
      alloc size align h = some (carve h (roundUp size 16) align p) :=
  allocLoop_first_fit (roundUp size 16) align h free allocFuel inv.length_lt h.highMem inv.chain

/-- A sound call keeps the invariant, and its block is the granted one. -/
theorem HeapInv.alloc_inv (inv : HeapInv lo h grants free) (request : Request size align)
    (sound : FirstFitSound h size align) (returns : alloc size align h = some (ret, h')) :
    ∃ free', HeapInv lo h' (if ret = 0 then grants else ⟨ret, size, align⟩ :: grants) free' := by
  rcases inv.alloc_cases size align with
    ⟨-, failed⟩ | ⟨before, p, after, rfl, none, fits, carved⟩
  · obtain ⟨rfl, rfl⟩ := Prod.mk.inj (Option.some.inj (returns.symm.trans failed))
    rw [if_pos rfl]
    exact ⟨free, inv⟩
  · obtain ⟨large, front⟩ := sound before p after inv.chain none fits
    obtain ⟨picked, multiple⟩ := inv.picked request fits large
    have within := inv.chunk_within (List.mem_append_right before List.mem_cons_self)
    have low := inv.low
    have room := picked.room
    have below := picked.below
    have result := Option.some.inj (returns.symm.trans carved)
    unfold carve at result
    split at result
    · rename_i inside
      rw [ge_iff_le, UInt32.le_iff_toNat_le] at inside
      have nonnull : ret ≠ 0 := by
        intro zero
        have value : ret = p + lost p align := congrArg Prod.fst result
        have number := congrArg UInt32.toNat (value.symm.trans zero)
        rw [UInt32.toNat_add] at number
        change _ = 0 at number
        omega
      have kept := carveInside_inv inv picked inside multiple
      rw [if_neg nonnull, show ret = p + lost p align from congrArg Prod.fst result,
        show h' = _ from congrArg Prod.snd result]
      exact ⟨_, kept⟩
    · rename_i outside
      have small : lost p align < 16 := UInt32.not_le.mp outside
      obtain rfl := front small
      rw [UInt32.lt_iff_toNat_lt] at small
      have gap := picked.gap
      have zeroLost : (lost p align).toNat = 0 := by
        change _ < 16 at small
        omega
      have head : h.highMem = p := inv.chain.1
      have value : ret = p := (congrArg Prod.fst result).trans head
      have nonnull : ret ≠ 0 := by
        rw [value]
        exact inv.chain.2.1
      have kept := carveFront_inv inv picked zeroLost multiple
      rw [if_neg nonnull, value, show h' = _ from congrArg Prod.snd result]
      exact ⟨_, kept⟩

theorem AllocRun.inv (run : AllocRun FirstFitSound kernelEnd h grants)
    (placed : Placed kernelEnd) :
    ∃ free, HeapInv (roundUp kernelEnd 16).toNat h grants free := by
  induction run with
  | start m => exact ⟨_, initMem_inv kernelEnd m placed⟩
  | call run request sound returns ih =>
      obtain ⟨free, inv⟩ := ih
      exact inv.alloc_inv request sound returns

/-- As long as every call picks a chunk soundly, all calls return and the
blocks and the free chunks share the arena out exactly. -/
theorem alloc_partitions_arena (run : AllocRun FirstFitSound kernelEnd h grants)
    (placed : Placed kernelEnd) :
    (∃ free, HeapPartition (roundUp kernelEnd 16).toNat h grants free) ∧
      ∀ size align, ∃ result, alloc size align h = some result := by
  obtain ⟨free, inv⟩ := run.inv placed
  refine ⟨⟨free, inv.partition⟩, ?_⟩
  intro size align
  rcases inv.alloc_cases size align with ⟨-, failed⟩ | ⟨_, _, _, _, _, _, carved⟩
  · exact ⟨_, failed⟩
  · exact ⟨_, carved⟩

/-- A request that the head of the list can serve without wrapping is sound. -/
theorem firstFitSound_of_head {p : UInt32} {after : List UInt32}
    (chain : h.FreeList (p :: after)) (fits : h.Fits (roundUp size 16) align p)
    (large : lost p align ≤ h.size p) : FirstFitSound h size align := by
  intro before q rest split skipped _
  have same := chain.unique split
  cases before with
  | nil =>
      obtain ⟨rfl, -⟩ := List.cons.inj same
      exact ⟨large, fun _ => rfl⟩
  | cons b before =>
      obtain ⟨rfl, -⟩ := List.cons.inj same
      exact absurd fits (skipped _ List.mem_cons_self)

/-- A block on a page and one in the gap in front of it, of which a part is left between them. -/
theorem two_blocks_run :
    ∃ h, AllocRun FirstFitSound 0xC0120010 h
        [⟨0xC0120010, 0x100, 1⟩, ⟨0xC0121000, 16, 4096⟩] ∧
      h.FreeList [0xC0120110, 0xC0121010] ∧ h.size 0xC0120110 = 0xEF0 ∧
      h.size 0xC0121010 = 0xADEFF0 := by
  have placed : Placed 0xC0120010 := ⟨by decide, by decide⟩
  have start := (initMem_inv 0xC0120010 (fun _ => 0) placed).chain
  let first := carveInside (initMem 0xC0120010 fun _ => 0) 16 0xC0120010 0xFF0
  have page : Request 16 4096 := ⟨by decide, by decide, 12, by decide, rfl⟩
  have small : Request 0x100 1 := ⟨by decide, by decide, 0, by decide, rfl⟩
  have returnsPage : alloc 16 4096 (initMem 0xC0120010 fun _ => 0) = some first := rfl
  have returnsSmall : alloc 0x100 1 first.2 = some (carve first.2 0x100 1 0xC0120010) := by
    have head : first.2.highMem = 0xC0120010 := by decide
    rw [alloc, head, show allocFuel = 2 ^ 28 + 1 from rfl, show roundUp 0x100 16 = 0x100 by decide]
    exact allocLoop_fits _ _ _ _ _ (by decide) (by decide)
  have gap : first.2.FreeList [0xC0120010, 0xC0121010] :=
    ⟨by decide, by decide, by decide, by decide, path_nil.mpr (by decide)⟩
  have run := AllocRun.call (AllocRun.start fun _ => 0) page
    (firstFitSound_of_head start (by decide) (by decide)) returnsPage
  have run := AllocRun.call run small
    (firstFitSound_of_head gap (by decide) (by decide)) returnsSmall
  exact ⟨_, run, ⟨by decide, by decide, by decide, by decide, path_nil.mpr (by decide)⟩,
    by decide, by decide⟩

theorem two_blocks_partition_arena :
    ∃ h, h.FreeList [0xC0120110, 0xC0121010] ∧
      (∃ free, HeapPartition (roundUp 0xC0120010 16).toNat h
        [⟨0xC0120010, 0x100, 1⟩, ⟨0xC0121000, 16, 4096⟩] free) ∧
      ∀ size align, ∃ result, alloc size align h = some result := by
  obtain ⟨h, run, free, -⟩ := two_blocks_run
  exact ⟨h, free, alloc_partitions_arena run ⟨by decide, by decide⟩⟩

/-- A page-aligned block leaves a gap in front of it. The next request is too
large for the gap, is carved behind the block and gets the gap's address. -/
theorem block_overlaps_earlier_block :
    ∃ h, AllocRun (fun _ _ _ => True) 0xC0120010 h
        [⟨0xC0120010, 0x2000, 1⟩, ⟨0xC0121000, 16, 4096⟩] ∧
      ∀ free, ¬ HeapPartition (roundUp 0xC0120010 16).toNat h
        [⟨0xC0120010, 0x2000, 1⟩, ⟨0xC0121000, 16, 4096⟩] free := by
  let first := carveInside (initMem 0xC0120010 fun _ => 0) 16 0xC0120010 0xFF0
  have page : Request 16 4096 := ⟨by decide, by decide, 12, by decide, rfl⟩
  have large : Request 0x2000 1 := ⟨by decide, by decide, 0, by decide, rfl⟩
  have returnsPage : alloc 16 4096 (initMem 0xC0120010 fun _ => 0) = some first := rfl
  have returnsLarge : alloc 0x2000 1 first.2 = some (carve first.2 0x2000 1 0xC0121010) := by
    have head : first.2.highMem = 0xC0120010 := by decide
    have second : first.2.next 0xC0120010 = 0xC0121010 := by decide
    have fuel : allocFuel = 2 ^ 28 - 1 + 1 + 1 := rfl
    rw [alloc, fuel, head, show roundUp 0x2000 16 = 0x2000 by decide,
      allocLoop_skips _ _ _ _ _ (by decide) (by decide), second]
    exact allocLoop_fits _ _ _ _ _ (by decide) (by decide)
  have run : AllocRun (fun _ _ _ => True) 0xC0120010 first.2 [⟨0xC0121000, 16, 4096⟩] :=
    AllocRun.call (AllocRun.start fun _ => 0) page trivial returnsPage
  have run := AllocRun.call run large trivial returnsLarge
  refine ⟨_, run, ?_⟩
  intro free shape
  have apart := (List.pairwise_cons.mp shape.apart).1 _ List.mem_cons_self
  exact apart 0xC0121000 (by decide)

end Run

end FrogOS
