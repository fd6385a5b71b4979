import Mathlib.Data.List.Perm.Basic
import FrogOS.LinkedChain
import FrogOS.HeapBump

set_option autoImplicit false

namespace FrogOS

open ByteMemory LinkedChain

/-- The heap, of which the pool has its slabs, and the head of the free list. -/
structure Pool where
  heap : Heap
  buffers : UInt32

/-- A buffer's first word is the link to the next one. -/
def Pool.link (p : Pool) (buff : UInt32) : UInt32 := load32 p.heap.mem buff.toNat

def bufferAt (slab : UInt32) (k : Nat) : UInt32 := slab + UInt32.ofNat (2000 * k)

/-- The first `n` rounds of the loop of `net_alloc`. -/
def linkSlab (m : Mem) (slab : UInt32) : Nat → Mem
  | 0 => m
  | n + 1 => store32 (linkSlab m slab n) (bufferAt slab n).toNat (bufferAt slab (n + 1))

/-- A new slab becomes the free list. -/
def addSlab (h : Heap) (slab : UInt32) : Pool :=
  { heap := { h with mem := linkSlab (fill h.mem slab.toNat (32 * 2000) 0) slab 31 }
    buffers := slab }

/-- The end of `net_alloc`: the first free buffer leaves the list. -/
def takeBuffer (p : Pool) : UInt32 × Pool := (p.buffers, { p with buffers := p.link p.buffers })

/-- `none` stands for a call that never returns. -/
def netAlloc (alloc : UInt32 → UInt16 → Heap → Option (UInt32 × Heap)) (p : Pool) :
    Option (UInt32 × Pool) :=
  if p.buffers = 0 then
    (alloc (32 * 2000) 1 p.heap).map fun (slab, heap) =>
      if slab ≠ 0 then takeBuffer (addSlab heap slab) else (0, { heap, buffers := 0 })
  else some (takeBuffer p)

def netFree (p : Pool) (buff : UInt32) : Pool :=
  let mem := fill p.heap.mem buff.toNat 2000 0
  { heap := { p.heap with mem := store32 mem buff.toNat p.buffers }, buffers := buff }

/-- The slab a call of `net_alloc` adds, if it adds one. -/
def newSlabs (alloc : UInt32 → UInt16 → Heap → Option (UInt32 × Heap)) (p : Pool) : List UInt32 :=
  if p.buffers = 0 then
    match alloc (32 * 2000) 1 p.heap with
    | some (slab, _) => if slab ≠ 0 then [slab] else []
    | none => []
  else []

/-- Blocks of `n` bytes that share none. -/
def Separate (n : Nat) (a b : UInt32) : Prop := a.toNat + n ≤ b.toNat ∨ b.toNat + n ≤ a.toNat

/-- What the pool needs of `alloc`: a block apart from the slabs it has, or null. -/
structure FreshSlab (p : Pool) (slabs : List UInt32) (slab : UInt32) (h : Heap) : Prop where
  kept : ∀ s ∈ slabs, Agree s.toNat 64000 p.heap.mem h.mem
  inside : slab ≠ 0 → slab.toNat + 64000 ≤ 2 ^ 32
  apart : slab ≠ 0 → ∀ s ∈ slabs, Separate 64000 slab s

/-- The runs of the pool, with the slabs taken from `alloc` and the buffers handed out. Holders
write inside their own buffers, everybody else outside the slabs. -/
inductive PoolRun (alloc : UInt32 → UInt16 → Heap → Option (UInt32 × Heap)) :
    Pool → List UInt32 → List UInt32 → Prop
  | start (heap : Heap) : PoolRun alloc { heap, buffers := 0 } [] []
  | alloc {p p' : Pool} {slabs out : List UInt32} {ret : UInt32} (run : PoolRun alloc p slabs out)
      (fresh : ∀ slab h, alloc (32 * 2000) 1 p.heap = some (slab, h) → FreshSlab p slabs slab h)
      (returns : netAlloc alloc p = some (ret, p')) :
      PoolRun alloc p' (newSlabs alloc p ++ slabs) (if ret = 0 then out else ret :: out)
  | free {p : Pool} {slabs out : List UInt32} {buff : UInt32} (run : PoolRun alloc p slabs out)
      (outstanding : buff ∈ out) : PoolRun alloc (netFree p buff) slabs (out.erase buff)
  | write {p : Pool} {slabs out : List UInt32} {buff : UInt32} {mem : Mem}
      (run : PoolRun alloc p slabs out) (outstanding : buff ∈ out)
      (within : Frame buff.toNat 2000 p.heap.mem mem) :
      PoolRun alloc { p with heap := { p.heap with mem } } slabs out
  | elsewhere {p : Pool} {slabs out : List UInt32} {heap : Heap} (run : PoolRun alloc p slabs out)
      (kept : ∀ s ∈ slabs, Agree s.toNat 64000 p.heap.mem heap.mem) :
      PoolRun alloc { p with heap } slabs out

def slabBuffers (slab : UInt32) : List UInt32 := (List.range 32).map (bufferAt slab)

/-- `free` is the free list, and together with the buffers handed out it makes up the slabs. -/
structure PoolInv (p : Pool) (slabs out free : List UInt32) : Prop where
  chain : Chain p.link 0 p.buffers free
  parts : (free ++ out).Perm (slabs.flatMap slabBuffers)
  inside : ∀ s ∈ slabs, s ≠ 0 ∧ s.toNat + 64000 ≤ 2 ^ 32
  apart : slabs.Pairwise (Separate 64000)
  zero : ∀ b ∈ free, ∀ i, 4 ≤ i → i < 2000 → p.heap.mem (b.toNat + i) = 0

/-- A buffer as `net_alloc` hands it out: behind the link it is zero. -/
def CleanBuffer (m : Mem) (buff : UInt32) : Prop :=
  ∀ i, 4 ≤ i → i < 2000 → m (buff.toNat + i) = 0

section Slab

variable {slab : UInt32} {k n : Nat}

theorem bufferAt_toNat (room : slab.toNat + 64000 ≤ 2 ^ 32) (small : k < 32) :
    (bufferAt slab k).toNat = slab.toNat + 2000 * k := by
  rw [bufferAt, UInt32.toNat_add, UInt32.toNat_ofNat']
  omega

/-- The loop writes only the first words of the buffers it has come to. -/
theorem linkSlab_other (m : Mem) (room : slab.toNat + 64000 ≤ 2 ^ 32) (upTo : n ≤ 32) (x : Nat)
    (outside : ∀ k, k < n → x < slab.toNat + 2000 * k ∨ slab.toNat + 2000 * k + 4 ≤ x) :
    linkSlab m slab n x = m x := by
  induction n with
  | zero => rfl
  | succ n ih =>
      rw [linkSlab, store32_frame _ _ _ x (by
        rw [bufferAt_toNat room (by omega)]
        exact outside n (Nat.lt_succ_self n))]
      exact ih (by omega) fun k inside => outside k (Nat.lt_succ_of_lt inside)

theorem linkSlab_link (m : Mem) (room : slab.toNat + 64000 ≤ 2 ^ 32) (upTo : n ≤ 31)
    (inside : k < n) :
    load32 (linkSlab m slab n) (bufferAt slab k).toNat = bufferAt slab (k + 1) := by
  induction n with
  | zero => exact absurd inside (Nat.not_lt_zero k)
  | succ n ih =>
      by_cases last : k = n
      · rw [last, linkSlab, load32_store32]
      · have before : k < n := by omega
        rw [linkSlab, load32_frame (store32_frame _ _ _), ih (by omega) before]
        rw [bufferAt_toNat room (by omega), bufferAt_toNat room (by omega)]
        omega

theorem mem_slabBuffers {b : UInt32} : b ∈ slabBuffers slab ↔ ∃ k < 32, b = bufferAt slab k := by
  simp only [slabBuffers, List.mem_map, List.mem_range]
  exact exists_congr fun k => and_congr_right fun _ => eq_comm

theorem slabBuffers_length : (slabBuffers slab).length = 32 := by
  rw [slabBuffers, List.length_map, List.length_range]

theorem slabBuffers_apart (room : slab.toNat + 64000 ≤ 2 ^ 32) :
    (slabBuffers slab).Pairwise (Separate 2000) := by
  rw [slabBuffers, List.pairwise_map]
  refine (List.pairwise_lt_range (n := 32)).imp_of_mem ?_
  intro i j memberI memberJ ordered
  rw [Separate, bufferAt_toNat room (List.mem_range.mp memberI),
    bufferAt_toNat room (List.mem_range.mp memberJ)]
  omega

/-- The fresh slab is one chain through all its buffers. -/
theorem addSlab_chain (h : Heap) (nonnull : slab ≠ 0) (room : slab.toNat + 64000 ≤ 2 ^ 32) :
    Chain (addSlab h slab).link 0 slab (slabBuffers slab) := by
  have positive : slab.toNat ≠ 0 := fun zero => nonnull (UInt32.toNat_inj.mp zero)
  have buffer (k : Nat) (small : k < 32) : bufferAt slab k ≠ 0 := by
    intro null
    have place := bufferAt_toNat room small
    rw [null] at place
    change 0 = _ at place
    omega
  have start : bufferAt slab 0 = slab := by
    apply UInt32.toNat_inj.mp
    rw [bufferAt_toNat room (by decide)]
    omega
  have front := path_range' (addSlab h slab).link 0 (bufferAt slab) 0 31
    fun k _ upper => ⟨buffer k (by omega), linkSlab_link _ room (Nat.le_refl 31) (by omega)⟩
  have last : (addSlab h slab).link (bufferAt slab 31) = 0 := by
    have zero : Agree (bufferAt slab 31).toNat 4 (fun _ => 0) (addSlab h slab).heap.mem := by
      intro x lower upper
      rw [bufferAt_toNat room (by decide)] at lower upper
      change linkSlab _ slab 31 x = 0
      rw [linkSlab_other _ room (by decide) x (by omega)]
      exact fill_inside _ _ _ _ _ (by omega) (by omega)
    rw [Pool.link, load32_congr zero]
    rfl
  rw [slabBuffers, List.range_succ, List.map_append, List.range_eq_range']
  refine path_append.mpr ⟨bufferAt slab 31, ?_, rfl, buffer 31 (by decide), last⟩
  rw [start] at front
  exact front

theorem addSlab_zero (h : Heap) (room : slab.toNat + 64000 ≤ 2 ^ 32) {b : UInt32}
    (member : b ∈ slabBuffers slab) (i : Nat) (lower : 4 ≤ i) (upper : i < 2000) :
    (addSlab h slab).heap.mem (b.toNat + i) = 0 := by
  obtain ⟨k, small, rfl⟩ := mem_slabBuffers.mp member
  rw [bufferAt_toNat room small]
  change linkSlab _ slab 31 _ = 0
  rw [linkSlab_other _ room (by decide) _ (by omega)]
  exact fill_inside _ _ _ _ _ (by omega) (by omega)

theorem addSlab_frame (h : Heap) (room : slab.toNat + 64000 ≤ 2 ^ 32) :
    Frame slab.toNat 64000 h.mem (addSlab h slab).heap.mem := by
  intro x outside
  change linkSlab _ slab 31 x = _
  rw [linkSlab_other _ room (by decide) x (by omega)]
  exact fill_frame _ _ _ _ x outside

end Slab

section Invariant

variable {p p' : Pool} {slabs out free : List UInt32} {b : UInt32}

theorem separate_symm {n : Nat} {a b : UInt32} (apart : Separate n a b) : Separate n b a :=
  apart.symm

theorem PoolInv.member (inv : PoolInv p slabs out free) :
    b ∈ free ++ out ↔ ∃ s ∈ slabs, ∃ k < 32, b = bufferAt s k := by
  rw [inv.parts.mem_iff, List.mem_flatMap]
  exact exists_congr fun s => and_congr_right fun _ => mem_slabBuffers

/-- Every buffer of the pool lies inside a slab. -/
theorem PoolInv.within (inv : PoolInv p slabs out free) (member : b ∈ free ++ out) :
    ∃ s ∈ slabs, s.toNat ≤ b.toNat ∧ b.toNat + 2000 ≤ s.toNat + 64000 := by
  obtain ⟨s, inside, k, small, rfl⟩ := inv.member.mp member
  refine ⟨s, inside, ?_⟩
  rw [bufferAt_toNat (inv.inside s inside).2 small]
  omega

/-- The buffers of the pool, free or handed out, share no byte. -/
theorem PoolInv.separate (inv : PoolInv p slabs out free) :
    (free ++ out).Pairwise (Separate 2000) := by
  rw [inv.parts.pairwise_iff separate_symm, List.pairwise_flatMap]
  refine ⟨fun s member => slabBuffers_apart (inv.inside s member).2, ?_⟩
  refine inv.apart.imp_of_mem ?_
  intro s t memberS memberT apart x inX y inY
  obtain ⟨i, smallI, rfl⟩ := mem_slabBuffers.mp inX
  obtain ⟨j, smallJ, rfl⟩ := mem_slabBuffers.mp inY
  rw [Separate, bufferAt_toNat (inv.inside s memberS).2 smallI,
    bufferAt_toNat (inv.inside t memberT).2 smallJ]
  unfold Separate at apart
  omega

theorem PoolInv.count (inv : PoolInv p slabs out free) :
    free.length + out.length = 32 * slabs.length := by
  rw [← List.length_append, inv.parts.length_eq, List.length_flatMap]
  have constant : slabs.map (fun s => (slabBuffers s).length) = slabs.map fun _ => 32 :=
    List.map_congr_left fun s _ => slabBuffers_length
  rw [constant, List.map_const', List.sum_replicate_nat, Nat.mul_comm]

/-- The free list is untouched by whatever leaves the free buffers alone. -/
theorem PoolInv.keep (inv : PoolInv p slabs out free) {heap : Heap}
    (same : ∀ b ∈ free, Agree b.toNat 2000 p.heap.mem heap.mem) :
    PoolInv { p with heap } slabs out free := by
  refine ⟨inv.chain.congr ?_, inv.parts, inv.inside, inv.apart, ?_⟩
  · intro b member
    exact load32_congr fun x lower upper => same b member x lower (by omega)
  · intro b member i lower upper
    have kept : heap.mem (b.toNat + i) = p.heap.mem (b.toNat + i) :=
      same b member _ (Nat.le_add_right _ _) (Nat.add_lt_add_left upper _)
    exact kept.trans (inv.zero b member i lower upper)

theorem PoolInv.elsewhere (inv : PoolInv p slabs out free) {heap : Heap}
    (kept : ∀ s ∈ slabs, Agree s.toNat 64000 p.heap.mem heap.mem) :
    PoolInv { p with heap } slabs out free := by
  refine inv.keep fun b member x lower upper => ?_
  obtain ⟨s, inside, first, last⟩ := inv.within (List.mem_append_left out member)
  exact kept s inside x (by omega) (by omega)

/-- Buffers handed out are apart from the free ones. -/
theorem PoolInv.out_apart (inv : PoolInv p slabs out free) {c : UInt32} (outstanding : b ∈ out)
    (member : c ∈ free) : Separate 2000 c b :=
  (List.pairwise_append.mp inv.separate).2.2 c member b outstanding

theorem PoolInv.write (inv : PoolInv p slabs out free) {mem : Mem} (outstanding : b ∈ out)
    (within : Frame b.toNat 2000 p.heap.mem mem) :
    PoolInv { p with heap := { p.heap with mem } } slabs out free := by
  refine inv.keep fun c member => ?_
  exact within.agree (inv.out_apart outstanding member)

/-- Taking the first buffer of a list that is not empty. -/
theorem PoolInv.take (inv : PoolInv p slabs out free) (nonnull : p.buffers ≠ 0) :
    ∃ rest, free = p.buffers :: rest ∧
      PoolInv (takeBuffer p).2 slabs (p.buffers :: out) rest := by
  obtain ⟨rest, rfl, tail⟩ := inv.chain.nonempty nonnull
  refine ⟨rest, rfl, tail, ?_, inv.inside, inv.apart, ?_⟩
  · exact List.perm_middle.trans inv.parts
  · exact fun b member => inv.zero b (List.mem_cons_of_mem _ member)

/-- A fresh slab joins an empty list. -/
theorem PoolInv.grow (inv : PoolInv p slabs out free) (empty : p.buffers = 0) {slab : UInt32}
    {h : Heap} (nonnull : slab ≠ 0) (fresh : FreshSlab p slabs slab h) :
    PoolInv (addSlab h slab) (slab :: slabs) out (slabBuffers slab) := by
  have room := fresh.inside nonnull
  have none : free = [] := by
    have chain := inv.chain
    rw [empty] at chain
    exact chain_null.mp chain
  refine ⟨addSlab_chain h nonnull room, ?_, ?_, ?_, fun b member => addSlab_zero h room member⟩
  · have parts := inv.parts
    rw [none, List.nil_append] at parts
    rw [List.flatMap_cons]
    exact parts.append_left _
  · intro s member
    rcases List.mem_cons.mp member with rfl | old
    · exact ⟨nonnull, room⟩
    · exact inv.inside s old
  · exact List.pairwise_cons.mpr ⟨fresh.apart nonnull, inv.apart⟩

theorem PoolInv.freed (inv : PoolInv p slabs out free) (outstanding : b ∈ out) :
    PoolInv (netFree p b) slabs (out.erase b) (b :: free) := by
  have frame : Frame b.toNat 2000 p.heap.mem (netFree p b).heap.mem :=
    (fill_frame _ _ _ _).trans ((store32_frame _ _ _).mono (Nat.le_refl _) (by omega))
  have old := inv.write outstanding frame
  obtain ⟨s, member, k, small, place⟩ := inv.member.mp (List.mem_append_right free outstanding)
  have nonnull : b ≠ 0 := by
    obtain ⟨base, room⟩ := inv.inside s member
    have positive : s.toNat ≠ 0 := fun zero => base (UInt32.toNat_inj.mp zero)
    intro null
    have value := bufferAt_toNat room small
    rw [← place, null] at value
    change 0 = _ at value
    omega
  have link : (netFree p b).link b = p.buffers := load32_store32 _ _ _
  refine ⟨Chain.cons nonnull ?_, ?_, inv.inside, inv.apart, ?_⟩
  · change Chain (netFree p b).link 0 ((netFree p b).link b) free
    rw [link]
    exact old.chain
  · refine List.Perm.trans ?_ inv.parts
    exact List.perm_middle.symm.trans ((List.perm_cons_erase outstanding).symm.append_left free)
  · intro c inside i lower upper
    rcases List.mem_cons.mp inside with rfl | before
    · change store32 (fill p.heap.mem c.toNat 2000 0) c.toNat p.buffers (c.toNat + i) = 0
      rw [store32_frame _ _ _ _ (Or.inr (Nat.add_le_add_left lower _))]
      exact fill_inside _ _ _ _ _ (Nat.le_add_right _ _) (Nat.add_lt_add_left upper _)
    · exact old.zero c before i lower upper

/-- What a call of `net_alloc` does: it hands a free buffer out, perhaps of a new slab, or finds
neither and changes nothing of the pool. -/
theorem PoolInv.allocated (inv : PoolInv p slabs out free)
    {alloc : UInt32 → UInt16 → Heap → Option (UInt32 × Heap)} {ret : UInt32}
    (fresh : ∀ slab h, alloc (32 * 2000) 1 p.heap = some (slab, h) → FreshSlab p slabs slab h)
    (returns : netAlloc alloc p = some (ret, p')) :
    (ret = 0 ∧ newSlabs alloc p = [] ∧ p'.buffers = p.buffers ∧
        (∀ s ∈ slabs, Agree s.toNat 64000 p.heap.mem p'.heap.mem) ∧ PoolInv p' slabs out free) ∨
      (ret ≠ 0 ∧ ∃ rest, PoolInv p' (newSlabs alloc p ++ slabs) (ret :: out) rest) := by
  by_cases empty : p.buffers = 0
  · simp only [netAlloc, empty, ↓reduceIte] at returns
    obtain ⟨⟨slab, heap⟩, called, result⟩ := Option.map_eq_some_iff.mp returns
    have contract := fresh slab heap called
    by_cases null : slab = 0
    · simp only [null, ne_eq, not_true_eq_false, ↓reduceIte, Prod.mk.injEq] at result
      obtain ⟨rfl, rfl⟩ := result
      have kept := inv.elsewhere contract.kept
      rw [empty] at kept
      refine Or.inl ⟨rfl, ?_, empty.symm, contract.kept, kept⟩
      simp only [newSlabs, empty, called, null, ne_eq, not_true_eq_false, ↓reduceIte]
    · simp only [ne_eq, null, not_false_eq_true, ↓reduceIte] at result
      have grown := inv.grow empty null contract
      obtain ⟨rest, -, taken⟩ := grown.take null
      rw [result] at taken
      have same : ret = slab := congrArg Prod.fst result.symm
      have slabsNow : newSlabs alloc p = [slab] := by
        simp only [newSlabs, empty, called, ne_eq, null, not_false_eq_true, ↓reduceIte]
      rw [same, slabsNow]
      exact Or.inr ⟨null, rest, taken⟩
  · simp only [netAlloc, empty, ↓reduceIte, Option.some.injEq] at returns
    obtain ⟨rest, -, taken⟩ := inv.take empty
    rw [returns] at taken
    have same : ret = p.buffers := congrArg Prod.fst returns.symm
    have none : newSlabs alloc p = [] := by
      simp only [newSlabs, empty, ↓reduceIte]
    rw [same, none, List.nil_append]
    exact Or.inr ⟨empty, rest, taken⟩

/-- Whatever its earlier holders wrote, a buffer that is handed out is clean. -/
theorem PoolInv.taken_clean (inv : PoolInv p slabs out free)
    {alloc : UInt32 → UInt16 → Heap → Option (UInt32 × Heap)} {ret : UInt32}
    (fresh : ∀ slab h, alloc (32 * 2000) 1 p.heap = some (slab, h) → FreshSlab p slabs slab h)
    (returns : netAlloc alloc p = some (ret, p')) (nonnull : ret ≠ 0) :
    CleanBuffer p'.heap.mem ret := by
  have first {q : Pool} {slabs free : List UInt32} (inv : PoolInv q slabs out free)
      (some : q.buffers ≠ 0) : CleanBuffer q.heap.mem q.buffers := by
    obtain ⟨rest, rfl, -⟩ := inv.take some
    exact inv.zero q.buffers List.mem_cons_self
  by_cases empty : p.buffers = 0
  · simp only [netAlloc, empty, ↓reduceIte] at returns
    obtain ⟨⟨slab, heap⟩, called, result⟩ := Option.map_eq_some_iff.mp returns
    by_cases null : slab = 0
    · simp only [null, ne_eq, not_true_eq_false, ↓reduceIte, Prod.mk.injEq] at result
      exact absurd result.1.symm nonnull
    · simp only [ne_eq, null, not_false_eq_true, ↓reduceIte] at result
      cases result
      exact first (inv.grow empty null (fresh slab heap called)) null
  · simp only [netAlloc, empty, ↓reduceIte, Option.some.injEq] at returns
    cases returns
    exact first inv empty

theorem PoolRun.inv {alloc : UInt32 → UInt16 → Heap → Option (UInt32 × Heap)}
    (run : PoolRun alloc p slabs out) : ∃ free, PoolInv p slabs out free := by
  induction run with
  | start heap =>
      exact ⟨[], rfl, List.Perm.refl _, by simp, List.Pairwise.nil, by simp⟩
  | alloc run fresh returns ih =>
      obtain ⟨free, inv⟩ := ih
      rcases inv.allocated fresh returns with ⟨null, none, -, -, kept⟩ | ⟨nonnull, rest, taken⟩
      · rw [if_pos null, none, List.nil_append]
        exact ⟨free, kept⟩
      · rw [if_neg nonnull]
        exact ⟨rest, taken⟩
  | free run outstanding ih =>
      obtain ⟨free, inv⟩ := ih
      exact ⟨_, inv.freed outstanding⟩
  | write run outstanding within ih =>
      obtain ⟨free, inv⟩ := ih
      exact ⟨free, inv.write outstanding within⟩
  | elsewhere run kept ih =>
      obtain ⟨free, inv⟩ := ih
      exact ⟨free, inv.elsewhere kept⟩

end Invariant

/-- What holds of the pool in every state. -/
structure PoolSound (alloc : UInt32 → UInt16 → Heap → Option (UInt32 × Heap)) (p : Pool)
    (slabs out free : List UInt32) : Prop where
  chain : Chain p.link 0 p.buffers free
  nodup : free.Nodup
  separate : (free ++ out).Pairwise (Separate 2000)
  within : ∀ b ∈ free ++ out, ∃ s ∈ slabs, s.toNat ≤ b.toNat ∧ b.toNat + 2000 ≤ s.toNat + 64000
  count : free.length + out.length = 32 * slabs.length
  zero : ∀ b ∈ free, ∀ i, 4 ≤ i → i < 2000 → p.heap.mem (b.toNat + i) = 0
  null : ∀ p', (∀ slab h, alloc (32 * 2000) 1 p.heap = some (slab, h) → FreshSlab p slabs slab h) →
    netAlloc alloc p = some (0, p') → p'.buffers = p.buffers ∧ newSlabs alloc p = [] ∧
      ∀ s ∈ slabs, Agree s.toNat 64000 p.heap.mem p'.heap.mem

section Kernel

variable {p p' : Pool} {slabs out free : List UInt32} {top ret b : UInt32}

/-- The pool over the kernel's own heap: the slabs lie below the chunk that is left. -/
structure KernelPool (p : Pool) (slabs out free : List UInt32) (top : UInt32) : Prop where
  pool : PoolInv p slabs out free
  bump : Bump p.heap top
  below : ∀ s ∈ slabs, s.toNat + 64000 ≤ top.toNat

/-- A buffer is free, or the first chunk of the heap has room for a slab. -/
def Pool.HasBuffer (p : Pool) : Prop :=
  p.buffers ≠ 0 ∨ 32 * 2000 < (p.heap.size p.heap.highMem).toNat

instance (p : Pool) : Decidable p.HasBuffer := inferInstanceAs (Decidable (_ ∨ _))

/-- The call for a slab: it moves the chunk up, or returns null and changes nothing. -/
theorem alloc_slab {h : Heap} (bump : Bump h top) :
    (top.toNat + 64000 < arenaEnd.toNat ∧ ∃ h', alloc (32 * 2000) 1 h = some (top, h') ∧
      Bump h' (top + 64000) ∧ Frame (top.toNat + 64000) 8 h.mem h'.mem) ∨
    (arenaEnd.toNat ≤ top.toNat + 64000 ∧ alloc (32 * 2000) 1 h = some (0, h)) := by
  have upper := bump.upper
  have edge : arenaEnd.toNat = 0xC0C00000 := rfl
  have rounded : roundUp (32 * 2000) 16 = 64000 := by decide
  have number : (64000 : UInt32).toNat = 64000 := by decide
  have result := alloc_bump bump (32 * 2000) (by decide) (by decide)
  rw [rounded, UInt32.toNat_add, number] at result
  rcases result with ⟨room, h', called, moved, frame⟩ | ⟨full, null⟩
  · rw [Nat.mod_eq_of_lt (by omega)] at frame
    exact Or.inl ⟨by omega, h', called, moved, frame⟩
  · exact Or.inr ⟨by omega, null⟩

/-- The kernel's `alloc` keeps the contract of the pool. -/
theorem KernelPool.fresh (kernel : KernelPool p slabs out free top) (slab : UInt32) (h : Heap)
    (called : alloc (32 * 2000) 1 p.heap = some (slab, h)) : FreshSlab p slabs slab h := by
  have edge : arenaEnd.toNat = 0xC0C00000 := rfl
  rcases alloc_slab kernel.bump with ⟨room, h', returns, -, frame⟩ | ⟨-, null⟩
  · rw [called] at returns
    obtain ⟨rfl, rfl⟩ := Prod.mk.inj (Option.some.inj returns)
    refine ⟨fun s member => ?_, fun _ => by omega, fun _ s member => ?_⟩
    · have below := kernel.below s member
      exact frame.agree (Or.inl (by omega))
    · exact Or.inr (kernel.below s member)
  · rw [called] at null
    obtain ⟨rfl, rfl⟩ := Prod.mk.inj (Option.some.inj null)
    exact ⟨fun _ _ _ _ _ => rfl, fun nonnull => absurd rfl nonnull,
      fun nonnull => absurd rfl nonnull⟩

/-- A buffer of the pool ends below the chunk. -/
theorem KernelPool.buffer_below (kernel : KernelPool p slabs out free top)
    (member : b ∈ free ++ out) : b.toNat + 2000 ≤ top.toNat := by
  obtain ⟨s, inside, -, last⟩ := kernel.pool.within member
  have below := kernel.below s inside
  omega

theorem KernelPool.write (kernel : KernelPool p slabs out free top) {mem : Mem}
    (outstanding : b ∈ out) (within : Frame b.toNat 2000 p.heap.mem mem) :
    KernelPool { p with heap := { p.heap with mem } } slabs out free top := by
  have below := kernel.buffer_below (List.mem_append_right free outstanding)
  exact ⟨kernel.pool.write outstanding within,
    kernel.bump.congr rfl (within.agree (Or.inr below)), kernel.below⟩

theorem KernelPool.freed (kernel : KernelPool p slabs out free top) (outstanding : b ∈ out) :
    KernelPool (netFree p b) slabs (out.erase b) (b :: free) top := by
  have below := kernel.buffer_below (List.mem_append_right free outstanding)
  have frame : Frame b.toNat 2000 p.heap.mem (netFree p b).heap.mem :=
    (fill_frame _ _ _ _).trans ((store32_frame _ _ _).mono (Nat.le_refl _) (by omega))
  exact ⟨kernel.pool.freed outstanding, kernel.bump.congr rfl (frame.agree (Or.inr below)),
    kernel.below⟩

/-- The first buffer of a list that is not empty. -/
theorem KernelPool.taken (kernel : KernelPool p slabs out free top) (nonempty : p.buffers ≠ 0) :
    netAlloc alloc p = some (takeBuffer p) ∧ newSlabs alloc p = [] ∧
      ∃ rest, KernelPool (takeBuffer p).2 slabs (p.buffers :: out) rest top := by
  obtain ⟨rest, -, taken⟩ := kernel.pool.take nonempty
  refine ⟨?_, ?_, rest, taken, kernel.bump.congr rfl fun _ _ _ => rfl, kernel.below⟩
  · simp only [netAlloc, nonempty, ↓reduceIte]
  · simp only [newSlabs, nonempty, ↓reduceIte]

/-- In the kernel `net_alloc` always returns: null and nothing changed, or a buffer. -/
theorem KernelPool.allocated (kernel : KernelPool p slabs out free top) :
    (¬ p.HasBuffer ∧ netAlloc alloc p = some (0, p) ∧ newSlabs alloc p = []) ∨
      (p.HasBuffer ∧ ∃ ret p' rest top', netAlloc alloc p = some (ret, p') ∧ ret ≠ 0 ∧
        KernelPool p' (newSlabs alloc p ++ slabs) (ret :: out) rest top') := by
  have chunk : (p.heap.size p.heap.highMem).toNat = arenaEnd.toNat - top.toNat := by
    rw [kernel.bump.head]
    exact kernel.bump.size
  by_cases empty : p.buffers = 0
  · rcases alloc_slab kernel.bump with ⟨room, h, called, moved, frame⟩ | ⟨small, null⟩
    · have nonnull := kernel.bump.nonnull
      have fresh := kernel.fresh top h called
      have roomy := fresh.inside nonnull
      obtain ⟨rest, -, taken⟩ := (kernel.pool.grow empty nonnull fresh).take nonnull
      have added : newSlabs alloc p = [top] := by
        simp only [newSlabs, empty, called, ne_eq, nonnull, not_false_eq_true, ↓reduceIte]
      have result : netAlloc alloc p = some (takeBuffer (addSlab h top)) := by
        simp only [netAlloc, empty, called, Option.map_some, ne_eq, nonnull, not_false_eq_true,
          ↓reduceIte]
      have next : (top + 64000).toNat = top.toNat + 64000 := by
        have edge : arenaEnd.toNat = 0xC0C00000 := rfl
        have number : (64000 : UInt32).toNat = 64000 := by decide
        rw [UInt32.toNat_add, number]
        omega
      have roomFor : p.HasBuffer := Or.inr (by omega)
      refine Or.inr ⟨roomFor, top, _, rest, top + 64000, result, nonnull, ?_⟩
      rw [added]
      refine ⟨taken, moved.congr rfl ((addSlab_frame h roomy).agree (Or.inr (by omega))), ?_⟩
      intro s member
      rw [next]
      rcases List.mem_cons.mp member with rfl | old
      · exact Nat.le_refl _
      · have below := kernel.below s old
        omega
    · refine Or.inl ⟨?_, ?_, ?_⟩
      · rintro (nonempty | room)
        · exact nonempty empty
        · omega
      · simp only [netAlloc, empty, null, Option.map_some, ne_eq, not_true_eq_false, ↓reduceIte]
        rw [← empty]
      · simp only [newSlabs, empty, null, ne_eq, not_true_eq_false, ↓reduceIte]
  · obtain ⟨result, none, rest, taken⟩ := kernel.taken empty
    refine Or.inr ⟨Or.inl empty, p.buffers, _, rest, top, result, empty, ?_⟩
    rw [none]
    exact taken

/-- Before the first packet the pool is empty. -/
theorem kernelPool_start {h : Heap} (bump : Bump h top) :
    KernelPool { heap := h, buffers := 0 } [] [] [] top :=
  ⟨⟨rfl, List.Perm.refl _, by simp, List.Pairwise.nil, by simp⟩, bump, by simp⟩

end Kernel

theorem packet_pool_sound (alloc : UInt32 → UInt16 → Heap → Option (UInt32 × Heap)) (p : Pool)
    (slabs out : List UInt32) (run : PoolRun alloc p slabs out) :
    ∃ free, PoolSound alloc p slabs out free := by
  obtain ⟨free, inv⟩ := run.inv
  refine ⟨free, inv.chain, inv.chain.nodup, inv.separate, fun b member => inv.within member,
    inv.count, inv.zero, ?_⟩
  intro p' fresh returns
  rcases inv.allocated fresh returns with ⟨-, none, head, kept, -⟩ | ⟨nonnull, -⟩
  · exact ⟨head, none, kept⟩
  · exact absurd rfl nonnull

/-- A buffer at the head of the list is the next one. -/
theorem KernelPool.next {p : Pool} {slabs out free : List UInt32} {top b : UInt32}
    (kernel : KernelPool p slabs out free top) (run : PoolRun alloc p slabs out)
    (head : p.buffers = b) (nonnull : b ≠ 0) :
    netAlloc alloc p = some (b, (takeBuffer p).2) ∧
      PoolRun alloc (takeBuffer p).2 slabs (b :: out) ∧
      ∃ rest, KernelPool (takeBuffer p).2 slabs (b :: out) rest top := by
  subst head
  obtain ⟨result, none, taken⟩ := kernel.taken nonnull
  have later := run.alloc kernel.fresh result
  rw [none, if_neg nonnull] at later
  exact ⟨result, later, taken⟩

/-- Two buffers of the kernel's pool, from a slab at the start of the heap; the first one goes back
and is handed out again. -/
theorem returned_buffer_pool_sound :
    ∃ p₁ p₂ p₃ free,
      netAlloc alloc { heap := initMem 0xC0180000 fun _ => 0, buffers := 0 } =
        some (0xC0180000, p₁) ∧
      netAlloc alloc p₁ = some (0xC01807D0, p₂) ∧
      netAlloc alloc (netFree p₂ 0xC0180000) = some (0xC0180000, p₃) ∧
      PoolSound alloc p₃ [0xC0180000] [0xC0180000, 0xC01807D0] free := by
  have kernel := kernelPool_start (initMem_bump 0xC0180000 (fun _ => 0) ⟨by decide, by decide⟩)
  have start : roundUp 0xC0180000 16 = 0xC0180000 := by decide
  have room : ¬ arenaEnd.toNat ≤ (0xC0180000 : UInt32).toNat + 64000 := by decide
  rw [start] at kernel
  rcases alloc_slab kernel.bump with ⟨-, h, called, -⟩ | ⟨full, -⟩
  · have first : netAlloc alloc { heap := initMem 0xC0180000 fun _ => 0, buffers := 0 } =
        some (takeBuffer (addSlab h 0xC0180000)) := by
      rw [netAlloc, if_pos rfl, called]
      rfl
    have added : newSlabs alloc { heap := initMem 0xC0180000 fun _ => 0, buffers := 0 } =
        [0xC0180000] := by
      rw [newSlabs, if_pos rfl, called]
      rfl
    have run := PoolRun.alloc (.start _) kernel.fresh first
    rcases kernel.allocated with ⟨-, none, -⟩ | ⟨-, _, _, _, _, taken, -, kernel⟩
    · rw [none] at first
      cases first
    · cases taken.symm.trans first
      rw [added] at run kernel
      have link : (addSlab h 0xC0180000).link (bufferAt 0xC0180000 0) = bufferAt 0xC0180000 1 :=
        linkSlab_link _ (by decide) (Nat.le_refl 31) (by decide)
      rw [show bufferAt 0xC0180000 0 = 0xC0180000 by decide,
        show bufferAt 0xC0180000 1 = 0xC01807D0 by decide] at link
      obtain ⟨second, run, _, kernel⟩ := kernel.next run link (by decide)
      have member : (0xC0180000 : UInt32) ∈ [0xC01807D0, (0xC0180000 : UInt32)] := by decide
      obtain ⟨third, run, -⟩ := (kernel.freed member).next (run.free member) rfl
        (show (0xC0180000 : UInt32) ≠ 0 by decide)
      obtain ⟨free, sound⟩ := packet_pool_sound alloc _ _ _ run
      exact ⟨_, _, _, free, first, second, third, sound⟩
  · exact absurd full room

end FrogOS
