import Mathlib.Algebra.Group.Nat.Defs
import Mathlib.Logic.Relation
import Mathlib.Data.List.Nodup
import Mathlib.Data.Fintype.EquivFin

set_option autoImplicit false

namespace FrogOS.TreeWalk

open Relation

variable {α β : Type} {items : α → List (β × Option α)}

/-- Visits a node's items in order: each item first, then what is behind it. -/
def walkItems (visit : α → Option (List β)) : List (β × Option α) → Option (List β)
  | [] => some []
  | (b, none) :: rest => (walkItems visit rest).map fun tail => b :: tail
  | (b, some c) :: rest =>
      (visit c).bind fun below => (walkItems visit rest).map fun tail => b :: below ++ tail

/-- Depth-first listing of everything at or behind a node, down to `fuel` levels. -/
def walk (items : α → List (β × Option α)) : Nat → α → Option (List β)
  | 0, _ => none
  | fuel + 1, a => walkItems (walk items fuel) (items a)

/-- `c` is directly behind `a`. -/
def Child (items : α → List (β × Option α)) (a c : α) : Prop := ∃ b, (b, some c) ∈ items a

/-- An item with everything behind it, when the visit succeeds. -/
def cover (visit : α → Option (List β)) : β × Option α → List β
  | (b, none) => [b]
  | (b, some c) => b :: (visit c).getD []

theorem mem_cover {visit : α → Option (List β)} {b y : β} {o : Option α}
    (member : y ∈ cover visit (b, o)) : y = b ∨ ∃ c, o = some c ∧ y ∈ (visit c).getD [] := by
  cases o with
  | none => exact Or.inl (List.mem_singleton.mp member)
  | some c => exact (List.mem_cons.mp member).imp_right fun behind => ⟨c, rfl, behind⟩

theorem walkItems_append (visit : α → Option (List β)) (xs ys : List (β × Option α)) :
    walkItems visit (xs ++ ys) =
      (walkItems visit xs).bind fun front => (walkItems visit ys).map fun back => front ++ back := by
  induction xs with
  | nil => simp [walkItems]
  | cons x xs ih =>
      obtain ⟨b, next⟩ := x
      cases next with
      | none =>
          simp only [List.cons_append, walkItems, ih]
          cases walkItems visit xs <;> cases walkItems visit ys <;> rfl
      | some c =>
          simp only [List.cons_append, walkItems, ih]
          cases visit c <;> cases walkItems visit xs <;> cases walkItems visit ys <;> simp

theorem walkItems_eq (visit : α → Option (List β)) (xs : List (β × Option α))
    (ends : ∀ b c, (b, some c) ∈ xs → (visit c).isSome) :
    walkItems visit xs = some (xs.flatMap (cover visit)) := by
  induction xs with
  | nil => rfl
  | cons x xs ih =>
      have rest := ih (fun b c member => ends b c (List.mem_cons_of_mem x member))
      obtain ⟨b, next⟩ := x
      cases next with
      | none => simp only [walkItems, rest, List.flatMap_cons, cover, Option.map_some,
          List.singleton_append]
      | some c =>
          obtain ⟨below, visited⟩ := Option.isSome_iff_exists.mp (ends b c List.mem_cons_self)
          simp only [walkItems, rest, visited, List.flatMap_cons, cover, Option.bind_some,
            Option.map_some, Option.getD_some]

theorem walkItems_isSome (visit : α → Option (List β)) (xs : List (β × Option α)) :
    (walkItems visit xs).isSome ↔ ∀ b c, (b, some c) ∈ xs → (visit c).isSome := by
  constructor
  · intro ends b c member
    obtain ⟨front, back, rfl⟩ := List.append_of_mem member
    rw [walkItems_append, walkItems] at ends
    cases visited : visit c with
    | none =>
        rw [visited] at ends
        cases walkItems visit front <;> simp at ends
    | some below => rfl
  · intro ends
    rw [walkItems_eq visit xs ends]
    rfl

theorem walk_succ_of_some {fuel : Nat} {a : α} {l : List β}
    (ends : walk items (fuel + 1) a = some l) :
    (∀ c, Child items a c → (walk items fuel c).isSome) ∧
      l = (items a).flatMap (cover (walk items fuel)) := by
  have subs := (walkItems_isSome (walk items fuel) (items a)).mp (by
    rw [← walk, ends]
    rfl)
  refine ⟨fun c ⟨b, member⟩ => subs b c member, ?_⟩
  have value := walkItems_eq (walk items fuel) (items a) subs
  rw [← walk, ends] at value
  exact Option.some.inj value

/-- More levels do not change a listing that ended. -/
theorem walk_mono {fuel more : Nat} (le : fuel ≤ more) {a : α} {l : List β}
    (ends : walk items fuel a = some l) : walk items more a = some l := by
  induction fuel generalizing more a l with
  | zero => cases ends
  | succ fuel ih =>
      obtain ⟨more, rfl⟩ := Nat.exists_eq_add_of_le' (Nat.le_trans (Nat.succ_pos fuel) le)
      have smaller : fuel ≤ more := Nat.le_of_succ_le_succ le
      obtain ⟨subs, value⟩ := walk_succ_of_some ends
      have same : ∀ c, Child items a c → walk items more c = walk items fuel c := by
        intro c child
        obtain ⟨below, visited⟩ := Option.isSome_iff_exists.mp (subs c child)
        rw [visited]
        exact ih smaller visited
      rw [walk, walkItems_eq]
      · rw [value]
        congr 1
        apply List.flatMap_congr
        rintro ⟨b, next⟩ member
        cases next with
        | none => rfl
        | some c => simp only [cover, same c ⟨b, member⟩]
      · intro b c member
        rw [same c ⟨b, member⟩]
        exact subs c ⟨b, member⟩

/-- Some number of levels is enough exactly when no descent goes on for ever. -/
theorem walk_ends_iff (a : α) :
    (∃ fuel, (walk items fuel a).isSome) ↔ Acc (fun c a => Child items a c) a := by
  constructor
  · rintro ⟨fuel, ends⟩
    induction fuel generalizing a with
    | zero => cases ends
    | succ fuel ih =>
        obtain ⟨l, value⟩ := Option.isSome_iff_exists.mp ends
        exact Acc.intro a fun c child => ih c ((walk_succ_of_some value).1 c child)
  · intro accessible
    induction accessible with
    | intro a _ ih =>
        -- Finitely many items: the largest of their bounds serves them all.
        have bound : ∀ xs : List (β × Option α), (∀ x ∈ xs, x ∈ items a) →
            ∃ fuel, ∀ b c, (b, some c) ∈ xs → (walk items fuel c).isSome := by
          intro xs inside
          induction xs with
          | nil => exact ⟨0, fun _ _ member => absurd member List.not_mem_nil⟩
          | cons x xs step =>
              obtain ⟨fuel, rest⟩ := step fun y member => inside y (List.mem_cons_of_mem x member)
              have grow : ∀ {n m : Nat} {c : α}, n ≤ m → (walk items n c).isSome →
                  (walk items m c).isSome := by
                intro n m c le ends
                obtain ⟨l, value⟩ := Option.isSome_iff_exists.mp ends
                rw [walk_mono le value]
                rfl
              obtain ⟨b, next⟩ := x
              cases next with
              | none =>
                  refine ⟨fuel, fun b' c member => ?_⟩
                  rcases List.mem_cons.mp member with same | tail
                  · cases same
                  · exact rest b' c tail
              | some d =>
                  obtain ⟨other, first⟩ := ih d ⟨b, inside _ List.mem_cons_self⟩
                  refine ⟨max fuel other, fun b' c member => ?_⟩
                  rcases List.mem_cons.mp member with same | tail
                  · cases same
                    exact grow (Nat.le_max_right _ _) first
                  · exact grow (Nat.le_max_left _ _) (rest b' c tail)
        obtain ⟨fuel, subs⟩ := bound (items a) fun _ member => member
        refine ⟨fuel + 1, ?_⟩
        rw [walk]
        exact (walkItems_isSome _ _).mpr subs

theorem not_behind_self {a : α} (accessible : Acc (fun c a => Child items a c) a) :
    ¬ TransGen (Child items) a a := by
  intro cycle
  have back : TransGen (fun c a => Child items a c) a a := transGen_swap.mp cycle
  have below := accessible.transGen
  clear accessible cycle
  induction below with
  | intro a _ ih => exact ih a back back

/-- On finitely many nodes a descent goes on for ever exactly when it can reach
a node that is behind itself. -/
theorem acc_iff_no_cycle [Finite α] (a : α) :
    Acc (fun c a => Child items a c) a ↔
      ¬ ∃ b, ReflTransGen (Child items) a b ∧ TransGen (Child items) b b := by
  constructor
  · rintro accessible ⟨b, reach, cycle⟩
    have down : ∀ c, ReflTransGen (Child items) a c → Acc (fun c a => Child items a c) c := by
      intro c path
      induction path with
      | refl => exact accessible
      | tail _ child ih => exact ih.inv child
    exact not_behind_self (down b reach) cycle
  · intro none
    let below : { x // ReflTransGen (Child items) a x } → { x // ReflTransGen (Child items) a x } →
        Prop := fun x y => TransGen (Child items) y.1 x.1
    have trans : IsTrans _ below := ⟨fun _ _ _ first second => second.trans first⟩
    have irrefl : Std.Irrefl below := ⟨fun x cycle => none ⟨x.1, x.2, cycle⟩⟩
    have wellFounded : WellFounded below := Finite.wellFounded_of_trans_of_irrefl below
    have lift : ∀ x : { x // ReflTransGen (Child items) a x },
        Acc (fun c a => Child items a c) x.1 := by
      intro x
      induction wellFounded.apply x with
      | intro x _ ih =>
          refine Acc.intro x.1 fun c child => ?_
          exact ih ⟨c, x.2.tail child⟩ (TransGen.single child)
    exact lift ⟨a, ReflTransGen.refl⟩

/-- The listing holds exactly the items of the nodes that can be reached. -/
theorem mem_walk {fuel : Nat} {a : α} {l : List β} (ends : walk items fuel a = some l) (b : β) :
    b ∈ l ↔ ∃ c, ReflTransGen (Child items) a c ∧ ∃ next, (b, next) ∈ items c := by
  induction fuel generalizing a l with
  | zero => cases ends
  | succ fuel ih =>
      obtain ⟨subs, rfl⟩ := walk_succ_of_some ends
      simp only [List.mem_flatMap, Prod.exists]
      constructor
      · rintro ⟨b', next, member, covered⟩
        cases next with
        | none =>
            obtain rfl := List.mem_singleton.mp covered
            exact ⟨a, ReflTransGen.refl, none, member⟩
        | some c =>
            rcases List.mem_cons.mp covered with rfl | behind
            · exact ⟨a, ReflTransGen.refl, some c, member⟩
            · obtain ⟨below, visited⟩ := Option.isSome_iff_exists.mp (subs c ⟨b', member⟩)
              rw [visited, Option.getD_some, ih visited] at behind
              obtain ⟨d, reach, found⟩ := behind
              exact ⟨d, ReflTransGen.head ⟨b', member⟩ reach, found⟩
      · rintro ⟨d, reach, next, member⟩
        rcases reach.cases_head with rfl | ⟨c, ⟨b', child⟩, rest⟩
        · refine ⟨b, next, member, ?_⟩
          cases next <;> simp [cover]
        · obtain ⟨below, visited⟩ := Option.isSome_iff_exists.mp (subs c ⟨b', child⟩)
          refine ⟨b', some c, child, List.mem_cons_of_mem _ ?_⟩
          rw [visited, Option.getD_some, ih visited]
          exact ⟨d, rest, next, member⟩

/-- The nodes reachable from `root` form a tree below it: an item belongs to one
node, and two items with the same node behind them are the same item. -/
structure Tree (items : α → List (β × Option α)) (root : α) : Prop where
  distinct : ∀ a, ReflTransGen (Child items) root a → ((items a).map Prod.fst).Nodup
  home : ∀ a c b o o', ReflTransGen (Child items) root a → ReflTransGen (Child items) root c →
    (b, o) ∈ items a → (b, o') ∈ items c → a = c
  parent : ∀ a a' b b' c, ReflTransGen (Child items) root a → ReflTransGen (Child items) root a' →
    (b, some c) ∈ items a → (b', some c) ∈ items a' → b = b'

namespace Tree

variable {root : α}

/-- Of two nodes above a third one, one is above the other. -/
theorem comparable (tree : Tree items root) {u v x : α}
    (hu : ReflTransGen (Child items) root u) (hv : ReflTransGen (Child items) root v)
    (ux : ReflTransGen (Child items) u x) (vx : ReflTransGen (Child items) v x) :
    ReflTransGen (Child items) u v ∨ ReflTransGen (Child items) v u := by
  induction ux with
  | refl => exact Or.inr vx
  | @tail y x uy child ih =>
      rcases vx.cases_tail with rfl | ⟨z, vz, other⟩
      · exact Or.inl (uy.tail child)
      · obtain ⟨b, first⟩ := child
        obtain ⟨b', second⟩ := other
        have reachY := hu.trans uy
        have reachZ := hv.trans vz
        obtain rfl := tree.parent y z b b' x reachY reachZ first second
        obtain rfl := tree.home y z b _ _ reachY reachZ first second
        exact ih vz

/-- Without a cycle, two different items of a node have nothing behind them in common. -/
theorem branches_disjoint (tree : Tree items root) {a c d x : α} {b b' : β}
    (reach : ReflTransGen (Child items) root a) (acyclic : Acc (fun c a => Child items a c) a)
    (first : (b, some c) ∈ items a) (second : (b', some d) ∈ items a) (ne : b ≠ b')
    (cx : ReflTransGen (Child items) c x) (dx : ReflTransGen (Child items) d x) : False := by
  have upward : ∀ {u v : α} {e e' : β}, (e, some u) ∈ items a → (e', some v) ∈ items a → e ≠ e' →
      ReflTransGen (Child items) u v → False := by
    intro u v e e' left right differ uv
    rcases uv.cases_tail with rfl | ⟨y, uy, f, last⟩
    · exact differ (tree.parent a a e e' _ reach reach left right)
    · have reachY : ReflTransGen (Child items) root y := (reach.tail ⟨e, left⟩).trans uy
      obtain rfl := tree.parent a y e' f v reach reachY right last
      obtain rfl := tree.home a y e' _ _ reach reachY right last
      exact not_behind_self acyclic (TransGen.head' ⟨e, left⟩ uy)
  rcases tree.comparable (reach.tail ⟨b, first⟩) (reach.tail ⟨b', second⟩) cx dx with cd | dc
  · exact upward first second ne cd
  · exact upward second first (Ne.symm ne) dc

/-- Over a tree the listing names nothing twice. -/
theorem nodup_walk (tree : Tree items root) {fuel : Nat} {a : α} {l : List β}
    (reach : ReflTransGen (Child items) root a) (ends : walk items fuel a = some l) :
    l.Nodup := by
  induction fuel generalizing a l with
  | zero => cases ends
  | succ fuel ih =>
      have acyclic := (walk_ends_iff a).mp ⟨fuel + 1, by rw [ends]; rfl⟩
      obtain ⟨subs, rfl⟩ := walk_succ_of_some ends
      -- What a cover holds: the item itself, and listed items of nodes behind it.
      have behind : ∀ {b : β} {c : α} {y : β}, (b, some c) ∈ items a →
          y ∈ (walk items fuel c).getD [] →
          ∃ d, ReflTransGen (Child items) c d ∧ ∃ next, (y, next) ∈ items d := by
        intro b c y member listed
        obtain ⟨below, visited⟩ := Option.isSome_iff_exists.mp (subs c ⟨b, member⟩)
        rw [visited, Option.getD_some, mem_walk visited] at listed
        exact listed
      have above : ∀ {b b' : β} {c : α} {o : Option α}, (b, some c) ∈ items a →
          (b', o) ∈ items a → b' ∉ (walk items fuel c).getD [] := by
        intro b b' c o member other listed
        obtain ⟨d, path, next, found⟩ := behind member listed
        have reachD := (reach.tail ⟨b, member⟩).trans path
        obtain rfl := tree.home a d b' _ _ reach reachD other found
        exact not_behind_self acyclic (TransGen.head' ⟨b, member⟩ path)
      refine List.nodup_flatMap.mpr ⟨?_, ?_⟩
      · rintro ⟨b, next⟩ member
        cases next with
        | none => exact List.nodup_singleton b
        | some c =>
            obtain ⟨below, visited⟩ := Option.isSome_iff_exists.mp (subs c ⟨b, member⟩)
            refine List.nodup_cons.mpr ⟨above member member, ?_⟩
            rw [visited, Option.getD_some]
            exact ih (reach.tail ⟨b, member⟩) visited
      · have labels := List.pairwise_map.mp (tree.distinct a reach)
        refine labels.imp_of_mem ?_
        rintro ⟨b, o⟩ ⟨b', o'⟩ left right ne y inLeft inRight
        change b ≠ b' at ne
        rcases mem_cover inLeft with rfl | ⟨c, rfl, listed⟩
        · rcases mem_cover inRight with same | ⟨d, rfl, other⟩
          · exact ne same
          · exact above right left other
        · rcases mem_cover inRight with rfl | ⟨d, rfl, other⟩
          · exact above left right listed
          · obtain ⟨u, cu, p, hp⟩ := behind left listed
            obtain ⟨v, dv, q, hq⟩ := behind right other
            have reachU := (reach.tail ⟨b, left⟩).trans cu
            have reachV := (reach.tail ⟨b', right⟩).trans dv
            obtain rfl := tree.home u v y _ _ reachU reachV hp hq
            exact tree.branches_disjoint reach acyclic left right ne cu dv

end Tree

end FrogOS.TreeWalk
