import FrogOS.TreeWalk

set_option autoImplicit false

namespace FrogOS.StackWalk

open TreeWalk

variable {α β : Type}

/-- The items behind an item. -/
def behind (items : α → List (β × Option α)) : β × Option α → List (β × Option α)
  | (_, none) => []
  | (_, some c) => items c

/-- The labels of an item, of an item behind it, and so on for some levels. -/
inductive Descent (items : α → List (β × Option α)) : β × Option α → List β → Prop
  | stop (x : β × Option α) : Descent items x [x.1]
  | down (x y : β × Option α) (p : List β) (below : y ∈ behind items x)
      (rest : Descent items y p) : Descent items x (x.1 :: p)

/-- A stack of items empties after `n` rounds, each of which takes the first item
off and puts the items behind it on. -/
inductive Empties (items : α → List (β × Option α)) : Nat → List (β × Option α) → Prop
  | done : Empties items 0 []
  | next (n : Nat) (x : β × Option α) (rest : List (β × Option α))
      (later : Empties items n (behind items x ++ rest)) : Empties items (n + 1) (x :: rest)

/-- All descents from some items, once each, with the number of rounds these items take. -/
structure Listing (items : α → List (β × Option α)) (xs : List (β × Option α))
    (ps : List (List β)) : Prop where
  nodup : ps.Nodup
  mem : ∀ p, p ∈ ps ↔ ∃ x ∈ xs, Descent items x p
  count : Empties items ps.length xs

/-- There are at most `n` descents from the items of a node. -/
def AtMost (items : α → List (β × Option α)) (a : α) (n : Nat) : Prop :=
  ∀ ps : List (List β), ps.Nodup → (∀ p ∈ ps, ∃ x ∈ items a, Descent items x p) → ps.length ≤ n

variable {items : α → List (β × Option α)} {a : α} {n m : Nat} {x : β × Option α}
  {xs ys : List (β × Option α)} {p : List β}

theorem Descent.head (descent : Descent items x p) : p.head? = some x.1 := by
  cases descent with
  | stop => rfl
  | down => rfl

theorem descent_iff : Descent items x p ↔
    p = [x.1] ∨ ∃ q, p = x.1 :: q ∧ ∃ y ∈ behind items x, Descent items y q := by
  constructor
  · intro descent
    cases descent with
    | stop => exact Or.inl rfl
    | down _ y q below rest => exact Or.inr ⟨q, rfl, y, below, rest⟩
  · intro shape
    rcases shape with rfl | ⟨q, rfl, y, below, rest⟩
    · exact Descent.stop x
    · exact Descent.down x y q below rest

theorem Empties.append (first : Empties items m xs) (second : Empties items n ys) :
    Empties items (m + n) (xs ++ ys) := by
  induction first with
  | done =>
      rw [Nat.zero_add]
      exact second
  | next m x rest _ ih =>
      rw [Nat.add_right_comm]
      apply Empties.next
      rw [List.append_assoc] at ih
      exact ih

/-- The number of rounds is determined by the stack. -/
theorem Empties.unique (first : Empties items m xs) (second : Empties items n xs) : m = n := by
  induction first generalizing n with
  | done =>
      cases second
      rfl
  | next m x rest _ ih =>
      cases second with
      | next n _ _ later => rw [ih later]

/-- A stack that empties has nothing on it that goes on for ever. -/
theorem Empties.acc (empties : Empties items n xs) {b : β} {c : α} (member : (b, some c) ∈ xs) :
    Acc (fun c a => Child items a c) c := by
  induction empties generalizing b c with
  | done => cases member
  | next n x rest _ ih =>
      rcases List.mem_cons.mp member with rfl | later
      · apply Acc.intro
        intro d child
        obtain ⟨b', below⟩ := child
        exact ih (List.mem_append_left rest below)
      · exact ih (List.mem_append_right (behind items x) later)

/-- Listings of what is behind each item give one of the items. -/
theorem exists_listing (xs : List (β × Option α)) (distinct : (xs.map Prod.fst).Nodup)
    (below : ∀ x ∈ xs, ∃ qs, Listing items (behind items x) qs) : ∃ ps, Listing items xs ps := by
  induction xs with
  | nil =>
      refine ⟨[], List.nodup_nil, ?_, Empties.done⟩
      intro p
      simp
  | cons x xs ih =>
      rw [List.map_cons, List.nodup_cons] at distinct
      obtain ⟨qs, inner⟩ := below x List.mem_cons_self
      obtain ⟨rs, outer⟩ := ih distinct.2 fun y member => below y (List.mem_cons_of_mem x member)
      have nonempty : ∀ q ∈ qs, q ≠ [] := by
        intro q member empty
        obtain ⟨y, -, descent⟩ := (inner.mem q).mp member
        have labelled := descent.head
        rw [empty] at labelled
        cases labelled
      -- The descents through `x` start with its label, and no other descent does.
      have apart : ∀ q, x.1 :: q ∉ rs := by
        intro q member
        obtain ⟨y, listed, descent⟩ := (outer.mem _).mp member
        have label : x.1 = y.1 := Option.some.inj descent.head
        apply distinct.1
        rw [label]
        exact List.mem_map_of_mem listed
      refine ⟨[x.1] :: (qs.map (x.1 :: ·) ++ rs), ?_, ?_, ?_⟩
      · rw [List.nodup_cons, List.mem_append, List.nodup_append']
        refine ⟨?_, ?_, outer.nodup, ?_⟩
        · intro member
          rcases member with through | other
          · obtain ⟨q, listed, same⟩ := List.mem_map.mp through
            exact nonempty q listed (List.cons.inj same).2
          · exact apart [] other
        · exact inner.nodup.map fun q q' same => (List.cons.inj same).2
        · intro p through other
          obtain ⟨q, -, rfl⟩ := List.mem_map.mp through
          exact apart q other
      · intro p
        simp only [List.mem_cons, List.mem_append, List.mem_map, exists_eq_or_imp, outer.mem,
          descent_iff (x := x), inner.mem]
        constructor
        · intro listed
          rcases listed with first | ⟨q, through, same⟩ | other
          · exact Or.inl (Or.inl first)
          · exact Or.inl (Or.inr ⟨q, same.symm, through⟩)
          · exact Or.inr other
        · intro descent
          rcases descent with (first | ⟨q, same, through⟩) | other
          · exact Or.inl first
          · exact Or.inr (Or.inl ⟨q, through, same.symm⟩)
          · exact Or.inr (Or.inr other)
      · rw [List.length_cons, List.length_append, List.length_map]
        exact Empties.next _ x xs (inner.count.append outer.count)

/-- Where no descent goes on for ever, the descents can be listed. -/
theorem listing_of_acc (distinct : ∀ a, ((items a).map Prod.fst).Nodup)
    (accessible : Acc (fun c a => Child items a c) a) :
    ∃ ps, Listing items (items a) ps := by
  induction accessible with
  | intro a _ ih =>
      apply exists_listing (items a) (distinct a)
      intro x member
      obtain ⟨b, next⟩ := x
      cases next with
      | none => exact exists_listing [] List.nodup_nil nofun
      | some c => exact ih c ⟨b, member⟩

theorem endless_child (endless : ¬ Acc (fun c a => Child items a c) a) :
    ∃ b c, (b, some c) ∈ items a ∧ ¬ Acc (fun c a => Child items a c) c := by
  apply Classical.byContradiction
  intro none
  apply endless
  apply Acc.intro
  intro c child
  obtain ⟨b, member⟩ := child
  exact Classical.byContradiction fun further => none ⟨b, c, member, further⟩

/-- Where some descent goes on for ever, there are descents of every length. -/
theorem descent_of_endless (endless : ¬ Acc (fun c a => Child items a c) a) (n : Nat) :
    ∃ p, (∃ x ∈ items a, Descent items x p) ∧ p.length = n + 1 := by
  obtain ⟨b, c, member, further⟩ := endless_child endless
  induction n generalizing a b c with
  | zero => exact ⟨[b], ⟨(b, some c), member, Descent.stop (b, some c)⟩, rfl⟩
  | succ n ih =>
      obtain ⟨b', c', next, beyond⟩ := endless_child further
      obtain ⟨p, ⟨y, below, rest⟩, length⟩ := ih further b' c' next beyond
      refine ⟨b :: p, ⟨(b, some c), member, Descent.down (b, some c) y p below rest⟩, ?_⟩
      rw [List.length_cons, length]

theorem not_atMost_of_endless (endless : ¬ Acc (fun c a => Child items a c) a) (n : Nat) :
    ¬ AtMost items a n := by
  intro atMost
  have descents := descent_of_endless endless
  choose path descent length using descents
  have injective : Function.Injective path := by
    intro i j same
    have equal := (length i).symm.trans ((congrArg List.length same).trans (length j))
    exact Nat.succ.inj equal
  have short := atMost ((List.range (n + 1)).map path) (List.nodup_range.map injective) (by
    intro p member
    obtain ⟨i, -, rfl⟩ := List.mem_map.mp member
    exact descent i)
  rw [List.length_map, List.length_range] at short
  omega

/-- The items of a node are used up after at most `n` rounds exactly if there are
at most `n` descents from them. -/
theorem empties_iff_atMost (distinct : ∀ a, ((items a).map Prod.fst).Nodup) (a : α) (n : Nat) :
    (∃ k, k ≤ n ∧ Empties items k (items a)) ↔ AtMost items a n := by
  constructor
  · intro bounded ps nodup descents
    obtain ⟨k, small, empties⟩ := bounded
    have accessible : Acc (fun c a => Child items a c) a := by
      apply Acc.intro
      intro c child
      obtain ⟨b, member⟩ := child
      exact empties.acc member
    obtain ⟨all, listing⟩ := listing_of_acc distinct accessible
    have inside : ps ⊆ all := fun p member => (listing.mem p).mpr (descents p member)
    have fewer := (List.subperm_of_subset nodup inside).length_le
    have rounds := listing.count.unique empties
    omega
  · intro atMost
    by_cases accessible : Acc (fun c a => Child items a c) a
    · obtain ⟨all, listing⟩ := listing_of_acc distinct accessible
      have few := atMost all listing.nodup fun p member => (listing.mem p).mp member
      exact ⟨all.length, few, listing.count⟩
    · exact absurd atMost (not_atMost_of_endless accessible n)

end FrogOS.StackWalk
