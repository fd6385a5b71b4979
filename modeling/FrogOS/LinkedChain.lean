set_option autoImplicit false

namespace FrogOS.LinkedChain

variable {α : Type} {next next' : α → α} {null p q r : α} {xs ys : List α}

/-- Following `next` from `p` visits exactly `xs`, none of it null, and arrives at `q`. -/
def Path (next : α → α) (null : α) : α → List α → α → Prop
  | p, [], q => p = q
  | p, x :: xs, q => p = x ∧ x ≠ null ∧ Path next null (next x) xs q

/-- The null-terminated chain from `p` has the nodes `xs`. -/
def Chain (next : α → α) (null p : α) (xs : List α) : Prop := Path next null p xs null

@[simp] theorem path_nil : Path next null p [] q ↔ p = q := Iff.rfl

@[simp] theorem path_cons {x : α} :
    Path next null p (x :: xs) q ↔ p = x ∧ x ≠ null ∧ Path next null (next x) xs q := Iff.rfl

theorem path_append :
    Path next null p (xs ++ ys) q ↔ ∃ r, Path next null p xs r ∧ Path next null r ys q := by
  induction xs generalizing p with
  | nil => simp
  | cons x xs ih =>
      simp only [List.cons_append, path_cons, ih]
      constructor
      · rintro ⟨start, nonnull, r, front, back⟩
        exact ⟨r, ⟨start, nonnull, front⟩, back⟩
      · rintro ⟨r, ⟨start, nonnull, front⟩, back⟩
        exact ⟨start, nonnull, r, front, back⟩

/-- Nodes linked each to the next by number. -/
theorem path_range' (next : α → α) (null : α) (f : Nat → α) (first count : Nat)
    (linked : ∀ k, first ≤ k → k < first + count → f k ≠ null ∧ next (f k) = f (k + 1)) :
    Path next null (f first) ((List.range' first count).map f) (f (first + count)) := by
  induction count generalizing first with
  | zero => exact rfl
  | succ count ih =>
      obtain ⟨nonnull, link⟩ := linked first (Nat.le_refl _) (by omega)
      have rest := ih (first + 1) fun k lower upper => linked k (by omega) (by omega)
      rw [List.range'_succ, List.map_cons, path_cons, link, show first + (count + 1) =
        first + 1 + count by omega]
      exact ⟨rfl, nonnull, rest⟩

/-- A path reads only the links of its own nodes. -/
theorem Path.congr (path : Path next null p xs q) (same : ∀ x ∈ xs, next' x = next x) :
    Path next' null p xs q := by
  induction xs generalizing p with
  | nil => exact path
  | cons x xs ih =>
      obtain ⟨start, nonnull, rest⟩ := path
      refine ⟨start, nonnull, ?_⟩
      rw [same x List.mem_cons_self]
      exact ih rest (fun y member => same y (List.mem_cons_of_mem x member))

@[simp] theorem chain_null : Chain next null null xs ↔ xs = [] := by
  constructor
  · intro chain
    cases xs with
    | nil => rfl
    | cons x xs => exact absurd chain.1.symm chain.2.1
  · rintro rfl
    rfl

theorem Chain.nonempty (chain : Chain next null p xs) (nonnull : p ≠ null) :
    ∃ rest, xs = p :: rest ∧ Chain next null (next p) rest := by
  cases xs with
  | nil => exact absurd chain nonnull
  | cons x rest =>
      obtain ⟨rfl, -, tail⟩ := chain
      exact ⟨rest, rfl, tail⟩

theorem Chain.cons (nonnull : p ≠ null) (rest : Chain next null (next p) xs) :
    Chain next null p (p :: xs) :=
  ⟨rfl, nonnull, rest⟩

/-- The start determines the whole chain. -/
theorem Chain.unique (first : Chain next null p xs) (second : Chain next null p ys) : xs = ys := by
  induction xs generalizing p ys with
  | nil =>
      obtain rfl : p = null := first
      exact (chain_null.mp second).symm
  | cons x xs ih =>
      obtain ⟨rfl, nonnull, tail⟩ := first
      obtain ⟨rest, rfl, other⟩ := second.nonempty nonnull
      rw [ih tail other]

theorem Chain.suffix {zs : List α} {x : α} (chain : Chain next null p (zs ++ x :: xs)) :
    Chain next null x (x :: xs) := by
  obtain ⟨r, -, start, nonnull, tail⟩ := path_append.mp chain
  exact ⟨rfl, nonnull, tail⟩

/-- A chain that ends visits no node twice: a second visit would make it its own proper part. -/
theorem Chain.nodup (chain : Chain next null p xs) : xs.Nodup := by
  induction xs generalizing p with
  | nil => exact List.nodup_nil
  | cons x xs ih =>
      refine List.nodup_cons.mpr ⟨?_, ih chain.2.2⟩
      intro again
      obtain ⟨front, back, split⟩ := List.append_of_mem again
      have whole : Chain next null x (x :: xs) := ⟨rfl, chain.2.1, chain.2.2⟩
      have part : Chain next null x (x :: back) := by
        have again : Chain next null x ((x :: front) ++ x :: back) := by
          rw [List.cons_append, ← split]
          exact whole
        exact again.suffix
      have lengths := congrArg List.length (whole.unique part)
      rw [split] at lengths
      simp only [List.length_cons, List.length_append] at lengths
      omega

end FrogOS.LinkedChain
