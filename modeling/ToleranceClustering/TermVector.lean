import ToleranceClustering.Scalar
import ToleranceClustering.Table

/-!
# Term vectors

The weights of a document's terms. A vector has an entry exactly for the terms of positive and finite weight, in
ascending order of the term numbers, and all sums over it run in that order.

Main statement: `weight?_ofPairs` says which terms a vector built from weighted terms holds, and with what weight.
-/

namespace ToleranceClustering

/-- Terms with positive, finite weights. -/
structure TermVector (α : Type) [Scalar α] where
  weights : Table α
  positive : ∀ e ∈ weights.entries, 0 < e.2 ∧ Scalar.isFinite e.2 = true

namespace TermVector

variable {α : Type} [Scalar α]

/-- The vector without terms. -/
def empty : TermVector α := ⟨Table.empty, fun _ h => nomatch h⟩

/-- Adds a weight to what a term has; a term starts from zero. -/
def accumulate (t : Table α) (pair : Nat × α) : Table α := t.alter pair.1 fun w => w.getD 0 + pair.2

/-- Whether a summed weight is kept. -/
def admits (e : Nat × α) : Bool := decide (0 < e.2) && Scalar.isFinite e.2

/-- The vector of weighted terms: the weights of one term are added in the order given, and what does not come to a
positive, finite weight is dropped. -/
def ofPairs (pairs : List (Nat × α)) : TermVector α where
  weights := (pairs.foldl accumulate Table.empty).filter admits
  positive := fun e h => by
    have := (List.mem_filter.1 h).2
    simpa [admits] using this

/-- The weighted terms, ascending. -/
def entries (v : TermVector α) : List (Nat × α) := v.weights.entries

/-- The terms, ascending. -/
def terms (v : TermVector α) : List Nat := v.weights.keys

/-- The weight of a term, if it has one. -/
def weight? (v : TermVector α) (t : Nat) : Option α := v.weights.find? t

/-- Whether a term has a weight. -/
def contains (v : TermVector α) (t : Nat) : Bool := (v.weight? t).isSome

/-- The sum of all weights, in term order. -/
def total (v : TermVector α) : α := Scalar.sum v.weights.values

/-- The number of terms. -/
def size (v : TermVector α) : Nat := v.weights.size

/-- Whether there is no term. -/
def isEmpty (v : TermVector α) : Bool := v.entries.isEmpty

/-- The weights of one term, added from zero in the order given; none for a term that is not there. -/
def summed (pairs : List (Nat × α)) (t : Nat) : Option α :=
  match (pairs.filter fun p => p.1 = t).map Prod.snd with
  | [] => none
  | ws => some (ws.foldl (· + ·) 0)

/-- Adding weighted terms to a table puts, at each term, what was there and the term's weights together, from left to
right. -/
theorem find?_foldl_accumulate (pairs : List (Nat × α)) (tab : Table α) (t : Nat) :
    (pairs.foldl accumulate tab).find? t =
      match (pairs.filter fun p => p.1 = t).map Prod.snd with
      | [] => tab.find? t
      | ws => some (ws.foldl (· + ·) ((tab.find? t).getD 0)) := by
  induction pairs generalizing tab with
  | nil => rfl
  | cons p ps ih =>
    rw [List.foldl_cons, ih]
    simp only [accumulate, Table.find?_alter]
    by_cases h : p.1 = t
    · subst h
      simp only [List.filter_cons, decide_true, if_true, List.map_cons, List.foldl_cons]
      split
      · rename_i hnil
        simp [hnil]
      · simp
    · have h' : ¬ t = p.1 := fun e => h e.symm
      simp [h, h']

/-- A vector built from weighted terms holds a term exactly when its weights, added from zero in the order given,
come to a positive and finite number, and holds it with that number. -/
theorem weight?_ofPairs (pairs : List (Nat × α)) (t : Nat) :
    (ofPairs pairs).weight? t = (summed pairs t).filter fun w => decide (0 < w) && Scalar.isFinite w := by
  unfold weight? ofPairs
  rw [Table.find?_filter, find?_foldl_accumulate]
  unfold summed
  split
  · rfl
  · rfl

end TermVector

end ToleranceClustering
