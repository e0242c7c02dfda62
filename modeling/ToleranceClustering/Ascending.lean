/-!
# Ascending lists

Sets of numbers, held as strictly ascending lists: term sets, posting lists, document sets. `ofList` sorts and drops
repetitions, `union` joins two sets, and `sharedCount` counts the common elements in one pass over both.

Main statements: what the operations build is strictly ascending (`ascending_insert`, `ascending_ofList`,
`ascending_union`) and holds the expected elements (`mem_insert`, `mem_ofList`, `mem_union`).
-/

namespace ToleranceClustering

/-- Strictly ascending. -/
def Ascending (xs : List Nat) : Prop := xs.Pairwise (· < ·)

namespace Ascending

/-- Adds `x` at its place; a number that is there stays single. -/
def insert (x : Nat) : List Nat → List Nat
  | [] => [x]
  | y :: ys => if x < y then x :: y :: ys else if x = y then y :: ys else y :: insert x ys

/-- The set of the numbers of a list. -/
def ofList (xs : List Nat) : List Nat := xs.foldr insert []

/-- The numbers of either set. -/
def union (xs ys : List Nat) : List Nat := xs.foldr insert ys

/-- The common elements of `x :: xs` and a second list, given the count `rest` of those of `xs` with it: the second
list is passed until it reaches `x`. -/
def sharedCountFrom (x : Nat) (rest : List Nat → Nat) : List Nat → Nat
  | [] => 0
  | y :: ys => if x < y then rest (y :: ys) else if y < x then sharedCountFrom x rest ys else rest ys + 1

/-- How many elements two ascending lists share: the smaller head is passed, equal heads are counted and passed
together, and the end of either list ends the count. -/
def sharedCount : List Nat → List Nat → Nat
  | [], _ => 0
  | x :: xs, ys => sharedCountFrom x (sharedCount xs) ys

theorem sharedCount_nil_right (xs : List Nat) : sharedCount xs [] = 0 := by
  cases xs <;> rfl

theorem sharedCount_cons_cons (x y : Nat) (xs ys : List Nat) :
    sharedCount (x :: xs) (y :: ys) =
      if x < y then sharedCount xs (y :: ys)
      else if y < x then sharedCount (x :: xs) ys
      else sharedCount xs ys + 1 := rfl

theorem mem_insert {a x : Nat} {xs : List Nat} : a ∈ insert x xs ↔ a = x ∨ a ∈ xs := by
  induction xs with
  | nil => simp [insert]
  | cons y ys ih =>
    simp only [insert]
    split
    · simp
    · split
      · rename_i h
        subst h
        simp
      · simp only [List.mem_cons, ih]
        grind

theorem ascending_insert {x : Nat} {xs : List Nat} (h : Ascending xs) : Ascending (insert x xs) := by
  induction xs with
  | nil => simp [insert, Ascending]
  | cons y ys ih =>
    obtain ⟨hy, hys⟩ := List.pairwise_cons.1 h
    simp only [insert]
    split
    · rename_i hxy
      refine List.pairwise_cons.2 ⟨fun a ha => ?_, h⟩
      rcases List.mem_cons.1 ha with rfl | ha
      · exact hxy
      · exact Nat.lt_trans hxy (hy a ha)
    · split
      · exact h
      · refine List.pairwise_cons.2 ⟨fun a ha => ?_, ih hys⟩
        rcases mem_insert.1 ha with rfl | ha
        · omega
        · exact hy a ha

@[simp]
theorem mem_union {a : Nat} {xs ys : List Nat} : a ∈ union xs ys ↔ a ∈ xs ∨ a ∈ ys := by
  induction xs with
  | nil => simp [union]
  | cons x xs ih =>
    have : union (x :: xs) ys = insert x (union xs ys) := rfl
    rw [this, mem_insert, ih, List.mem_cons, or_assoc]

theorem ascending_union {xs ys : List Nat} (h : Ascending ys) : Ascending (union xs ys) := by
  induction xs with
  | nil => exact h
  | cons x xs ih => exact ascending_insert ih

theorem ofList_eq_union (xs : List Nat) : ofList xs = union xs [] := rfl

@[simp]
theorem mem_ofList {a : Nat} {xs : List Nat} : a ∈ ofList xs ↔ a ∈ xs := by
  rw [ofList_eq_union, mem_union]
  simp

theorem ascending_ofList (xs : List Nat) : Ascending (ofList xs) :=
  ascending_union List.Pairwise.nil

end Ascending

end ToleranceClustering
