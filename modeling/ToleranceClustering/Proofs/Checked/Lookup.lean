import ToleranceClustering.Corpus

/-!
# Checked lookups

The definitions that run fall back on a default where a place does not exist. In the namespace `Checked` the same steps are
taken with lookups that may miss, and a miss ends the whole run with nothing. Two lemmas carry a step of a loop that does
not miss over to the loop: for one that maps a list (`mapM_eq_some`), and for one that hands on a state under an invariant
of the state and of what is still to come (`foldlM_eq_some`).
-/

namespace ToleranceClustering

namespace Checked

/-! ## Steps -/

/-- After a step that succeeds, the rest goes on with its value. -/
theorem bind_of_eq {β γ : Type} {x : Option β} {b : β} (h : x = some b) (rest : β → Option γ) :
    (x >>= rest) = rest b := by
  rw [h]
  rfl

/-! ## Loops -/

/-- Mapping a list by steps that all succeed. -/
theorem mapM_eq_some {β γ : Type} {xs : List β} {f : β → Option γ} {g : β → γ} (h : ∀ x ∈ xs, f x = some (g x)) :
    xs.mapM f = some (xs.map g) := by
  induction xs with
  | nil => rfl
  | cons x xs ih =>
    obtain ⟨hx, hxs⟩ := List.forall_mem_cons.1 h
    rw [List.mapM_cons, hx, ih hxs]
    rfl

/-- Walking a list by steps that succeed as long as an invariant holds, and keep it. The invariant speaks of the state and
of the elements still to come. -/
theorem foldlM_eq_some {σ β : Type} {f : σ → β → Option σ} {g : σ → β → σ} (inv : σ → List β → Prop)
    (hstep : ∀ st x xs, inv st (x :: xs) → f st x = some (g st x) ∧ inv (g st x) xs) {xs : List β} {st : σ}
    (h : inv st xs) : xs.foldlM f st = some (xs.foldl g st) ∧ inv (xs.foldl g st) [] := by
  induction xs generalizing st with
  | nil => exact ⟨rfl, h⟩
  | cons x xs ih =>
    obtain ⟨hx, hinv⟩ := hstep st x xs h
    obtain ⟨hxs, hend⟩ := ih hinv
    rw [List.foldlM_cons, hx]
    exact ⟨hxs, hend⟩

/-! ## Arrays -/

/-- The array after the value at `i` became `f` of what it was, if there is one. -/
def modify {β : Type} (xs : Array β) (i : Nat) (f : β → β) : Option (Array β) :=
  if i < xs.size then some (xs.modify i f) else none

theorem modify_eq {β : Type} {xs : Array β} {i : Nat} (h : i < xs.size) (f : β → β) :
    modify xs i f = some (xs.modify i f) := if_pos h

/-- Where a place exists, looking it up gives what reading it with a default gives. -/
theorem getElem?_eq_getD {β : Type} {xs : Array β} {i : Nat} (h : i < xs.size) (d : β) : xs[i]? = some (xs.getD i d) := by
  rw [Array.getD_eq_getD_getElem?, Array.getElem?_eq_getElem h, Option.getD_some]

/-! ## Documents -/

variable {α : Type} [Scalar α] {c : Corpus α}

/-- A position of a corpus has a document: its id and its vector. -/
theorem getElem?_documents {pos : Position} (h : pos < c.size) : c.documents[pos]? = some ⟨c.id pos, c.vector pos⟩ := by
  have hget : c.documents[pos]? = some c.documents[pos] := Array.getElem?_eq_getElem h
  rw [Corpus.id, Corpus.vector, hget]
  rfl

/-- The vectors at some positions are looked up exactly if all of these are positions of the corpus. -/
theorem vectorsAt?_eq (positions : List Position) :
    c.vectorsAt? positions = if ∀ pos ∈ positions, pos < c.size then some (positions.map c.vector) else none := by
  induction positions with
  | nil => rfl
  | cons pos rest ih =>
    rw [Corpus.vectorsAt?] at ih ⊢
    rw [List.mapM_cons, ih]
    by_cases hpos : pos < c.size
    · simp only [getElem?_documents hpos, List.forall_mem_cons, hpos, true_and]
      split <;> rfl
    · have hnone : c.documents[pos]? = none := Array.getElem?_eq_none (Nat.le_of_not_lt hpos)
      simp only [hnone, List.forall_mem_cons, hpos, false_and, if_false]
      rfl

end Checked

end ToleranceClustering
