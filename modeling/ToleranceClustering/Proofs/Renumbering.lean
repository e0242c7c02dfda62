import Mathlib.Order.Hom.Basic
import ToleranceClustering.Proofs.Postings
import ToleranceClustering.Sorting

/-!
# Terms under other numbers

Terms may have other numbers in the same order: a renumbering is an order embedding of the numbers. Sets, tables,
vectors and corpora are renumbered by renumbering their entries in place, since their order stays the same, and every
operation on them gives the renumbered result. Of weights and positions nothing changes, so memberships do not either
(`membership_renumber`).
-/

namespace ToleranceClustering

/-! ## Sets of numbers -/

section Numbers

variable (ρ : ℕ ↪o ℕ)

/-- Renumbered numbers compare as before. -/
theorem compare_renumber (a b : ℕ) : compare (ρ a) (ρ b) = compare a b := by
  rcases Nat.lt_trichotomy a b with h | h | h
  · rw [Nat.compare_eq_lt.2 h, Nat.compare_eq_lt.2 (ρ.lt_iff_lt.2 h)]
  · rw [h, Nat.compare_eq_eq.2 rfl, Nat.compare_eq_eq.2 rfl]
  · rw [Nat.compare_eq_gt.2 h, Nat.compare_eq_gt.2 (ρ.lt_iff_lt.2 h)]

/-- So do numbers that may be missing. -/
theorem compare_map_renumber (a b : Option ℕ) : compare (a.map ρ) (b.map ρ) = compare a b := by
  cases a with
  | none => cases b <;> rfl
  | some a =>
    cases b with
    | none => rfl
    | some b => exact compare_renumber ρ a b

/-- A renumbered list has a number under its new name exactly if it had it before. -/
theorem contains_map_renumber (xs : List ℕ) (a : ℕ) : (xs.map ρ).contains (ρ a) = xs.contains a := by
  rw [Bool.eq_iff_iff, List.contains_iff_mem, List.contains_iff_mem, List.mem_map_of_injective ρ.injective]

namespace Ascending

/-- Adding a number and renumbering can be done in either order. -/
theorem map_insert (x : ℕ) (xs : List ℕ) : (insert x xs).map ρ = insert (ρ x) (xs.map ρ) := by
  induction xs with
  | nil => rfl
  | cons y ys ih =>
    simp only [insert, List.map_cons, ρ.lt_iff_lt, ρ.injective.eq_iff, ← ih]
    split
    · rfl
    · split <;> rfl

/-- The union of renumbered sets is the renumbered union. -/
theorem map_union (xs ys : List ℕ) : (union xs ys).map ρ = union (xs.map ρ) (ys.map ρ) := by
  induction xs with
  | nil => rfl
  | cons x xs ih =>
    have hcons : union (x :: xs) ys = insert x (union xs ys) := rfl
    rw [hcons, map_insert, ih]
    rfl

/-- Making a set of a list and renumbering can be done in either order. -/
theorem map_ofList (xs : List ℕ) : (ofList xs).map ρ = ofList (xs.map ρ) := by
  rw [ofList_eq_union, map_union, List.map_nil, ← ofList_eq_union]

/-- Renumbered sets are ascending. -/
theorem map {xs : List ℕ} (h : Ascending xs) : Ascending (xs.map ρ) := by
  refine List.Pairwise.map ρ ?_ h
  intro a b hab
  exact ρ.lt_iff_lt.2 hab

end Ascending

end Numbers

namespace Sorting

/-- Sorting commutes with a map that keeps the comparison. -/
theorem map_sort {β γ : Type} {cmp : β → β → Ordering} {cmp' : γ → γ → Ordering} (f : β → γ) (bs : List β)
    (h : ∀ a ∈ bs, ∀ b ∈ bs, cmp' (f a) (f b) = cmp a b) : (sort cmp bs).map f = sort cmp' (bs.map f) := by
  induction bs with
  | nil => rfl
  | cons b bs ih =>
    have hinsert : ∀ cs : List β, (∀ c ∈ cs, c ∈ bs) → (insert cmp b cs).map f = insert cmp' (f b) (cs.map f) := by
      intro cs hcs
      induction cs with
      | nil => rfl
      | cons c cs ihc =>
        obtain ⟨hc, hcs⟩ := List.forall_mem_cons.1 hcs
        have hcmp := h b List.mem_cons_self c (List.mem_cons_of_mem b hc)
        simp only [insert, List.map_cons, hcmp, ← ihc hcs]
        split <;> rfl
    have hrest := ih fun a ha c hc => h a (List.mem_cons_of_mem b ha) c (List.mem_cons_of_mem b hc)
    rw [sort, List.map_cons, sort, hinsert _ fun c hc => (perm_sort cmp bs).mem_iff.1 hc, hrest]

end Sorting

/-! ## Tables -/

namespace Table

variable {β : Type} (ρ : ℕ ↪o ℕ)

/-- An entry under its new number. -/
def renumberEntry (e : ℕ × β) : ℕ × β := (ρ e.1, e.2)

/-- The keys of renumbered entries are the renumbered keys. -/
theorem keys_renumberEntry (es : List (ℕ × β)) : (es.map (renumberEntry ρ)).map Prod.fst = (es.map Prod.fst).map ρ := by
  rw [List.map_map, List.map_map]
  rfl

/-- The table with its keys renumbered. -/
def renumber (t : Table β) : Table β where
  entries := t.entries.map (renumberEntry ρ)
  ascending := keys_renumberEntry ρ t.entries ▸ Ascending.map ρ t.ascending

theorem ext {t u : Table β} (h : t.entries = u.entries) : t = u := by
  cases t
  cases u
  cases h
  rfl

/-- The keys of a renumbered table are the renumbered keys. -/
theorem keys_renumber (t : Table β) : (t.renumber ρ).keys = t.keys.map ρ := keys_renumberEntry ρ t.entries

/-- The values of a table stay where they are. -/
theorem values_renumber (t : Table β) : (t.renumber ρ).values = t.values := by
  unfold values renumber
  rw [List.map_map]
  rfl

/-- A renumbered table has under the new number what it had under the old one. -/
theorem find?_renumber (t : Table β) (k : ℕ) : (t.renumber ρ).find? (ρ k) = t.find? k := by
  unfold find? renumber
  simp only
  induction t.entries with
  | nil => rfl
  | cons e es ih =>
    rw [List.map_cons, lookup_cons_eq, lookup_cons_eq, ih]
    simp only [renumberEntry, ρ.injective.eq_iff]

/-- Changing a table at one key and renumbering can be done in either order. -/
theorem renumber_alter (t : Table β) (k : ℕ) (f : Option β → β) :
    (t.alter k f).renumber ρ = (t.renumber ρ).alter (ρ k) f := by
  refine ext ?_
  unfold renumber alter
  simp only
  induction t.entries with
  | nil => rfl
  | cons e es ih =>
    simp only [alterEntries, List.map_cons, renumberEntry, ρ.lt_iff_lt, ρ.injective.eq_iff] at ih ⊢
    split
    · rfl
    · split
      · rfl
      · rw [List.map_cons, ih]
        rfl

/-- So can renumbering and a filter, if it keeps an entry under its new number exactly if it keeps it under the old one. -/
theorem renumber_filter (t : Table β) {p q : ℕ × β → Bool} (h : ∀ e, q (renumberEntry ρ e) = p e) :
    (t.filter p).renumber ρ = (t.renumber ρ).filter q := by
  refine ext ?_
  unfold renumber filter
  simp only
  rw [List.filter_map]
  refine congrArg (List.map _) (List.filter_congr ?_)
  intro e _
  exact (h e).symm

theorem renumber_empty : (empty : Table β).renumber ρ = empty := rfl

end Table

/-! ## Vectors -/

variable {α : Type} [Scalar α]

namespace TermVector

variable (ρ : ℕ ↪o ℕ)

/-- The vector with its terms renumbered. -/
def renumber (v : TermVector α) : TermVector α where
  weights := v.weights.renumber ρ
  positive := by
    intro e he
    obtain ⟨e', he', rfl⟩ := List.mem_map.1 he
    exact v.positive e' he'

theorem ext {v w : TermVector α} (h : v.weights = w.weights) : v = w := by
  cases v
  cases w
  cases h
  rfl

/-- The entries of a renumbered vector, in the same order as before. -/
theorem entries_renumber (v : TermVector α) : (v.renumber ρ).entries = v.entries.map (Table.renumberEntry ρ) := rfl

/-- The terms of a renumbered vector. -/
theorem terms_renumber (v : TermVector α) : (v.renumber ρ).terms = v.terms.map ρ := v.weights.keys_renumber ρ

/-- A term has under its new number the weight that it had under the old one. -/
theorem weight?_renumber (v : TermVector α) (t : TermId) : (v.renumber ρ).weight? (ρ t) = v.weight? t :=
  v.weights.find?_renumber ρ t

/-- The weights add up as before, since they are added in the same order. -/
theorem total_renumber (v : TermVector α) : (v.renumber ρ).total = v.total := by
  unfold total renumber
  rw [Table.values_renumber]

theorem renumber_empty : (empty : TermVector α).renumber ρ = empty := rfl

/-- Adding a weight to a table and renumbering can be done in either order. -/
theorem renumber_accumulate (t : Table α) (pair : ℕ × α) :
    (accumulate t pair).renumber ρ = accumulate (t.renumber ρ) (Table.renumberEntry ρ pair) :=
  t.renumber_alter ρ _ _

/-- So can adding many. -/
theorem renumber_foldl_accumulate (pairs : List (ℕ × α)) (t : Table α) :
    (pairs.foldl accumulate t).renumber ρ = (pairs.map (Table.renumberEntry ρ)).foldl accumulate (t.renumber ρ) := by
  induction pairs generalizing t with
  | nil => rfl
  | cons pair pairs ih => rw [List.foldl_cons, ih, renumber_accumulate, List.map_cons, List.foldl_cons]

/-- The vector of renumbered pairs is the renumbered vector. -/
theorem renumber_ofPairs (pairs : List (ℕ × α)) :
    (ofPairs pairs).renumber ρ = ofPairs (pairs.map (Table.renumberEntry ρ)) := by
  refine ext ?_
  have hsum := renumber_foldl_accumulate ρ pairs Table.empty
  rw [Table.renumber_empty] at hsum
  have hkeep : ∀ e : ℕ × α, admits (Table.renumberEntry ρ e) = admits e := fun _ => rfl
  exact (Table.renumber_filter ρ _ hkeep).trans (congrArg (Table.filter · admits) hsum)

end TermVector

/-- The share of a document's weight that lies on some terms has nothing to do with their numbers. -/
theorem membership_renumber (ρ : ℕ ↪o ℕ) (v : TermVector α) (terms : List TermId) :
    membership (v.renumber ρ) (terms.map ρ) = membership v terms := by
  unfold membership
  rw [TermVector.total_renumber, TermVector.entries_renumber, List.filter_map, List.map_map]
  have hinside : ∀ e : ℕ × α, (terms.map ρ).contains (Table.renumberEntry ρ e).1 = terms.contains e.1 :=
    fun e => contains_map_renumber ρ terms e.1
  simp only [Function.comp_def, hinside]
  rfl

/-! ## Corpora -/

namespace Corpus

variable (ρ : ℕ ↪o ℕ) (c : Corpus α)

/-- The corpus with its terms renumbered. -/
def renumber : Corpus α := ⟨c.documents.map fun d => ⟨d.id, d.vector.renumber ρ⟩⟩

/-- A renumbered corpus has as many documents as before. -/
theorem size_renumber : (c.renumber ρ).size = c.size := Array.size_map

/-- The documents keep their ids. -/
theorem id_renumber (pos : Position) : (c.renumber ρ).id pos = c.id pos := by
  unfold id renumber
  rw [Array.getElem?_map, Option.map_map]
  rfl

/-- The document at a position has the renumbered vector. -/
theorem vector_renumber (pos : Position) : (c.renumber ρ).vector pos = (c.vector pos).renumber ρ := by
  unfold vector renumber
  rw [Array.getElem?_map, Option.map_map]
  cases c.documents[pos]? <;> rfl

/-- The vectors of a renumbered corpus. -/
theorem vectors_renumber : (c.renumber ρ).vectors = c.vectors.map (TermVector.renumber ρ) := by
  unfold vectors renumber
  rw [Array.toList_map, List.map_map, List.map_map]
  rfl

/-- A term weighs over some documents what it weighed under its old number. -/
theorem aggregateWeight_renumber (t : TermId) (positions : List Position) :
    (c.renumber ρ).aggregateWeight (ρ t) positions = c.aggregateWeight t positions := by
  unfold aggregateWeight
  simp only [vector_renumber, TermVector.weight?_renumber]

/-- The terms of a renumbered corpus are the renumbered terms. -/
theorem vocabulary_renumber : (c.renumber ρ).vocabulary = c.vocabulary.map ρ := by
  have hfold : ∀ (vs : List (TermVector α)) (seen : List TermId),
      (vs.map (TermVector.renumber ρ)).foldl (fun seen v => Ascending.union v.terms seen) (seen.map ρ) =
        (vs.foldl (fun seen v => Ascending.union v.terms seen) seen).map ρ := by
    intro vs
    induction vs with
    | nil => intro seen; rfl
    | cons v vs ih =>
      intro seen
      rw [List.map_cons, List.foldl_cons, List.foldl_cons, TermVector.terms_renumber, ← Ascending.map_union, ih]
  unfold vocabulary
  rw [vectors_renumber]
  exact hfold c.vectors []

end Corpus

end ToleranceClustering
