import ToleranceClustering.Proofs.Postings

/-!
# Which documents a term set covers

A space built from a corpus finds, through its postings, all the documents that looking at every document finds
(`approximate_eq_approximate`). What it finds is the list of the covered positions with their memberships
(`members_approximate`), and it only grows with the term set (`size_le_size`).
-/

namespace ToleranceClustering

/-- A function that gives nothing outside the smaller of two ascending lists sees no difference between them. -/
theorem Ascending.filterMap_eq_filterMap {β : Type} {xs ys : List Nat} (hx : Ascending xs) (hy : Ascending ys)
    (hsub : ∀ a ∈ xs, a ∈ ys) {f : Nat → Option β} (hnone : ∀ a ∈ ys, a ∉ xs → f a = none) :
    xs.filterMap f = ys.filterMap f := by
  have he : xs = ys.filter fun a => xs.contains a := by
    refine ext hx (hy.filter _) ?_
    intro a
    rw [List.mem_filter, List.contains_iff_mem]
    exact ⟨fun ha => ⟨hsub a ha, ha⟩, fun ha => ha.2⟩
  rw [he, List.filterMap_filter]
  refine List.filterMap_congr ?_
  intro a ha
  by_cases hmem : a ∈ xs
  · simp [hmem]
  · simp [hmem, hnone a ha hmem]

variable {α : Type} [Scalar α]

namespace Corpus

variable (c : Corpus α)

/-- Whether the document at a position is covered by some terms at threshold `μ`. -/
def Covers (terms : List TermId) (μ : α) (pos : Position) : Prop :=
  0 < membership (c.vector pos) terms ∧ μ ≤ membership (c.vector pos) terms

instance (terms : List TermId) (μ : α) (pos : Position) : Decidable (c.Covers terms μ pos) :=
  inferInstanceAs (Decidable (_ ∧ _))

/-- The positions of the documents that some terms cover, ascending. -/
def covered (terms : List TermId) (μ : α) : List Position := (List.range c.size).filter fun pos => c.Covers terms μ pos

theorem mem_covered {terms : List TermId} {μ : α} {pos : Position} :
    pos ∈ c.covered terms μ ↔ pos < c.size ∧ c.Covers terms μ pos := by
  rw [covered, List.mem_filter, List.mem_range, decide_eq_true_iff]

theorem ascending_covered (terms : List TermId) (μ : α) : Ascending (c.covered terms μ) :=
  (Ascending.ascending_range c.size).filter _

theorem cover?_eq (terms : List TermId) (μ : α) (pos : Position) :
    c.cover? terms μ pos =
      if c.Covers terms μ pos then some (pos, membership (c.vector pos) terms) else none := rfl

theorem cover?_congr {ts us : List TermId} (h : ∀ t, t ∈ ts ↔ t ∈ us) (μ : α) (pos : Position) :
    c.cover? ts μ pos = c.cover? us μ pos := by
  simp only [cover?, membership_congr _ h]

/-- The members of an approximation are the covered positions, each with its membership. -/
theorem members_approximate (terms : List TermId) (μ : α) :
    (c.approximate terms μ).members =
      (c.covered terms μ).map fun pos => (pos, membership (c.vector pos) terms) := by
  unfold approximate covered
  simp only
  induction List.range c.size with
  | nil => rfl
  | cons pos rest ih =>
    rw [List.filterMap_cons, c.cover?_congr (fun _ => Ascending.mem_ofList), cover?_eq, List.filter_cons]
    by_cases h : c.Covers terms μ pos
    · simp only [h, if_true, decide_true, List.map_cons, ih]
    · simp only [h, if_false, decide_false, ih]
      rfl

theorem positions_approximate (terms : List TermId) (μ : α) :
    (c.approximate terms μ).positions = c.covered terms μ := by
  unfold Approximation.positions
  rw [members_approximate, List.map_map]
  exact List.map_id' _

theorem size_approximate (terms : List TermId) (μ : α) : (c.approximate terms μ).size = (c.covered terms μ).length := by
  rw [← positions_approximate, Approximation.length_positions]

theorem size_approximate_le (terms : List TermId) (μ : α) : (c.approximate terms μ).size ≤ c.size := by
  rw [size_approximate, covered]
  calc _ ≤ (List.range c.size).length := List.length_filter_le _ _
    _ = c.size := List.length_range

theorem approximate_congr {ts us : List TermId} (h : ∀ t, t ∈ ts ↔ t ∈ us) (μ : α) :
    c.approximate ts μ = c.approximate us μ := by
  have he : Ascending.ofList ts = Ascending.ofList us :=
    Ascending.ext (Ascending.ascending_ofList ts) (Ascending.ascending_ofList us)
      (fun t => by rw [Ascending.mem_ofList, Ascending.mem_ofList]; exact h t)
  unfold approximate
  rw [he]

section Laws

variable [Scalar.Rounded α]

open Scalar.Ordered

/-- A larger term set covers the documents that a smaller one covers. -/
theorem Covers.mono {terms larger : List TermId} {μ : α} {pos : Position} (h : ∀ t ∈ terms, t ∈ larger)
    (hc : c.Covers terms μ pos) : c.Covers larger μ pos := by
  have hle := membership_le_membership h hc.1
  exact ⟨lt_of_lt_of_le hc.1 hle, le_trans hc.2 hle⟩

/-- The approximation of a larger term set is no smaller. -/
theorem size_le_size {terms larger : List TermId} (h : ∀ t ∈ terms, t ∈ larger) (μ : α) :
    (c.approximate terms μ).size ≤ (c.approximate larger μ).size := by
  rw [size_approximate, size_approximate]
  refine (List.monotone_filter_right _ ?_).length_le
  intro pos hpos
  rw [decide_eq_true_iff] at hpos ⊢
  exact Covers.mono c h hpos

/-- Only a document that holds one of the terms is covered. -/
theorem exists_contains_of_covers {terms : List TermId} {μ : α} {pos : Position} (h : c.Covers terms μ pos) :
    ∃ t ∈ terms, (c.vector pos).contains t = true := by
  by_contra hnone
  simp only [not_exists, not_and, Bool.not_eq_true] at hnone
  exact not_membership_pos hnone h.1

end Laws

end Corpus

namespace ToleranceSpace

variable {c : Corpus α} {τ : α} {f : Measure α} {s : ToleranceSpace α}

theorem mem_holders {terms : List TermId} {pos : Position} :
    pos ∈ s.holders terms ↔ ∃ t ∈ terms, pos ∈ s.postings t := by
  induction terms with
  | nil => simp [holders]
  | cons t ts ih =>
    have hc : s.holders (t :: ts) = Ascending.union (s.postings t) (s.holders ts) := rfl
    rw [hc, Ascending.mem_union, ih]
    simp only [List.mem_cons, exists_eq_or_imp]

theorem ascending_holders (terms : List TermId) : Ascending (s.holders terms) := by
  induction terms with
  | nil => exact List.Pairwise.nil
  | cons t ts ih => exact Ascending.ascending_union ih

/-- The search through the postings misses no document that the plain definition covers. -/
theorem approximate_eq_approximate [Scalar.Rounded α] (h : build c τ f = .ok s) (terms : List TermId) (μ : α) :
    s.approximate c terms μ = c.approximate terms μ := by
  unfold approximate Corpus.approximate
  simp only
  congr 1
  refine Ascending.filterMap_eq_filterMap (ascending_holders _) (Ascending.ascending_range _) ?_ ?_
  · intro pos hpos
    obtain ⟨t, -, ht⟩ := mem_holders.1 hpos
    rw [postings_eq_holders h, c.mem_holders] at ht
    exact List.mem_range.2 ht.1
  · intro pos hpos hmiss
    rw [c.cover?_eq, if_neg]
    intro hcovers
    obtain ⟨t, ht, hmem⟩ := c.exists_contains_of_covers hcovers
    refine hmiss (mem_holders.2 ⟨t, ht, ?_⟩)
    rw [postings_eq_holders h]
    exact c.mem_holders.2 ⟨List.mem_range.1 hpos, hmem⟩

end ToleranceSpace

end ToleranceClustering
