import Mathlib
import ToleranceClustering.Proofs.Binary64.Quotients
import ToleranceClustering.Proofs.ExactLaws
import ToleranceClustering.Proofs.PairedPass

/-!
# Overlaps of document sets

One pass over the positions of two approximations counts their common documents, and both sizes without the common ones count
the documents in either (`size_sub_sharedCount`). So the overlap is the number of common documents divided by the number in
either (`overlap_eq_commonShare`).

What an overlap says about the two sets (`Agreement`) follows from what a quotient of counts says about the counts
(`Scalar.Portion`), without rounding as well as over binary64.
-/

namespace ToleranceClustering

/-! ## Sets of documents -/

theorem card_inter_le_card_union (A B : Finset Position) : (A ∩ B).card ≤ (A ∪ B).card :=
  Finset.card_le_card Finset.inter_subset_union

/-- Sets whose documents are all common are equal. -/
theorem card_inter_eq_card_union_iff {A B : Finset Position} : (A ∩ B).card = (A ∪ B).card ↔ A = B := by
  constructor
  · intro h
    exact inf_eq_sup.1 (Finset.eq_of_subset_of_card_le Finset.inter_subset_union h.ge)
  · rintro rfl
    rw [Finset.inter_self, Finset.union_self]

variable {α : Type}

namespace Approximation

/-- The set of the documents covered. -/
def documents (a : Approximation α) : Finset Position := a.positions.toFinset

variable {a b : Approximation α}

theorem card_documents (h : Ascending a.positions) : a.documents.card = a.size := by
  rw [documents, List.toFinset_card_of_nodup h.nodup, length_positions]

/-- Both sizes without the common documents: every document of either set once. -/
theorem size_sub_sharedCount (ha : Ascending a.positions) (hb : Ascending b.positions) :
    a.size + b.size - Ascending.sharedCount a.positions b.positions = (a.documents ∪ b.documents).card := by
  have hcards := Finset.card_union_add_card_inter a.documents b.documents
  rw [card_documents ha, card_documents hb] at hcards
  rw [ha.sharedCount_eq_card hb]
  exact Nat.sub_eq_of_eq_add hcards.symm

end Approximation

/-! ## Quotients of counts -/

variable [Scalar α]

/-- What the quotient `x` of two counts says about them, `part` being divided by `whole`. -/
structure Scalar.Portion (part whole : Nat) (x : α) : Prop where
  nonneg : 0 ≤ x
  le_one : x ≤ 1
  eq_zero_iff : x = 0 ↔ part = 0
  eq_one_iff : x = 1 ↔ (part : α) = (whole : α)

/-- Without rounding, of any counts. -/
theorem Exact.portion {m n : Nat} (h : m ≤ n) (hn : 0 < n) : Scalar.Portion m n ((m : Exact) / (n : Exact)) := by
  have hpos : (0 : ℝ) < n := Nat.cast_pos.2 hn
  refine ⟨?_, ?_, ?_, ?_⟩
  · exact div_nonneg m.cast_nonneg hpos.le
  · exact (div_le_one hpos).2 (Nat.cast_le.2 h)
  · rw [Exact.ext_iff, div_value, natCast_value, natCast_value, zero_value, div_eq_zero_iff]
    simp [hn.ne']
  · rw [Exact.ext_iff, Exact.ext_iff, div_value, one_value]
    exact div_eq_one_iff_eq hpos.ne'

/-- Over binary64, of counts that do not overflow. -/
theorem Binary64.portion {m n : Nat} (h : m ≤ n) (hn : 0 < n) (hfit : n < 2 ^ 128) :
    Scalar.Portion m n ((m : Float) / (n : Float)) := by
  have hzero : m = 0 → (m : Float) / (n : Float) = (0 : Float) := by
    rintro rfl
    exact ofNat_zero_div hn hfit
  have hpos : m ≠ 0 → (0 : Float) < (m : Float) / (n : Float) :=
    fun hm => ofNat_div_pos (Nat.pos_of_ne_zero hm) hn hfit
  have hone : (m : Float) = (n : Float) → (m : Float) / (n : Float) = (1 : Float) := by
    intro hsame
    rw [hsame]
    exact ofNat_div_self hn hfit
  have hlt : (m : Float) ≠ (n : Float) → (m : Float) / (n : Float) < (1 : Float) :=
    ofNat_div_lt_one h hn hfit
  refine ⟨?_, ?_, ⟨?_, hzero⟩, ⟨?_, hone⟩⟩
  · by_cases hm : m = 0
    · rw [hzero hm]
      exact Scalar.zero_le_zero
    · exact Scalar.Ordered.le_of_lt (hpos hm)
  · by_cases hsame : (m : Float) = (n : Float)
    · rw [hone hsame]
      exact Scalar.one_le_one
    · exact Scalar.Ordered.le_of_lt (hlt hsame)
  · intro hx
    by_contra hm
    exact Scalar.Ordered.lt_irrefl (0 : Float) (lt_of_lt_of_eq (hpos hm) hx)
  · intro hx
    by_contra hsame
    exact Scalar.Ordered.lt_irrefl (1 : Float) (lt_of_eq_of_lt hx.symm (hlt hsame))

/-! ## Common shares -/

/-- How much two sets of documents have in common: the number of documents in both divided by the number in either, and zero
if there are none. -/
def commonShare (A B : Finset Position) : α :=
  if A ∪ B = ∅ then 0 else ((A ∩ B).card : α) / ((A ∪ B).card : α)

/-- What an overlap `x` says about two sets of documents. -/
structure Agreement (A B : Finset Position) (x : α) : Prop where
  nonneg : 0 ≤ x
  le_one : x ≤ 1
  eq_zero_iff : x = 0 ↔ Disjoint A B
  /-- All documents of either set are in both, as far as the numbers tell. -/
  eq_one_iff : x = 1 ↔ (A ∪ B).Nonempty ∧ ((A ∩ B).card : α) = ((A ∪ B).card : α)

/-- A common share says about two sets what the quotient says about their counts. -/
theorem agreement_commonShare [Scalar.Ordered α] {A B : Finset Position}
    (h : 0 < (A ∪ B).card → Scalar.Portion (A ∩ B).card (A ∪ B).card (((A ∩ B).card : α) / ((A ∪ B).card : α))) :
    Agreement A B (commonShare A B : α) := by
  have hdisjoint : (A ∩ B).card = 0 ↔ Disjoint A B := by
    rw [Finset.card_eq_zero, Finset.disjoint_iff_inter_eq_empty]
  rcases (A ∪ B).eq_empty_or_nonempty with hempty | hne
  · have hshare : (commonShare A B : α) = 0 := if_pos hempty
    have hinter : (A ∩ B).card = 0 := by
      have hle := card_inter_le_card_union A B
      rw [hempty, Finset.card_empty] at hle
      exact Nat.le_zero.1 hle
    have hzero : (0 : α) ≠ 1 :=
      fun he => Scalar.Ordered.lt_irrefl (0 : α) (lt_of_lt_of_eq Scalar.Ordered.zero_lt_one he.symm)
    rw [hshare]
    refine ⟨Scalar.zero_le_zero, Scalar.Ordered.le_of_lt Scalar.Ordered.zero_lt_one, ?_, ?_⟩
    · exact iff_of_true rfl (hdisjoint.1 hinter)
    · refine iff_of_false hzero ?_
      rintro ⟨hne, -⟩
      exact hne.ne_empty hempty
  · have hshare : (commonShare A B : α) = ((A ∩ B).card : α) / ((A ∪ B).card : α) := if_neg hne.ne_empty
    have hportion := h (Finset.card_pos.2 hne)
    rw [hshare]
    refine ⟨hportion.nonneg, hportion.le_one, ?_, ?_⟩
    · exact hportion.eq_zero_iff.trans hdisjoint
    · exact hportion.eq_one_iff.trans (and_iff_right hne).symm

/-- Where counts are told apart, an overlap of one says that the sets are equal, and not empty. -/
theorem Agreement.eq_one_iff_eq {A B : Finset Position} {x : α} (h : Agreement A B x)
    (hcounts : ((A ∩ B).card : α) = ((A ∪ B).card : α) ↔ (A ∩ B).card = (A ∪ B).card) :
    x = 1 ↔ A = B ∧ A.Nonempty := by
  rw [h.eq_one_iff, hcounts, card_inter_eq_card_union_iff, and_comm]
  refine and_congr_right ?_
  rintro rfl
  rw [Finset.union_self]

/-! ## Overlaps -/

namespace Approximation

/-- The overlap as it is computed: one pass over the documents of both approximations, and the common ones taken off the sum
of the sizes, if there are as many. -/
def overlapByPass? (a b : Approximation α) : Option α :=
  let shared := Pass.count a.positions b.positions
  if shared ≤ a.size + b.size then
    let either := a.size + b.size - shared
    some (if either = 0 then 0 else (shared : α) / (either : α))
  else none

/-- There are as many to be taken off, whatever the members are. -/
theorem overlapByPass?_eq (a b : Approximation α) : a.overlapByPass? b = some (a.overlap b) := by
  have hle : Pass.count a.positions b.positions ≤ a.size + b.size := by
    refine Nat.le_trans (Pass.count_le_left _ _) ?_
    rw [length_positions]
    exact Nat.le_add_right _ _
  unfold overlapByPass? overlap
  simp only [if_pos hle]
  rw [Pass.count_eq_sharedCount]

theorem overlap_eq_commonShare {a b : Approximation α} (ha : Ascending a.positions) (hb : Ascending b.positions) :
    a.overlap b = commonShare a.documents b.documents := by
  unfold overlap commonShare
  simp only [size_sub_sharedCount ha hb, Finset.card_eq_zero]
  rw [ha.sharedCount_eq_card hb]
  rfl

end Approximation

/-- What a pass counts and what the overlap says.

A pass over two lists counts the numbers in both if they are ascending. Over any lists it counts no more than either has, and
as many with the lists exchanged, so the common documents can always be taken off the sizes and the overlap is symmetric. For
ascending members the overlap is the common share of the two sets of documents.

It lies between zero and one, is zero for disjoint sets only, and without rounding one for equal sets only, unless they are
empty. Over binary64 an overlap of one says that the number of common documents and the number in either are converted to the
same number: up to `2 ^ 53` documents, more than a memory holds, that is to say again that the sets are equal. -/
theorem overlap_is_common_share :
    (∀ xs ys : List Nat, Ascending xs → Ascending ys → Pass.count xs ys = (xs.toFinset ∩ ys.toFinset).card) ∧
    (∀ xs ys : List Nat, Pass.count xs ys ≤ xs.length ∧ Pass.count xs ys ≤ ys.length ∧
      Pass.count ys xs = Pass.count xs ys) ∧
    (∀ (inc : Incidence) (i j : Nat), inc.cooccurrence i j = Pass.count (inc.postingsOf i) (inc.postingsOf j)) ∧
    (∀ (α : Type) [Scalar α] (a b : Approximation α), a.overlapByPass? b = some (a.overlap b) ∧
      b.overlap a = a.overlap b ∧ (Ascending a.positions → Ascending b.positions →
        a.overlap b = commonShare a.documents b.documents)) ∧
    (∀ a b : Approximation Exact, Ascending a.positions → Ascending b.positions →
      Agreement a.documents b.documents (a.overlap b) ∧
      (a.overlap b = 1 ↔ a.documents = b.documents ∧ a.documents.Nonempty)) ∧
    ∀ a b : Approximation Float, Ascending a.positions → Ascending b.positions →
      (a.documents ∪ b.documents).card < 2 ^ 64 → Agreement a.documents b.documents (a.overlap b) ∧
      ((a.documents ∪ b.documents).card ≤ 2 ^ 53 →
        (a.overlap b = 1 ↔ a.documents = b.documents ∧ a.documents.Nonempty)) := by
  refine ⟨fun xs ys => Pass.count_eq_card, ?_, ?_, ?_, ?_, ?_⟩
  · intro xs ys
    exact ⟨Pass.count_le_left xs ys, Pass.count_le_right xs ys, Pass.count_comm ys xs⟩
  · intro inc i j
    exact (Pass.count_eq_sharedCount _ _).symm
  · intro α _ a b
    exact ⟨a.overlapByPass?_eq b, b.overlap_comm a, Approximation.overlap_eq_commonShare⟩
  · intro a b ha hb
    have hagree : Agreement a.documents b.documents (a.overlap b) := by
      rw [Approximation.overlap_eq_commonShare ha hb]
      exact agreement_commonShare (Exact.portion (card_inter_le_card_union _ _))
    exact ⟨hagree, hagree.eq_one_iff_eq Exact.natCast_inj⟩
  · intro a b ha hb hfit
    have hagree : Agreement a.documents b.documents (a.overlap b) := by
      rw [Approximation.overlap_eq_commonShare ha hb]
      refine agreement_commonShare fun hpos => ?_
      exact Binary64.portion (card_inter_le_card_union _ _) hpos (by omega)
    refine ⟨hagree, fun hsmall => hagree.eq_one_iff_eq ?_⟩
    exact Binary64.ofNat_inj (Nat.le_trans (card_inter_le_card_union _ _) hsmall) hsmall

/-- An approximation that covers the documents at some positions entirely. -/
def entirely (ps : List Position) : Approximation α := ⟨[], ps.map fun pos => (pos, 1)⟩

/-- Two sets of three documents with two in common, over both arithmetics, and two lists of the same documents in opposite
order. -/
theorem overlap_of_three_and_three :
    Ascending (entirely [0, 1, 2] : Approximation Float).positions ∧
      Ascending (entirely [1, 2, 3] : Approximation Float).positions ∧ Pass.count [0, 1, 2] [1, 2, 3] = 2 ∧
      (entirely [0, 1, 2] : Approximation Float).overlap (entirely [1, 2, 3]) = 0.5 ∧
      (entirely [0, 1, 2] : Approximation Float).overlap (entirely [0, 1, 2]) = 1 ∧
      ((entirely [0, 1, 2] : Approximation Exact).overlap (entirely [1, 2, 3])).value = 1 / 2 ∧
      (entirely [3, 1] : Approximation Float).overlap (entirely [1, 3]) =
        (entirely [1, 3] : Approximation Float).overlap (entirely [3, 1]) := by
  obtain ⟨hcount, -, -, hany, -, hfloat⟩ := overlap_is_common_share
  have hfirst : Ascending [0, 1, 2] := by simp [Ascending]
  have hsecond : Ascending [1, 2, 3] := by simp [Ascending]
  have hsame := hfloat (entirely [0, 1, 2]) (entirely [0, 1, 2]) hfirst hfirst (by decide)
  refine ⟨hfirst, hsecond, ?_, by decide +kernel, ?_, ?_, ?_⟩
  · rw [hcount _ _ hfirst hsecond]
    decide
  · exact (hsame.2 (by decide)).2 ⟨rfl, 0, by decide⟩
  · have hshare := (hany Exact (entirely [0, 1, 2]) (entirely [1, 2, 3])).2.2 hfirst hsecond
    have hquotient : (commonShare {0, 1, 2} {1, 2, 3} : Exact) = ((2 : ℕ) : Exact) / ((4 : ℕ) : Exact) :=
      if_neg (by decide)
    rw [hshare]
    refine (congrArg Exact.value hquotient).trans ?_
    rw [Exact.div_value, Exact.natCast_value, Exact.natCast_value]
    norm_num
  · exact (hany Float _ _).2.1

end ToleranceClustering
