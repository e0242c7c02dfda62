import ToleranceClustering.Proofs.MergeOutcome

/-!
# Merging loses no document

The documents of a merged candidate are not joined but found anew, through the joined terms. Still nothing is lost: as long
as every candidate is what its terms cover (`Faithful`), a larger term set covers the same documents with memberships no
smaller (`within_approximate`), so each step keeps the documents of both candidates, and along any chain of steps the
documents of a first candidate stay with the survivor it leads to (`merging_loses_no_document`).
-/

namespace ToleranceClustering

open Agglomeration MergeState MergeHistory

variable {α : Type} [Scalar α] {c : Corpus α} {s : ToleranceSpace α} {τ : α} {f : Measure α}

/-! ## Comparing approximations -/

/-- Everything that `a` covers is covered by `b`, with a membership that is no smaller. -/
def Approximation.Within (a b : Approximation α) : Prop := ∀ m ∈ a.members, ∃ x, (m.1, x) ∈ b.members ∧ m.2 ≤ x

/-- An approximation is what its own terms cover. -/
def Approximation.Faithful (c : Corpus α) (μ : α) (a : Approximation α) : Prop := a = c.approximate a.terms μ

theorem Corpus.mem_members_approximate {terms : List TermId} {μ : α} {m : Position × α} :
    m ∈ (c.approximate terms μ).members ↔
      m.1 < c.size ∧ c.Covers terms μ m.1 ∧ m.2 = membership (c.vector m.1) terms := by
  rw [c.members_approximate, List.mem_map]
  constructor
  · rintro ⟨pos, hpos, rfl⟩
    obtain ⟨hlt, hcovers⟩ := c.mem_covered.1 hpos
    exact ⟨hlt, hcovers, rfl⟩
  · rintro ⟨hlt, hcovers, hm⟩
    exact ⟨m.1, c.mem_covered.2 ⟨hlt, hcovers⟩, Prod.ext rfl hm.symm⟩

/-- What a list of terms covers is faithful, since only the terms in it count. -/
theorem Corpus.faithful_approximate (c : Corpus α) (terms : List TermId) (μ : α) :
    (c.approximate terms μ).Faithful c μ :=
  c.approximate_congr (fun _ => Ascending.mem_ofList.symm) μ

/-- No two candidates that are left have one number. -/
theorem eq_of_id_eq {rule : MergeRule α} {cs : List (Candidate α)} (hids : cs.map Candidate.id = List.range cs.length)
    {history : List (MergeStep α)} {st : MergeState α} (hr : Reaches s c rule cs history st) {a b : Candidate α}
    (ha : a ∈ st.candidates) (hb : b ∈ st.candidates) (he : a.id = b.id) : a = b := by
  have hnodup : (st.candidates.map Candidate.id).Nodup := by
    rw [(rooted_of_reaches hids hr).ids]
    exact (ascending_standing _ _).nodup
  exact List.inj_on_of_nodup_map hnodup ha hb he

section Rounded

variable [Scalar.Rounded α]

open Scalar Scalar.Ordered

theorem Approximation.Within.trans {a b d : Approximation α} (h : a.Within b) (h' : b.Within d) : a.Within d := by
  intro m hm
  obtain ⟨x, hx, hle⟩ := h m hm
  obtain ⟨y, hy, hle'⟩ := h' (m.1, x) hx
  exact ⟨y, hy, le_trans hle hle'⟩

/-- A larger term set at a threshold no higher covers what a smaller one covers, with memberships no smaller. -/
theorem Corpus.within_approximate (c : Corpus α) {terms larger : List TermId} (h : ∀ t ∈ terms, t ∈ larger) {μ μ' : α}
    (hμ : ∀ x, μ ≤ x → μ' ≤ x) : (c.approximate terms μ).Within (c.approximate larger μ') := by
  intro m hm
  obtain ⟨hlt, ⟨hpos, hμm⟩, hmem⟩ := Corpus.mem_members_approximate.1 hm
  have hle := membership_le_membership h hpos
  refine ⟨membership (c.vector m.1) larger, Corpus.mem_members_approximate.2 ⟨hlt, ⟨?_, ?_⟩, rfl⟩, ?_⟩
  · exact lt_of_lt_of_le hpos hle
  · exact hμ _ (le_trans hμm hle)
  · rw [hmem]
    exact hle

theorem Approximation.Faithful.within_self {μ : α} {a : Approximation α} (h : a.Faithful c μ) : a.Within a := by
  have hself : (c.approximate a.terms μ).Within (c.approximate a.terms μ) :=
    c.within_approximate (fun _ ht => ht) fun _ hx => hx
  rwa [← h] at hself

/-! ## One step -/

theorem faithful_approximate (h : ToleranceSpace.build c τ f = .ok s) (terms : List TermId) (μ : α) :
    (s.approximate c terms μ).Faithful c μ := by
  rw [ToleranceSpace.approximate_eq_approximate h]
  exact c.faithful_approximate terms μ

/-- A merged candidate is what its terms cover, whatever the two candidates were. -/
theorem faithful_absorb (h : ToleranceSpace.build c τ f = .ok s) (μ : α) (a b : Candidate α) :
    (absorb s c μ a b).approximation.Faithful c μ :=
  faithful_approximate h _ μ

/-- The candidate that is kept covers, after a step, what either candidate covered before. -/
theorem within_absorb (h : ToleranceSpace.build c τ f = .ok s) {μ : α} {a b : Candidate α}
    (ha : a.approximation.Faithful c μ) (hb : b.approximation.Faithful c μ) :
    a.approximation.Within (absorb s c μ a b).approximation ∧
      b.approximation.Within (absorb s c μ a b).approximation := by
  have happ : (absorb s c μ a b).approximation =
      c.approximate (a.approximation.terms ++ b.approximation.terms) μ :=
    ToleranceSpace.approximate_eq_approximate h _ μ
  rw [happ]
  constructor
  · have hleft : (c.approximate a.approximation.terms μ).Within
        (c.approximate (a.approximation.terms ++ b.approximation.terms) μ) :=
      c.within_approximate (fun t ht => List.mem_append_left _ ht) fun _ hx => hx
    rwa [← ha] at hleft
  · have hright : (c.approximate b.approximation.terms μ).Within
        (c.approximate (a.approximation.terms ++ b.approximation.terms) μ) :=
      c.within_approximate (fun t ht => List.mem_append_right _ ht) fun _ hx => hx
    rwa [← hb] at hright

/-! ## A run -/

/-- The candidates of some seeds are what their terms cover. -/
theorem faithful_ofSeeds (h : ToleranceSpace.build c τ f = .ok s) (seeds : List TermId) (μ : α) (minSize : Nat) :
    ∀ d ∈ Candidate.ofSeeds seeds (s.approximateSeeds c seeds μ) minSize, d.approximation.Faithful c μ := by
  intro d hd
  have hmem := (Candidate.perm_ofSeeds seeds (fun t => s.approximate c (s.classTerms t) μ) minSize).mem_iff.1
    (List.mem_map_of_mem (f := Candidate.content) hd)
  obtain ⟨t, -, ht⟩ := List.mem_map.1 hmem
  have happ : d.approximation = s.approximate c (s.classTerms t) μ := (Prod.mk.inj ht).2.symm
  rw [happ]
  exact faithful_approximate h _ μ

variable {rule : MergeRule α} {cs : List (Candidate α)} {history : List (MergeStep α)} {st : MergeState α}

theorem faithful_of_reaches (h : ToleranceSpace.build c τ f = .ok s)
    (hcs : ∀ d ∈ cs, d.approximation.Faithful c rule.minMembership) (hr : Reaches s c rule cs history st) :
    ∀ d ∈ st.candidates, d.approximation.Faithful c rule.minMembership :=
  forall_of_reaches hcs (fun a b _ _ => faithful_absorb h rule.minMembership a b) hr

/-- What a candidate that is left covers, the candidate that the next turn makes of it covers. -/
theorem within_survivor (h : ToleranceSpace.build c τ f = .ok s) (hids : cs.map Candidate.id = List.range cs.length)
    (hcs : ∀ d ∈ cs, d.approximation.Faithful c rule.minMembership) (hr : Reaches s c rule cs history st)
    {st' : MergeState α} {step : MergeStep α} (hn : st.next? s c rule = some (st', step)) {m survivor : Candidate α}
    (hm : m ∈ st.candidates) (hs : survivor ∈ st'.candidates) (hid : survivor.id = follow m.id step) :
    m.approximation.Within survivor.approximation := by
  have hrooted := rooted_of_reaches hids hr
  have hfaithful := faithful_of_reaches h hcs hr
  rw [hr.eq_start] at hn
  obtain ⟨i, j, a, b, hij, ha, hb, -, rfl, rfl⟩ := next?_start_some s c rule hn
  have hma := List.mem_of_getElem? ha
  have hmb := List.mem_of_getElem? hb
  obtain ⟨hleft, hright⟩ := within_absorb h (hfaithful a hma) (hfaithful b hmb)
  by_cases hmid : m.id = b.id
  · rw [follow, if_pos hmid] at hid
    rcases mem_set_eraseIdx hij hs with rfl | ⟨l, hli, -, hl⟩
    · -- the candidate was absorbed
      obtain rfl := eq_of_id_eq hids hr hm hmb hmid
      exact hright
    · exact absurd hid (hrooted.ne_of_getElem? hli hl ha)
  · rw [follow, if_neg hmid] at hid
    rcases mem_set_eraseIdx hij hs with rfl | ⟨l, -, -, hl⟩
    · -- the candidate absorbed the other one
      obtain rfl := eq_of_id_eq hids hr hma hm hid
      exact hleft
    · -- the turn left the candidate as it was
      obtain rfl := eq_of_id_eq hids hr (List.mem_of_getElem? hl) hm hid
      exact (hfaithful _ hm).within_self

/-- What a first candidate covers, the candidate that its chain of steps leads to covers. -/
theorem within_root (h : ToleranceSpace.build c τ f = .ok s) (hids : cs.map Candidate.id = List.range cs.length)
    (hcs : ∀ d ∈ cs, d.approximation.Faithful c rule.minMembership) (hr : Reaches s c rule cs history st) :
    ∀ d ∈ cs, ∃ m ∈ st.candidates, m.id = root history d.id ∧ d.approximation.Within m.approximation := by
  induction hr with
  | start =>
    intro d hd
    exact ⟨d, hd, rfl, (hcs d hd).within_self⟩
  | turn hr hn ih =>
    intro d hd
    obtain ⟨m, hm, hroot, hwithin⟩ := ih d hd
    obtain ⟨survivor, hs, hid⟩ := exists_survivor hids (Reaches.turn hr hn) hd
    have hfollow := hid
    rw [root_append, ← hroot] at hfollow
    exact ⟨survivor, hs, hid, hwithin.trans (within_survivor h hids hcs hr hn hm hs hfollow)⟩

/-- What a step keeps, given the steps before it: the candidate kept covers, after the step, all that it and the one
absorbed covered before. -/
def Agglomeration.StepGrows (s : ToleranceSpace α) (c : Corpus α) (rule : MergeRule α) (cs : List (Candidate α))
    (before : List (MergeStep α)) (step : MergeStep α) : Prop :=
  ∃ prior posterior, Reaches s c rule cs before prior ∧ Reaches s c rule cs (before ++ [step]) posterior ∧
    ∃ a ∈ prior.candidates, ∃ b ∈ prior.candidates, ∃ m ∈ posterior.candidates,
      a.id = step.kept ∧ b.id = step.absorbed ∧ m.id = step.kept ∧
      a.approximation.Within m.approximation ∧ b.approximation.Within m.approximation

/-- What merging keeps: each step the documents of both its candidates, and the whole run the documents of every first
candidate, with the candidate that its chain of steps leads to. -/
structure Agglomeration.NothingLost (s : ToleranceSpace α) (c : Corpus α) (rule : MergeRule α) (cs : List (Candidate α))
    (left : List (Candidate α)) (history : List (MergeStep α)) : Prop where
  steps : ∀ before step after, history = before ++ step :: after → StepGrows s c rule cs before step
  documents : ∀ d ∈ cs, ∃ m ∈ left, m.id = root history d.id ∧ d.approximation.Within m.approximation

theorem stepGrows_of_reaches (h : ToleranceSpace.build c τ f = .ok s)
    (hcs : ∀ d ∈ cs, d.approximation.Faithful c rule.minMembership) (hr : Reaches s c rule cs history st)
    {before after : List (MergeStep α)} {step : MergeStep α} (hsplit : history = before ++ step :: after) :
    StepGrows s c rule cs before step := by
  obtain ⟨prior, hp, a, ha, b, hb, -, rfl, posterior, hq, hm⟩ := step_of_reaches hr hsplit
  have hfaithful := faithful_of_reaches h hcs hp
  obtain ⟨hleft, hright⟩ := within_absorb h (hfaithful a ha) (hfaithful b hb)
  exact ⟨prior, posterior, hp, hq, a, ha, b, hb, _, hm, rfl, rfl, rfl, hleft, hright⟩

/-- Merging candidates that are what their terms cover, numbered in their order, loses nothing. -/
theorem nothingLost_merge (h : ToleranceSpace.build c τ f = .ok s) (hids : cs.map Candidate.id = List.range cs.length)
    (hcs : ∀ d ∈ cs, d.approximation.Faithful c rule.minMembership) :
    NothingLost s c rule cs (merge s c rule cs).1 (merge s c rule cs).2 := by
  obtain ⟨last, hr, hlast, -⟩ := reaches_merge s c rule cs
  rw [← hlast]
  exact ⟨fun before step after hsplit => stepGrows_of_reaches h hcs hr hsplit, within_root h hids hcs hr⟩

end Rounded

/-- Merging the candidates of some seeds over binary64 loses no document: after every step the candidate kept covers what
it and the one absorbed covered, with memberships no smaller, and what a first candidate covered is covered in the end by
the candidate that its chain of steps leads to. -/
theorem merging_loses_no_document {c : Corpus Float} {s : ToleranceSpace Float} {τ : Float} {f : Measure Float}
    (h : ToleranceSpace.build c τ f = .ok s) (rule : MergeRule Float) (seeds : List TermId) (minSize : Nat) :
    ∃ left history,
      mergeUnlessCancelled false s c rule
        (Candidate.ofSeeds seeds (s.approximateSeeds c seeds rule.minMembership) minSize) = .ok (left, history) ∧
      NothingLost s c rule (Candidate.ofSeeds seeds (s.approximateSeeds c seeds rule.minMembership) minSize)
        left history :=
  ⟨_, _, rfl, nothingLost_merge h (Candidate.ids_ofSeeds _ _ _) (faithful_ofSeeds h seeds rule.minMembership minSize)⟩

/-- The two terms of the two documents are no tolerant pair, but the documents that they cover are close enough. -/
theorem merging_two_seeds_loses_no_document :
    ∃ s, ToleranceSpace.build twoDocuments 0.75 Similarity.jaccard.measure = .ok s ∧ ∃ left history,
      mergeUnlessCancelled false s twoDocuments halfRule
        (Candidate.ofSeeds [0, 1] (s.approximateSeeds twoDocuments [0, 1] halfRule.minMembership) 1) =
        .ok (left, history) ∧
      NothingLost s twoDocuments halfRule
        (Candidate.ofSeeds [0, 1] (s.approximateSeeds twoDocuments [0, 1] halfRule.minMembership) 1) left history ∧
      history.length = 1 := by
  have hτ : Scalar.withinAbove 0 1 (0.75 : Float) = true := by decide +kernel
  obtain ⟨s, hs⟩ := ToleranceSpace.exists_build twoDocuments hτ Similarity.jaccard.measure
  obtain ⟨left, history, hmerge, hkept⟩ := merging_loses_no_document hs halfRule [0, 1] 1
  refine ⟨s, hs, left, history, hmerge, hkept, ?_⟩
  have hlen : (ToleranceSpace.build twoDocuments 0.75 Similarity.jaccard.measure).toOption.map (fun s =>
      (merge s twoDocuments halfRule
        (Candidate.ofSeeds [0, 1] (s.approximateSeeds twoDocuments [0, 1] halfRule.minMembership) 1)).2.length) =
      some 1 := by decide +kernel
  rw [hs] at hlen
  obtain ⟨-, rfl⟩ := Prod.mk.inj (Except.ok.inj hmerge)
  exact Option.some.inj hlen

end ToleranceClustering
