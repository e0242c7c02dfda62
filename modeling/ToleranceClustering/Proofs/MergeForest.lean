import ToleranceClustering.Proofs.MergeLoop

/-!
# The forest of a merge history

A history of merges says where every first candidate went: `root` follows it through the steps. The steps form a forest
over the first numbers (`IsForest`), the candidates that are left are those never absorbed (`standing`), and each of them
holds the seeds and the terms of exactly the first candidates that lead to it (`gather`).
-/

namespace ToleranceClustering

namespace MergeHistory

variable {α : Type}

/-- Where the candidate at `i` is after a step: with the one that was kept, if it was the one absorbed. -/
def follow (i : Nat) (step : MergeStep α) : Nat := if i = step.absorbed then step.kept else i

/-- The candidate that a first candidate is part of after some steps. -/
def root (history : List (MergeStep α)) (i : Nat) : Nat := history.foldl follow i

/-- The first numbers below `k` of which no step says that they were absorbed. -/
def standing (k : Nat) (history : List (MergeStep α)) : List Nat :=
  (List.range k).filter fun i => !(history.map MergeStep.absorbed).contains i

/-- The steps join the numbers below `k` to a forest: each hangs a number under a smaller one, and a number that was hung
is in no later step. -/
structure IsForest (k : Nat) (history : List (MergeStep α)) : Prop where
  ordered : ∀ step ∈ history, step.kept < step.absorbed ∧ step.absorbed < k
  once : history.Pairwise fun earlier later => earlier.absorbed ≠ later.kept ∧ earlier.absorbed ≠ later.absorbed

/-- The first candidates that lead to the candidate `r`. -/
def tree (cs : List (Candidate α)) (history : List (MergeStep α)) (r : Nat) : List (Candidate α) :=
  cs.filter fun d => root history d.id = r

/-- All that the first candidates leading to `r` hold in the field `f`, ascending. -/
def gather (f : Candidate α → List Nat) (cs : List (Candidate α)) (history : List (MergeStep α)) (r : Nat) : List Nat :=
  Ascending.ofList ((tree cs history r).flatMap f)

theorem root_append (history : List (MergeStep α)) (step : MergeStep α) (i : Nat) :
    root (history ++ [step]) i = follow (root history i) step := by
  rw [root, List.foldl_append]
  rfl

theorem mem_gather {f : Candidate α → List Nat} {cs : List (Candidate α)} {history : List (MergeStep α)} {r u : Nat} :
    u ∈ gather f cs history r ↔ ∃ d ∈ cs, root history d.id = r ∧ u ∈ f d := by
  simp only [gather, tree, Ascending.mem_ofList, List.mem_flatMap, List.mem_filter, decide_eq_true_eq]
  constructor
  · rintro ⟨d, ⟨hd, hr⟩, hu⟩
    exact ⟨d, hd, hr, hu⟩
  · rintro ⟨d, hd, hr, hu⟩
    exact ⟨d, ⟨hd, hr⟩, hu⟩

/-- After a step the candidate kept holds what it and the one absorbed held. -/
theorem mem_gather_kept {f : Candidate α → List Nat} {cs : List (Candidate α)} {history : List (MergeStep α)}
    {step : MergeStep α} (h : step.kept ≠ step.absorbed) {u : Nat} :
    u ∈ gather f cs (history ++ [step]) step.kept ↔
      u ∈ gather f cs history step.kept ∨ u ∈ gather f cs history step.absorbed := by
  simp only [mem_gather, root_append, follow]
  constructor
  · rintro ⟨e, he, hroot, hu⟩
    split at hroot
    · rename_i heb
      exact Or.inr ⟨e, he, heb, hu⟩
    · exact Or.inl ⟨e, he, hroot, hu⟩
  · rintro (⟨e, he, hea, hu⟩ | ⟨e, he, heb, hu⟩)
    · refine ⟨e, he, ?_, hu⟩
      rw [hea, if_neg h]
    · refine ⟨e, he, ?_, hu⟩
      rw [heb, if_pos rfl]

/-- After a step every other candidate holds what it held. -/
theorem mem_gather_other {f : Candidate α → List Nat} {cs : List (Candidate α)} {history : List (MergeStep α)}
    {step : MergeStep α} {r : Nat} (hk : r ≠ step.kept) (hab : r ≠ step.absorbed) {u : Nat} :
    u ∈ gather f cs (history ++ [step]) r ↔ u ∈ gather f cs history r := by
  simp only [mem_gather, root_append, follow]
  refine exists_congr fun e => and_congr_right fun _ => and_congr_left fun _ => ?_
  split
  · rename_i heb
    rw [heb]
    exact iff_of_false (Ne.symm hk) (Ne.symm hab)
  · rfl

theorem mem_standing {k : Nat} {history : List (MergeStep α)} {i : Nat} :
    i ∈ standing k history ↔ i < k ∧ ∀ step ∈ history, step.absorbed ≠ i := by
  simp [standing]

theorem ascending_standing (k : Nat) (history : List (MergeStep α)) : Ascending (standing k history) :=
  (Ascending.ascending_range k).filter _

/-- One more step takes the absorbed number away. -/
theorem standing_append (k : Nat) (history : List (MergeStep α)) (step : MergeStep α) :
    standing k (history ++ [step]) = (standing k history).filter (· != step.absorbed) := by
  simp only [standing, List.filter_filter, List.map_append, List.map_cons, List.map_nil]
  refine List.filter_congr ?_
  intro i _
  rw [Bool.eq_iff_iff]
  simp only [Bool.not_eq_true', Bool.and_eq_true, bne_iff_ne, List.contains_iff_mem, ← Bool.not_eq_true,
    List.mem_append, List.mem_singleton, not_or]
  exact and_comm

/-! ## What a turn does to the places -/

/-- The candidates after a merge: the new one, and all but the two that were merged. -/
theorem mem_set_eraseIdx {cs : List (Candidate α)} {i j : Nat} (hij : i < j) {m d : Candidate α}
    (h : d ∈ (cs.eraseIdx j).set i m) : d = m ∨ ∃ l, l ≠ i ∧ l ≠ j ∧ cs[l]? = some d := by
  obtain ⟨n, hn⟩ := List.mem_iff_getElem?.1 h
  by_cases hni : n = i
  · subst hni
    rw [List.getElem?_set_self'] at hn
    obtain ⟨x, -, hx⟩ := Option.map_eq_some_iff.1 hn
    exact Or.inl hx.symm
  · rw [List.getElem?_set_ne (Ne.symm hni), OverlapTable.getElem?_eraseIdx_eq] at hn
    refine Or.inr ⟨_, ?_, ?_, hn⟩
    · unfold OverlapTable.skip
      split <;> omega
    · unfold OverlapTable.skip
      split <;> omega

/-- The numbers after a merge: the number of the absorbed candidate is gone. -/
theorem ids_set_eraseIdx {cs : List (Candidate α)} {i j : Nat} (hij : i < j) {m a : Candidate α}
    (ha : cs[i]? = some a) (hm : m.id = a.id) :
    ((cs.eraseIdx j).set i m).map Candidate.id = (cs.map Candidate.id).eraseIdx j := by
  apply List.ext_getElem?
  intro n
  rw [List.getElem?_map, OverlapTable.getElem?_eraseIdx_eq, List.getElem?_map]
  by_cases hn : n = i
  · subst hn
    have hs : OverlapTable.skip j n = n := if_pos hij
    rw [List.getElem?_set_self', OverlapTable.getElem?_eraseIdx_eq, hs, ha]
    exact congrArg some hm
  · rw [List.getElem?_set_ne (Ne.symm hn), OverlapTable.getElem?_eraseIdx_eq]

/-- Erasing the place of an element from an ascending list filters it out. -/
theorem eraseIdx_eq_filter {xs : List Nat} (h : Ascending xs) {j x : Nat} (hx : xs[j]? = some x) :
    xs.eraseIdx j = xs.filter (· != x) := by
  obtain ⟨hj, rfl⟩ := List.getElem?_eq_some_iff.1 hx
  rw [← h.nodup.erase_eq_filter, ← h.nodup.erase_getElem j hj]

/-! ## The candidates that are left -/

variable {cs : List (Candidate α)} {history : List (MergeStep α)}

/-- What holds of the candidates that are left after some merges of candidates numbered in their order. -/
structure Rooted (cs : List (Candidate α)) (history : List (MergeStep α)) (live : List (Candidate α)) : Prop where
  ids : live.map Candidate.id = standing cs.length history
  forest : IsForest cs.length history
  roots : ∀ i < cs.length, root history i ∈ standing cs.length history

/-- Before the first merge every candidate is its own root. -/
theorem rooted_nil (hids : cs.map Candidate.id = List.range cs.length) : Rooted cs [] cs where
  ids := by simp [hids, standing]
  forest := ⟨by simp, List.Pairwise.nil⟩
  roots := by
    intro i hi
    rw [mem_standing]
    exact ⟨hi, by simp⟩

/-- Before the first step a candidate holds what it holds itself. -/
theorem mem_gather_nil {f : Candidate α → List Nat} (hids : cs.map Candidate.id = List.range cs.length) {d : Candidate α}
    (hd : d ∈ cs) {u : Nat} : u ∈ gather f cs [] d.id ↔ u ∈ f d := by
  have hnodup : (cs.map Candidate.id).Nodup := hids ▸ List.nodup_range
  rw [mem_gather]
  constructor
  · rintro ⟨e, he, hed, hu⟩
    rw [List.inj_on_of_nodup_map hnodup he hd hed] at hu
    exact hu
  · intro hu
    exact ⟨d, hd, rfl, hu⟩

/-- Two places of an ascending list of numbers have ascending numbers. -/
theorem Rooted.lt_of_getElem? {live : List (Candidate α)} (h : Rooted cs history live) {i j : Nat} {a b : Candidate α}
    (hij : i < j) (ha : live[i]? = some a) (hb : live[j]? = some b) : a.id < b.id := by
  have hasc := ascending_standing cs.length history
  rw [← h.ids, Ascending, List.pairwise_map, List.pairwise_iff_getElem] at hasc
  obtain ⟨hi, rfl⟩ := List.getElem?_eq_some_iff.1 ha
  obtain ⟨hj, rfl⟩ := List.getElem?_eq_some_iff.1 hb
  exact hasc i j hi hj hij

/-- Two different places have different numbers. -/
theorem Rooted.ne_of_getElem? {live : List (Candidate α)} (h : Rooted cs history live) {i j : Nat} {a b : Candidate α}
    (hij : i ≠ j) (ha : live[i]? = some a) (hb : live[j]? = some b) : a.id ≠ b.id := by
  rcases Nat.lt_or_gt_of_ne hij with hlt | hgt
  · exact Nat.ne_of_lt (h.lt_of_getElem? hlt ha hb)
  · exact Nat.ne_of_gt (h.lt_of_getElem? hgt hb ha)

theorem Rooted.mem_standing_of_getElem? {live : List (Candidate α)} (h : Rooted cs history live) {i : Nat}
    {a : Candidate α} (ha : live[i]? = some a) : a.id ∈ standing cs.length history := by
  rw [← h.ids]
  exact List.mem_map_of_mem (List.mem_of_getElem? ha)

/-- Merging two of the candidates that are left keeps the forest. -/
theorem Rooted.merge {live : List (Candidate α)} (h : Rooted cs history live) {i j : Nat} {a b m : Candidate α}
    (hij : i < j) (ha : live[i]? = some a) (hb : live[j]? = some b) (hm : m.id = a.id) {step : MergeStep α}
    (hk : step.kept = a.id) (hab : step.absorbed = b.id) :
    Rooted cs (history ++ [step]) ((live.eraseIdx j).set i m) := by
  have hlt := h.lt_of_getElem? hij ha hb
  have hsa := h.mem_standing_of_getElem? ha
  have hsb := h.mem_standing_of_getElem? hb
  refine ⟨?_, ⟨?_, ?_⟩, ?_⟩
  · have hbj : (live.map Candidate.id)[j]? = some b.id := by rw [List.getElem?_map, hb, Option.map_some]
    rw [ids_set_eraseIdx hij ha hm, standing_append, hab, h.ids]
    rw [h.ids] at hbj
    exact eraseIdx_eq_filter (ascending_standing _ _) hbj
  · intro x hx
    rcases List.mem_append.1 hx with hx | hx
    · exact h.forest.ordered x hx
    · rw [List.mem_singleton] at hx
      subst hx
      rw [hk, hab]
      exact ⟨hlt, (mem_standing.1 hsb).1⟩
  · rw [List.pairwise_append]
    refine ⟨h.forest.once, List.pairwise_singleton _ _, ?_⟩
    intro x hx y hy
    rw [List.mem_singleton] at hy
    subst hy
    rw [hk, hab]
    exact ⟨(mem_standing.1 hsa).2 x hx, (mem_standing.1 hsb).2 x hx⟩
  · intro x hx
    have hr := h.roots x hx
    rw [root_append, standing_append, List.mem_filter, follow, hab, bne_iff_ne]
    split
    · rw [hk]
      exact ⟨hsa, Nat.ne_of_lt hlt⟩
    · rename_i hne
      exact ⟨hr, hne⟩

end MergeHistory

namespace Agglomeration

open MergeState MergeHistory

variable {α : Type} [Scalar α] {s : ToleranceSpace α} {c : Corpus α} {rule : MergeRule α}
variable {cs : List (Candidate α)} {history : List (MergeStep α)} {st : MergeState α}

/-- Every state that the loop reaches from candidates numbered in their order is rooted in them. -/
theorem rooted_of_reaches (hids : cs.map Candidate.id = List.range cs.length) (hr : Reaches s c rule cs history st) :
    Rooted cs history st.candidates := by
  induction hr with
  | start => exact rooted_nil hids
  | turn hr hn ih =>
    rw [hr.eq_start] at hn
    obtain ⟨i, j, a, b, hij, ha, hb, -, rfl, rfl⟩ := next?_start_some s c rule hn
    exact ih.merge hij ha hb (by rfl) (by rfl) (by rfl)

/-- What holds of all first candidates and of a merged one when it holds of both parts, holds of all candidates that are
left. -/
theorem forall_of_reaches {P : Candidate α → Prop} (h₀ : ∀ d ∈ cs, P d)
    (hm : ∀ a b, P a → P b → P (absorb s c rule.minMembership a b)) (hr : Reaches s c rule cs history st) :
    ∀ d ∈ st.candidates, P d := by
  induction hr with
  | start => exact h₀
  | turn hr hn ih =>
    rw [hr.eq_start] at hn
    obtain ⟨i, j, a, b, hij, ha, hb, -, rfl, rfl⟩ := next?_start_some s c rule hn
    intro d hd
    rcases mem_set_eraseIdx hij hd with rfl | ⟨l, -, -, hl⟩
    · exact hm a b (ih a (List.mem_of_getElem? ha)) (ih b (List.mem_of_getElem? hb))
    · exact ih d (List.mem_of_getElem? hl)

/-- What the candidates that are left hold in a field that a merge joins, the first candidates of their trees hold. -/
theorem mem_gather_of_reaches {f : Candidate α → List Nat}
    (hf : ∀ a b, f (absorb s c rule.minMembership a b) = Ascending.ofList (f a ++ f b))
    (hids : cs.map Candidate.id = List.range cs.length) (hr : Reaches s c rule cs history st) :
    ∀ d ∈ st.candidates, ∀ u, u ∈ f d ↔ u ∈ gather f cs history d.id := by
  induction hr with
  | start =>
    intro d hd u
    exact (mem_gather_nil hids hd).symm
  | turn hr hn ih =>
    have hrooted := rooted_of_reaches hids hr
    rw [hr.eq_start] at hn
    obtain ⟨i, j, a, b, hij, ha, hb, -, rfl, rfl⟩ := next?_start_some s c rule hn
    intro d hd u
    rcases mem_set_eraseIdx hij hd with rfl | ⟨l, hli, hlj, hl⟩
    · -- the merged candidate: its tree is the two trees together
      have hne : a.id ≠ b.id := Nat.ne_of_lt (hrooted.lt_of_getElem? hij ha hb)
      rw [hf, Ascending.mem_ofList, List.mem_append, ih a (List.mem_of_getElem? ha), ih b (List.mem_of_getElem? hb)]
      symm
      exact mem_gather_kept hne
    · -- any other candidate keeps its tree
      rw [ih d (List.mem_of_getElem? hl)]
      symm
      exact mem_gather_other (hrooted.ne_of_getElem? hli hl ha) (hrooted.ne_of_getElem? hlj hl hb)

/-- A field that a merge joins holds, in every candidate that is left, what the first candidates of its tree hold. -/
theorem eq_gather_of_reaches {f : Candidate α → List Nat}
    (hf : ∀ a b, f (absorb s c rule.minMembership a b) = Ascending.ofList (f a ++ f b))
    (hids : cs.map Candidate.id = List.range cs.length) (hasc : ∀ d ∈ cs, Ascending (f d))
    (hr : Reaches s c rule cs history st) :
    ∀ d ∈ st.candidates, f d = gather f cs history d.id := by
  have hall : ∀ d ∈ st.candidates, Ascending (f d) :=
    forall_of_reaches hasc (fun a b _ _ => (hf a b).symm ▸ Ascending.ascending_ofList _) hr
  intro d hd
  -- both sides are ascending, so only their elements matter
  exact Ascending.ext (hall d hd) (Ascending.ascending_ofList _) (mem_gather_of_reaches hf hids hr d hd)

/-- Every first candidate is part of exactly one candidate that is left. -/
theorem exists_survivor (hids : cs.map Candidate.id = List.range cs.length) (hr : Reaches s c rule cs history st)
    {d : Candidate α} (hd : d ∈ cs) : ∃ a ∈ st.candidates, a.id = root history d.id := by
  have hrooted := rooted_of_reaches hids hr
  have hlt : d.id < cs.length := by
    rw [← List.mem_range, ← hids]
    exact List.mem_map_of_mem hd
  have hmem := hrooted.roots d.id hlt
  rw [← hrooted.ids] at hmem
  exact List.mem_map.1 hmem

/-- What a joined field of the candidates that are left holds, some first candidate held, and the other way round. -/
theorem exists_mem_survivor {f : Candidate α → List Nat}
    (hf : ∀ a b, f (absorb s c rule.minMembership a b) = Ascending.ofList (f a ++ f b))
    (hids : cs.map Candidate.id = List.range cs.length) (hr : Reaches s c rule cs history st) (u : Nat) :
    (∃ a ∈ st.candidates, u ∈ f a) ↔ ∃ d ∈ cs, u ∈ f d := by
  have hgather := mem_gather_of_reaches hf hids hr
  constructor
  · rintro ⟨a, ha, hu⟩
    rw [hgather a ha] at hu
    obtain ⟨d, hd, -, hud⟩ := mem_gather.1 hu
    exact ⟨d, hd, hud⟩
  · rintro ⟨d, hd, hu⟩
    obtain ⟨a, ha, hroot⟩ := exists_survivor hids hr hd
    refine ⟨a, ha, ?_⟩
    rw [hgather a ha]
    exact mem_gather.2 ⟨d, hd, hroot.symm, hu⟩

/-- What two candidates that are left share in a joined field, two first candidates shared. -/
theorem shared_of_survivors {f : Candidate α → List Nat}
    (hf : ∀ a b, f (absorb s c rule.minMembership a b) = Ascending.ofList (f a ++ f b))
    (hids : cs.map Candidate.id = List.range cs.length) (hr : Reaches s c rule cs history st) :
    st.candidates.Pairwise fun a b => ∀ u, u ∈ f a → u ∈ f b →
      ∃ d ∈ cs, ∃ e ∈ cs, d.id ≠ e.id ∧ u ∈ f d ∧ u ∈ f e := by
  have hgather := mem_gather_of_reaches hf hids hr
  have hnodup : (st.candidates.map Candidate.id).Nodup := by
    rw [(rooted_of_reaches hids hr).ids]
    exact (ascending_standing _ _).nodup
  refine List.Pairwise.imp_of_mem (fun {a b} ha hb hne u hua hub => ?_) (List.pairwise_map.1 hnodup)
  rw [hgather a ha] at hua
  rw [hgather b hb] at hub
  obtain ⟨d, hd, hda, hud⟩ := mem_gather.1 hua
  obtain ⟨e, he, heb, hue⟩ := mem_gather.1 hub
  refine ⟨d, hd, e, he, fun hde => hne ?_, hud, hue⟩
  rw [← hda, ← heb, hde]

/-- Every step of a history was a turn of the loop: it joined two overlapping candidates of the state before it, and its
numbers, overlap and size are theirs. -/
theorem step_of_reaches (hr : Reaches s c rule cs history st) {before after : List (MergeStep α)} {step : MergeStep α}
    (h : history = before ++ step :: after) :
    ∃ prior, Reaches s c rule cs before prior ∧ ∃ a ∈ prior.candidates, ∃ b ∈ prior.candidates,
      ¬a.approximation.overlap b.approximation < rule.threshold ∧
      step = ⟨a.id, b.id, a.approximation.overlap b.approximation, (absorb s c rule.minMembership a b).size⟩ ∧
      ∃ posterior, Reaches s c rule cs (before ++ [step]) posterior ∧
        absorb s c rule.minMembership a b ∈ posterior.candidates := by
  induction hr generalizing after with
  | start => simp at h
  | @turn history' prior posterior last hr hn ih =>
    rcases List.eq_nil_or_concat after with rfl | ⟨after', x, rfl⟩
    · obtain ⟨rfl, hlast⟩ := List.append_inj' h rfl
      obtain rfl := (List.cons.inj hlast).1
      have hturn := Reaches.turn hr hn
      rw [hr.eq_start] at hn
      obtain ⟨i, j, a, b, hij, ha, hb, hθ, rfl, rfl⟩ := next?_start_some s c rule hn
      refine ⟨prior, hr, a, List.mem_of_getElem? ha, b, List.mem_of_getElem? hb, hθ, rfl, _, hturn, ?_⟩
      have hi : i < (prior.candidates.eraseIdx j).length := by
        have hj := (List.getElem?_eq_some_iff.1 hb).1
        rw [List.length_eraseIdx_of_lt hj]
        omega
      exact List.mem_of_getElem? (List.getElem?_set_self hi)
    · rw [List.concat_eq_append, ← List.cons_append, ← List.append_assoc] at h
      exact ih (List.append_inj' h rfl).1

end Agglomeration

end ToleranceClustering
