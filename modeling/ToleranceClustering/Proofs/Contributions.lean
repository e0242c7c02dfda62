import ToleranceClustering.Labeling
import ToleranceClustering.Proofs.Extraction

/-!
# Contributions

What a term contributes to a topic is the sum of its shares of the topic's documents, in their order (`contributionOf`).
The labeler goes through the documents one after the other and adds the shares of all terms up in a table. It finds the
same (`find?_contributions`): what is positive in the table are the contributors of the topic, each with what it
contributes (`positive_contributions`).
-/

namespace ToleranceClustering

variable {α : Type} [Scalar α]

/-- The entries of a vector at a term: one if it has a weight. -/
theorem TermVector.filter_entries (v : TermVector α) (t : TermId) :
    (v.entries.filter fun e => e.1 = t) = ((v.weight? t).map fun w => (t, w)).toList := by
  cases h : v.weight? t with
  | none =>
    refine List.filter_eq_nil_iff.2 ?_
    intro e he hkey
    rw [← of_decide_eq_true hkey] at h
    exact absurd ((v.weights.find?_of_mem he).symm.trans h) nofun
  | some w => exact filter_key_eq_singleton v.weights.ascending.nodup (v.mem_entries.2 h)

namespace Labeler

/-- The share of a document's weight that lies on a term. -/
def share? (v : TermVector α) (t : TermId) : Option α :=
  if v.total ≤ 0 then none else (v.weight? t).map (· / v.total)

/-- What a term contributes to a topic: its shares of the topic's documents, added up in their order. -/
def contributionOf (topic : Topic α) (c : Corpus α) (t : TermId) : α :=
  (topic.positions.filterMap fun pos => share? (c.vector pos) t).foldl (· + ·) 0

/-- The terms that contribute to a topic, ascending: those that may describe it and contribute something. -/
def contributors (topic : Topic α) (c : Corpus α) : List TermId :=
  c.vocabulary.filter fun t => admits topic t && decide (0 < contributionOf topic c t)

omit [Scalar α] in
/-- A topic with terms admits just these. -/
theorem admits_of_ne_nil {topic : Topic α} (h : topic.terms ≠ []) (t : TermId) :
    admits topic t = topic.terms.contains t := by
  rw [admits, List.isEmpty_eq_false_iff.2 h, Bool.false_or]

/-! ## Shares -/

/-- The shares of a document's weight that lie on the terms a topic admits. -/
def shares (topic : Topic α) (v : TermVector α) : List (TermId × α) :=
  if v.total ≤ 0 then [] else (v.entries.filter fun e => admits topic e.1).map fun e => (e.1, e.2 / v.total)

/-- The shares of the documents of a topic, one document after the other. -/
def allShares (topic : Topic α) (c : Corpus α) : List (TermId × α) :=
  topic.positions.flatMap fun pos => shares topic (c.vector pos)

theorem credit_eq (topic : Topic α) (acc : Table α) (v : TermVector α) :
    credit topic acc v = (shares topic v).foldl TermVector.accumulate acc := by
  unfold credit shares
  split
  · rfl
  · rw [List.foldl_map]

/-- Crediting one document after the other adds up all their shares. -/
theorem contributions_eq (topic : Topic α) (c : Corpus α) :
    contributions topic c = (allShares topic c).foldl TermVector.accumulate Table.empty := by
  have hcredit : credit topic = fun (acc : Table α) v => (shares topic v).foldl TermVector.accumulate acc :=
    funext fun acc => funext fun v => credit_eq topic acc v
  rw [contributions, allShares, List.foldl_map, List.foldl_flatMap, hcredit]

/-- Among the shares of a document, a term that the topic admits has its own. -/
theorem filter_shares (topic : Topic α) (v : TermVector α) (t : TermId) :
    ((shares topic v).filter fun p => p.1 = t).map Prod.snd =
      if admits topic t then (share? v t).toList else [] := by
  unfold shares share?
  by_cases htotal : v.total ≤ 0
  · simp [htotal]
  · have hswap : (((v.entries.filter fun e => admits topic e.1).map fun e => (e.1, e.2 / v.total)).filter
        fun p => p.1 = t) =
        ((v.entries.filter fun e => e.1 = t).filter fun e => admits topic e.1).map fun e => (e.1, e.2 / v.total) := by
      rw [List.filter_map, List.filter_filter, List.filter_filter]
      simp only [Function.comp_def, Bool.and_comm]
    rw [if_neg htotal, if_neg htotal, hswap, v.filter_entries]
    cases v.weight? t with
    | none => simp
    | some w => by_cases hadmits : admits topic t = true <;> simp [hadmits]

theorem filter_allShares (topic : Topic α) (c : Corpus α) (t : TermId) :
    ((allShares topic c).filter fun p => p.1 = t).map Prod.snd =
      if admits topic t then topic.positions.filterMap fun pos => share? (c.vector pos) t else [] := by
  rw [allShares, List.filter_flatMap, List.map_flatMap, List.filterMap_eq_flatMap_toList]
  simp only [filter_shares]
  split
  · rfl
  · simp

/-! ## The table of contributions -/

/-- The table holds, for each admitted term with a share of some document, what it contributes. -/
theorem find?_contributions (topic : Topic α) (c : Corpus α) (t : TermId) :
    (contributions topic c).find? t =
      if admits topic t = true ∧ (topic.positions.filterMap fun pos => share? (c.vector pos) t) ≠ [] then
        some (contributionOf topic c t) else none := by
  rw [contributions_eq, TermVector.find?_foldl_accumulate, filter_allShares]
  by_cases hadmits : admits topic t = true
  · rw [if_pos hadmits]
    split
    · rename_i hnil
      rw [if_neg (fun h => h.2 hnil)]
      rfl
    · rename_i hne
      rw [if_pos ⟨hadmits, hne⟩]
      rfl
  · rw [if_neg hadmits, if_neg fun h => hadmits h.1]
    rfl

/-- A term with a share of a document is one of its terms. -/
theorem contains_of_share? {v : TermVector α} {t : TermId} {x : α} (h : share? v t = some x) :
    v.contains t = true := by
  unfold share? at h
  split at h
  · nomatch h
  · obtain ⟨w, hw, -⟩ := Option.map_eq_some_iff.1 h
    exact Option.isSome_of_eq_some hw

/-- A term of the table is admitted, and in a document of the topic. -/
theorem exists_of_mem_keys {topic : Topic α} {c : Corpus α} {t : TermId} (h : t ∈ (contributions topic c).keys) :
    admits topic t = true ∧ ∃ pos ∈ topic.positions, (c.vector pos).contains t = true := by
  rw [← Table.isSome_find?_iff, find?_contributions] at h
  split at h
  · rename_i hshares
    obtain ⟨x, hx⟩ := List.exists_mem_of_ne_nil _ hshares.2
    obtain ⟨pos, hpos, hx⟩ := List.mem_filterMap.1 hx
    exact ⟨hshares.1, pos, hpos, contains_of_share? hx⟩
  · nomatch h

/-- Only terms of the corpus contribute to a topic. -/
theorem mem_vocabulary_of_contribution {topic : Topic α} {c : Corpus α} {t : TermId}
    (h : t ∈ (contributions topic c).keys) : t ∈ c.vocabulary := by
  obtain ⟨-, pos, -, hcontains⟩ := exists_of_mem_keys h
  exact c.mem_vocabulary.2 ⟨pos, c.lt_size_of_contains hcontains, hcontains⟩

theorem mem_contributors {topic : Topic α} {c : Corpus α} {t : TermId} :
    t ∈ contributors topic c ↔ t ∈ c.vocabulary ∧ admits topic t = true ∧ 0 < contributionOf topic c t := by
  rw [contributors, List.mem_filter, Bool.and_eq_true, decide_eq_true_iff]

/-- What is positive in the table are the contributors, each with what it contributes. -/
theorem positive_contributions [Scalar.Ordered α] (topic : Topic α) (c : Corpus α) :
    ((contributions topic c).entries.filter fun e => decide (0 < e.2)) =
      (contributors topic c).map fun t => (t, contributionOf topic c t) := by
  have hentry : ∀ {t x}, (t, x) ∈ (contributions topic c).entries ∧ 0 < x ↔
      t ∈ contributors topic c ∧ x = contributionOf topic c t := by
    intro t x
    rw [Table.mem_entries, mem_contributors]
    constructor
    · rintro ⟨hfind, hpos⟩
      have hkey := (Table.isSome_find?_iff _ _).1 (Option.isSome_of_eq_some hfind)
      rw [find?_contributions] at hfind
      split at hfind
      · rename_i hshares
        obtain rfl := Option.some.inj hfind
        exact ⟨⟨mem_vocabulary_of_contribution hkey, hshares.1, hpos⟩, rfl⟩
      · nomatch hfind
    · rintro ⟨⟨-, hadmits, hpos⟩, rfl⟩
      refine ⟨?_, hpos⟩
      rw [find?_contributions, if_pos]
      refine ⟨hadmits, ?_⟩
      -- without a share nothing is contributed
      intro hnil
      rw [contributionOf, hnil] at hpos
      exact Scalar.Ordered.lt_irrefl 0 hpos
  have hkeys : (((contributions topic c).entries.filter fun e => decide (0 < e.2)).map Prod.fst) =
      contributors topic c := by
    refine Ascending.ext ?_ (c.ascending_vocabulary.filter _) ?_
    · exact List.Pairwise.sublist (List.Sublist.map _ List.filter_sublist) (contributions topic c).ascending
    · intro t
      rw [List.mem_map]
      constructor
      · rintro ⟨⟨u, x⟩, he, rfl⟩
        obtain ⟨he, hpos⟩ := List.mem_filter.1 he
        exact (hentry.1 ⟨he, of_decide_eq_true hpos⟩).1
      · intro ht
        obtain ⟨he, hpos⟩ := hentry.2 ⟨ht, rfl⟩
        exact ⟨_, List.mem_filter.2 ⟨he, decide_eq_true hpos⟩, rfl⟩
  rw [← hkeys, List.map_map]
  refine (List.map_id _).symm.trans (List.map_congr_left ?_)
  rintro ⟨t, x⟩ he
  obtain ⟨he, hpos⟩ := List.mem_filter.1 he
  obtain ⟨-, rfl⟩ := hentry.1 ⟨he, of_decide_eq_true hpos⟩
  rfl

end Labeler
end ToleranceClustering
