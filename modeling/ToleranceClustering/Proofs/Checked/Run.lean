import ToleranceClustering.Proofs.Checked.Agglomeration
import ToleranceClustering.Proofs.Checked.Extraction
import ToleranceClustering.Proofs.Checked.Space
import ToleranceClustering.Proofs.MergeForest
import ToleranceClustering.Proofs.RelationSize
import ToleranceClustering.Proofs.Rerun

/-!
# A checked run

A whole run with lookups that may miss: the ids and the vectors of the documents of a topic are looked up at their positions,
as are the marks of the documents that topics cover. The candidates that are left cover positions of the corpus, since each
was approximated in its space (`Checked.lt_size_of_merge`).

Main statement: `Checked.accepted_run_misses_nothing`. A run under accepted settings finds everything it looks up, and ends
well exactly if there is room for the relation of its terms. There is not for the 92,683 terms of one document
(`Checked.numerals_find_no_room`), and always is for fewer.
-/

namespace ToleranceClustering

namespace Checked

variable {α : Type} [Scalar α]

/-! ## Labels -/

/-- The ways to label a topic: by the contributions of its terms, or by a function that returns, with whatever numbers. -/
inductive Labels (α : Type) [Scalar α] where
  | byCohesion
  | ofFunction (choose : Labeler α)

/-- The labeler that runs. -/
def Labels.labeler : Labels α → Labeler α
  | byCohesion => Labeler.byCohesion
  | ofFunction choose => Labeler.ofFunction choose

/-- The label terms of a topic. -/
def label (labels : Labels α) (topic : Topic α) (c : Corpus α) (lex : Lexicon) (limit : Nat) : Option (List TermId) :=
  match labels with
  | .byCohesion => Labeler.byCohesion? topic c lex limit
  | .ofFunction choose => some ((choose topic c lex limit).take limit)

/-- The topic with its labels. -/
def labelTopic (labels : Labels α) (c : Corpus α) (lex : Lexicon) (limit : Nat) (t : Topic α) : Option (Topic α) := do
  let chosen ← label labels t c lex limit
  let labelled := { t with labels := chosen }
  return { labelled with label := ", ".intercalate (labelled.labelTerms lex) }

/-! ## Topics -/

/-- A document at its position, with its id. -/
def memberAt (c : Corpus α) (m : Position × α) : Option (Member α) := do
  let doc ← c.documents[m.1]?
  return ⟨doc.id, m.1, m.2⟩

/-- The topic of a ranked candidate, not yet labelled. -/
def topicOf (c : Corpus α) (ranked : Candidate α × Score α) : Option (Topic α) := do
  let members ← ranked.1.approximation.members.mapM (memberAt c)
  return {
    members
    seeds := ranked.1.seeds
    terms := ranked.1.approximation.terms
    cohesion := ranked.2.cohesion
    score := ranked.2.score
    labels := []
    label := "" }

/-- A mark for every document, set where a topic covers it. -/
def markCovered (c : Corpus α) (topics : List (Topic α)) : Option (Array Bool) :=
  (topics.flatMap Topic.positions).foldlM (fun marks pos => modify marks pos fun _ => true)
    (Array.replicate c.size false)

/-- A document that is in no topic, with the largest membership that it reaches in any. -/
def restAt (c : Corpus α) (topics : List (Topic α)) (pos : Position) : Option (Member α) := do
  let doc ← c.documents[pos]?
  return ⟨doc.id, pos, (topics.map fun t => membership doc.vector t.terms).foldl Scalar.max 0⟩

/-- The documents that are in no topic. -/
def uncovered (c : Corpus α) (topics : List (Topic α)) : Option (List (Member α)) := do
  let marks ← markCovered c topics
  ((marks.toList.zipIdx.filter fun e => !e.1).map Prod.snd).mapM (restAt c topics)

/-! ## Runs -/

/-- The topics of ranked candidates, labelled, and the documents that are in none. -/
def describe (labels : Labels α) (lex : Lexicon) (limit : Nat) (c : Corpus α) (ranked : List (Candidate α × Score α)) :
    Option (List (Topic α) × List (Member α)) := do
  let unlabelled ← ranked.mapM (topicOf c)
  let topics ← unlabelled.mapM (labelTopic labels c lex limit)
  let rest ← uncovered c topics
  return (topics, rest)

/-- The clustering of a corpus in its tolerance space. -/
def clusterCorpus (settings : Settings α) (labels : Labels α) (lex : Lexicon) (c : Corpus α) (s : ToleranceSpace α) :
    Option (Clustering α) := do
  let first ← candidates settings s c
  let merged ← merge s c ⟨settings.mergeThreshold, settings.minMembership⟩ first
  let described ← describe labels lex settings.maxLabels c (Ranking.rank merged.1)
  return ⟨described.1, Topic.rest described.2, merged.2⟩

/-- The clustering of some documents, and the lexicon afterwards. -/
def cluster (settings : Settings α) (labels : Labels α) (lex : Lexicon) (docs : List Document) (cancelled : Bool) :
    Option (Except Failure (Clustering α) × Lexicon) :=
  if docs.isEmpty then some (.ok Clustering.empty, lex)
  else do
    let extracted ← extract ⟨settings.weighting, settings.maxTermShare⟩ lex docs
    if cancelled then return (.error .cancelled, extracted.2)
    else
      let built ← build extracted.1 settings.tolerance settings.similarity.measure
      match built with
      | .error failure => return (.error failure, extracted.2)
      | .ok s => do
        let r ← clusterCorpus settings labels extracted.2 extracted.1 s
        return (.ok r, extracted.2)

/-! ## Positions -/

variable {c : Corpus α} {s : ToleranceSpace α} {τ : α} {f : Measure α}

/-- An approximation covers positions of the corpus. -/
theorem lt_size_of_mem_approximate (h : ToleranceSpace.build c τ f = .ok s) {terms : List TermId} {μ : α} {pos : Position}
    (hpos : pos ∈ (s.approximate c terms μ).positions) : pos < c.size := by
  obtain ⟨m, hm, rfl⟩ := List.mem_map.1 hpos
  obtain ⟨p, hp, hcover⟩ := List.mem_filterMap.1 hm
  obtain ⟨t, -, ht⟩ := ToleranceSpace.mem_holders.1 hp
  rw [Corpus.cover?] at hcover
  simp only [Option.ite_none_right_eq_some, Option.some.injEq] at hcover
  obtain ⟨-, rfl⟩ := hcover
  exact lt_size_of_mem_postings h ht

/-- The candidates that are left cover positions of the corpus. -/
theorem lt_size_of_merge (h : ToleranceSpace.build c τ f = .ok s) (settings : Settings α) (rule : MergeRule α) :
    ∀ a ∈ (Agglomeration.merge s c rule (Clusterer.candidates settings s c)).1, ∀ pos ∈ a.approximation.positions,
      pos < c.size := by
  obtain ⟨last, hr, hlast, -⟩ := Agglomeration.reaches_merge s c rule (Clusterer.candidates settings s c)
  rw [← hlast]
  refine Agglomeration.forall_of_reaches ?_ ?_ hr
  · intro a ha pos hpos
    obtain ⟨t, -, -, happ⟩ := Clusterer.exists_of_mem_candidates ha
    rw [happ] at hpos
    exact lt_size_of_mem_approximate h hpos
  · intro a b _ _ pos hpos
    exact lt_size_of_mem_approximate h hpos

/-! ## Nothing is missed -/

/-- The library's labels are chosen exactly if all positions of the topic are in the corpus. -/
theorem byCohesion?_eq (topic : Topic α) (lex : Lexicon) (limit : Nat) :
    Labeler.byCohesion? topic c lex limit =
      if ∀ pos ∈ topic.positions, pos < c.size then some (Labeler.byCohesion topic c lex limit) else none := by
  rw [Labeler.byCohesion?, Labeler.contributions?, vectorsAt?_eq, Labeler.byCohesion, Labeler.contributions]
  split <;> rfl

theorem label_eq (labels : Labels α) {topic : Topic α} (hpos : ∀ pos ∈ topic.positions, pos < c.size) (lex : Lexicon)
    (limit : Nat) : label labels topic c lex limit = some (labels.labeler topic c lex limit) := by
  cases labels with
  | byCohesion =>
    rw [label, byCohesion?_eq, if_pos hpos]
    rfl
  | ofFunction choose => rfl

theorem labelTopic_eq (labels : Labels α) {t : Topic α} (hpos : ∀ pos ∈ t.positions, pos < c.size) (lex : Lexicon)
    (limit : Nat) : labelTopic labels c lex limit t = some (Clusterer.labelTopic labels.labeler c lex limit t) := by
  rw [labelTopic, label_eq labels hpos]
  rfl

theorem topicOf_eq {ranked : Candidate α × Score α} (hpos : ∀ pos ∈ ranked.1.approximation.positions, pos < c.size) :
    topicOf c ranked = some (Clusterer.topicOf c ranked) := by
  have hmember : ∀ m ∈ ranked.1.approximation.members, memberAt c m = some ⟨c.id m.1, m.1, m.2⟩ := by
    intro m hm
    rw [memberAt, getElem?_documents (hpos m.1 (List.mem_map_of_mem hm))]
    rfl
  rw [topicOf, mapM_eq_some hmember]
  rfl

/-- Setting marks at some places leaves the marks at the others. -/
theorem getElem?_foldl_mark (ps : List Nat) (marks : Array Bool) (i : Nat) :
    (ps.foldl (fun marks pos => marks.modify pos fun _ => true) marks)[i]? = marks[i]?.map (· || ps.contains i) := by
  induction ps generalizing marks with
  | nil => simp
  | cons p ps ih =>
    rw [List.foldl_cons, ih, Array.getElem?_modify, List.contains_cons]
    by_cases hpi : p = i
    · subst hpi
      rw [if_pos rfl, Option.map_map, beq_self_eq_true]
      refine congrArg (fun g => marks[p]?.map g) (funext ?_)
      intro b
      exact (Bool.or_true b).symm
    · rw [if_neg hpi, beq_false_of_ne (Ne.symm hpi), Bool.false_or]

theorem markCovered_eq {topics : List (Topic α)} (hpos : ∀ pos ∈ topics.flatMap Topic.positions, pos < c.size) :
    markCovered c topics =
      some ((List.range c.size).map fun pos => (topics.flatMap Topic.positions).contains pos).toArray := by
  have hsize : (Array.replicate c.size false).size = c.size := Array.size_replicate
  have hmarks : markCovered c topics = some ((topics.flatMap Topic.positions).foldl
      (fun marks pos => marks.modify pos fun _ => true) (Array.replicate c.size false)) := by
    refine (foldlM_eq_some (fun (marks : Array Bool) ps => marks.size = c.size ∧ ∀ pos ∈ ps, pos < c.size) ?_
      ⟨hsize, hpos⟩).1
    rintro marks pos ps ⟨hsize, hall⟩
    obtain ⟨hp, hps⟩ := List.forall_mem_cons.1 hall
    exact ⟨modify_eq (hsize.symm ▸ hp) _, Array.size_modify.trans hsize, hps⟩
  rw [hmarks, Option.some.injEq]
  refine Array.ext_getElem? ?_
  intro i
  rw [getElem?_foldl_mark, Array.getElem?_replicate, List.getElem?_toArray, List.getElem?_map]
  by_cases hi : i < c.size
  · rw [if_pos hi, List.getElem?_range hi]
    rfl
  · rw [if_neg hi, List.getElem?_eq_none (by rw [List.length_range]; omega)]
    rfl

/-- The places without a mark. -/
theorem unmarked (n : Nat) (g : Nat → Bool) :
    ((((List.range n).map g).zipIdx.filter fun e => !e.1).map Prod.snd) = (List.range n).filter fun i => !g i := by
  have hpairs : ((List.range n).map g).zipIdx = (List.range n).map fun i => (g i, i) := by
    refine List.ext_getElem (by simp) ?_
    intro i hi hi'
    simp
  rw [hpairs, List.filter_map, List.map_map]
  exact List.map_id _

theorem uncovered_eq {topics : List (Topic α)} (hpos : ∀ t ∈ topics, ∀ pos ∈ t.positions, pos < c.size) :
    uncovered c topics = some (Clusterer.uncovered c topics) := by
  have hcovered : ∀ pos ∈ topics.flatMap Topic.positions, pos < c.size := by
    intro pos hmem
    obtain ⟨t, ht, hp⟩ := List.mem_flatMap.1 hmem
    exact hpos t ht pos hp
  rw [uncovered, bind_of_eq (markCovered_eq hcovered), unmarked]
  refine mapM_eq_some ?_
  intro pos hmem
  rw [restAt, getElem?_documents (List.mem_range.1 (List.mem_filter.1 hmem).1)]
  rfl

/-- Candidates that cover positions of the corpus become topics. -/
theorem describe_eq (labels : Labels α) (lex : Lexicon) (limit : Nat) {ranked : List (Candidate α × Score α)}
    (hpos : ∀ r ∈ ranked, ∀ pos ∈ r.1.approximation.positions, pos < c.size) :
    describe labels lex limit c ranked =
      some (ranked.map fun r => Clusterer.labelTopic labels.labeler c lex limit (Clusterer.topicOf c r),
        Clusterer.uncovered c
          (ranked.map fun r => Clusterer.labelTopic labels.labeler c lex limit (Clusterer.topicOf c r))) := by
  have hpositions : ∀ r ∈ ranked, ∀ pos ∈ (Clusterer.topicOf c r).positions, pos < c.size := by
    intro r hr pos hmem
    have hsame : (Clusterer.topicOf c r).positions = r.1.approximation.positions := List.map_map
    rw [hsame] at hmem
    exact hpos r hr pos hmem
  have hlabelled : (ranked.map (Clusterer.topicOf c)).mapM (labelTopic labels c lex limit) =
      some (ranked.map fun r => Clusterer.labelTopic labels.labeler c lex limit (Clusterer.topicOf c r)) := by
    rw [mapM_eq_some (g := Clusterer.labelTopic labels.labeler c lex limit), List.map_map]
    · rfl
    · intro t ht
      obtain ⟨r, hr, rfl⟩ := List.mem_map.1 ht
      exact labelTopic_eq labels (hpositions r hr) lex limit
  rw [describe, bind_of_eq (mapM_eq_some fun r hr => topicOf_eq (hpos r hr)), bind_of_eq hlabelled, uncovered_eq]
  · rfl
  · intro t ht pos hmem
    obtain ⟨r, hr, rfl⟩ := List.mem_map.1 ht
    exact hpositions r hr pos hmem

/-- In the space of a corpus, clustering finds everything it looks up. -/
theorem clusterCorpus_eq (k : Clusterer α) {labels : Labels α} (hlabels : k.labeler = labels.labeler) (lex : Lexicon)
    (h : ToleranceSpace.build c τ f = .ok s) :
    clusterCorpus k.settings labels lex c s = some (k.clusterCorpus lex c s) := by
  have hranked : ∀ r ∈ Ranking.rank (Agglomeration.merge s c ⟨k.settings.mergeThreshold, k.settings.minMembership⟩
      (Clusterer.candidates k.settings s c)).1, ∀ pos ∈ r.1.approximation.positions, pos < c.size := by
    intro r hr
    obtain ⟨a, ha, rfl⟩ := List.mem_map.1 ((Sorting.perm_sort Ranking.bestFirst _).mem_iff.1 hr)
    exact lt_size_of_merge h k.settings _ a ha
  rw [clusterCorpus, bind_of_eq (candidates_eq h k.settings), bind_of_eq (merge_eq h _ _),
    bind_of_eq (describe_eq labels lex k.settings.maxLabels hranked), ← hlabels]
  rfl

/-! ## The run -/

/-- A run looks up nothing that is not there, and comes to its end unless there is no room for the relation of its terms. A
run that was cancelled does not come to relate them. -/
theorem cluster_eq (k : Clusterer α) {labels : Labels α} (hlabels : k.labeler = labels.labeler) {lex : Lexicon}
    {docs : List Document} (hspace : k.IsSpaceOf lex docs s) (htokens : (docs.flatMap Document.tokens).length < 2 ^ 32)
    (hterms : (Extraction.lexiconAfter lex docs).size < 2 ^ 32) :
    cluster k.settings labels lex docs true = some (k.cluster lex docs true) ∧
      cluster k.settings labels lex docs false =
        if s.relationSize < 2 ^ 32 then some (k.cluster lex docs false) else none := by
  cases docs with
  | nil =>
    rw [ToleranceSpace.relationSize_of_size_zero hspace (k.size_corpusOf lex [])]
    exact ⟨rfl, rfl⟩
  | cons d ds =>
    have hextract := extract_eq k.extraction htokens (Nat.le_of_lt hterms)
    have hholders : ∀ t, ((k.corpusOf lex (d :: ds)).holders t).length < 2 ^ 32 :=
      fun t => Nat.lt_of_le_of_lt (length_holders_le k.extraction lex (d :: ds) t) htokens
    have hbuild := build_eq hspace hholders (Nat.lt_of_le_of_lt Clusterer.length_vocabulary_le hterms)
    obtain ⟨c, later, hx⟩ : ∃ c later, k.extraction.extract lex (d :: ds) = (c, later) := ⟨_, _, rfl⟩
    have hc : k.corpusOf lex (d :: ds) = c := by rw [Clusterer.corpusOf, hx]
    rw [Clusterer.IsSpaceOf, hc] at hspace
    rw [hc] at hbuild
    rw [hx] at hextract
    unfold Clusterer.extraction at hx hextract
    rw [cluster, cluster, Clusterer.cluster, Clusterer.cluster]
    simp only [List.isEmpty_cons, Bool.false_eq_true, if_false, if_true, hextract, hx, Option.bind_eq_bind,
      Option.bind_some, hspace, hbuild]
    refine ⟨rfl, ?_⟩
    by_cases hroom : s.relationSize < 2 ^ 32
    · simp only [if_pos hroom, Option.bind_some, clusterCorpus_eq k hlabels later hspace]
      rfl
    · rw [if_neg hroom, if_neg hroom]
      rfl

/-- Under accepted settings, with the labeler of the library or with a function that returns whatever numbers, a run over
documents with less than `2 ^ 32` tokens and terms, from any lexicon, finds everything that it looks up and overflows no
counter. It returns a clustering exactly if less than `2 ^ 32` pairs of its terms tolerate each other; the graph of the
relation has no room for more. A run that was cancelled before it began says so, unless there are no documents. Memory is
taken to have no end. -/
theorem accepted_run_misses_nothing (k : Clusterer α) {labels : Labels α} (hlabels : k.labeler = labels.labeler)
    {lex : Lexicon} {docs : List Document} (hspace : k.IsSpaceOf lex docs s)
    (htokens : (docs.flatMap Document.tokens).length < 2 ^ 32)
    (hterms : (Extraction.lexiconAfter lex docs).size < 2 ^ 32) :
    cluster k.settings labels lex docs true = some (k.cluster lex docs true) ∧
      cluster k.settings labels lex docs false =
        (if s.relationSize < 2 ^ 32 then some (k.cluster lex docs false) else none) ∧
      (∃ r, k.cluster lex docs false = (.ok r, Extraction.lexiconAfter lex docs)) ∧
      (docs ≠ [] → k.cluster lex docs true = (.error .cancelled, Extraction.lexiconAfter lex docs)) ∧
      (docs = [] → k.cluster lex docs true = (.ok Clustering.empty, lex)) := by
  have hlexicon := k.lexicon_cluster lex docs
  obtain ⟨hcancelled, hrun⟩ := cluster_eq k hlabels hspace htokens hterms
  refine ⟨hcancelled, hrun, ⟨_, Prod.ext (k.cluster_eq lex docs hspace) (hlexicon false)⟩, ?_, ?_⟩
  · intro hne
    refine Prod.ext ?_ (hlexicon true)
    cases docs with
    | nil => exact absurd rfl hne
    | cons d ds => rfl
  · rintro rfl
    rfl

/-- A function that names an unknown term, and another term twice. -/
def strangeLabels : Labels Float := .ofFunction fun _ _ _ _ => [99, 1, 1]

/-- The usual settings with the strange labels. -/
def strange : Clusterer Float := { Clusterer.usual with labeler := strangeLabels.labeler }

/-- Reports, the second of them without terms. -/
def reports : List Document :=
  [⟨4, ["car", "engine", "car"], none⟩, ⟨5, [""], none⟩, ⟨6, ["auto", "car"], none⟩]

theorem reports_miss_nothing :
    strange.labeler = strangeLabels.labeler ∧ (reports.flatMap Document.tokens).length < 2 ^ 32 ∧
      (Extraction.lexiconAfter (Lexicon.ofList ["zebra"]) reports).size < 2 ^ 32 ∧
      (∃ s, strange.IsSpaceOf (Lexicon.ofList ["zebra"]) reports s ∧ s.relationSize < 2 ^ 32) ∧
      ∃ r, cluster strange.settings strangeLabels (Lexicon.ofList ["zebra"]) reports false =
        some (.ok r, Extraction.lexiconAfter (Lexicon.ofList ["zebra"]) reports) := by
  have hlabels : strange.labeler = strangeLabels.labeler := rfl
  have htokens : (reports.flatMap Document.tokens).length < 2 ^ 32 := by decide
  have hsize : (Extraction.lexiconAfter (Lexicon.ofList ["zebra"]) reports).size = 4 := by decide +kernel
  have hterms : (Extraction.lexiconAfter (Lexicon.ofList ["zebra"]) reports).size < 2 ^ 32 := by
    rw [hsize]
    decide
  obtain ⟨s, hspace⟩ := strange.exists_space (Lexicon.ofList ["zebra"]) reports
  have hroom : s.relationSize < 2 ^ 32 := by
    refine Clusterer.relationSize_lt_of_size_le hspace ?_
    rw [hsize]
    decide
  obtain ⟨-, hrun, ⟨r, hr⟩, -⟩ := accepted_run_misses_nothing strange hlabels hspace htokens hterms
  rw [if_pos hroom, hr] at hrun
  exact ⟨hlabels, htokens, hterms, ⟨s, hspace, hroom⟩, r, hrun⟩

/-- One document, of so many numerals. -/
def numerals (n : Nat) : Document := ⟨0, (List.range n).map Nat.repr, none⟩

/-- Each numeral is a token. -/
theorem length_tokens_numerals (n : Nat) : ([numerals n].flatMap Document.tokens).length = n := by
  simp [numerals]

/-- No numeral is empty, so each of them is a term. -/
theorem terms_numerals (n : Nat) : (numerals n).terms = (List.range n).map Nat.repr := by
  refine List.filter_eq_self.2 ?_
  intro token htoken
  obtain ⟨i, -, rfl⟩ := List.mem_map.1 htoken
  exact decide_eq_true Nat.repr_ne_empty

/-- The numerals are the only terms of the lexicon afterwards. -/
theorem size_numerals_le (n : Nat) : (Extraction.lexiconAfter Lexicon.empty [numerals n]).size ≤ n := by
  refine Nat.le_trans (Extraction.size_lexiconAfter_le Lexicon.empty [numerals n]) ?_
  simp [terms_numerals, Lexicon.empty, Lexicon.size]

/-- Under the usual settings a run over one document of numerals comes to its end exactly if there is room for all pairs of
them. -/
theorem cluster_numerals {n : Nat} (hn : n < 2 ^ 32) :
    cluster Clusterer.usual.settings .byCohesion Lexicon.empty [numerals n] false =
      if n.choose 2 < 2 ^ 32 then some (Clusterer.usual.cluster Lexicon.empty [numerals n] false) else none := by
  have hlabels : Clusterer.usual.labeler = Labels.byCohesion.labeler := rfl
  have hdistinct : (numerals n).terms.Nodup := by
    rw [terms_numerals]
    exact List.nodup_range.map fun _ _ h => Nat.repr_injective h
  have htokens : ([numerals n].flatMap Document.tokens).length < 2 ^ 32 := by
    rw [length_tokens_numerals]
    exact hn
  obtain ⟨s, hspace⟩ := Clusterer.usual.exists_space Lexicon.empty [numerals n]
  have hrelation : s.relationSize = n.choose 2 := by
    rw [Clusterer.relationSize_of_counted rfl rfl hdistinct hspace, terms_numerals, List.length_map, List.length_range]
  rw [← hrelation]
  exact (cluster_eq Clusterer.usual hlabels hspace htokens (Nat.lt_of_le_of_lt (size_numerals_le n) hn)).2

/-- One document of 92,683 terms has 4,295,022,903 pairs of them, for which a run under the usual settings finds no room,
although the tokens and the terms are far fewer than `2 ^ 32`. -/
theorem numerals_find_no_room :
    Clusterer.usual.labeler = Labels.byCohesion.labeler ∧
      ([numerals 92683].flatMap Document.tokens).length = 92683 ∧
      (Extraction.lexiconAfter Lexicon.empty [numerals 92683]).size ≤ 92683 ∧
      cluster Clusterer.usual.settings .byCohesion Lexicon.empty [numerals 92683] false = none := by
  refine ⟨rfl, length_tokens_numerals 92683, size_numerals_le 92683, ?_⟩
  have hchoose : ¬Nat.choose 92683 2 < 2 ^ 32 := by
    rw [Nat.choose_two_right]
    decide
  rw [cluster_numerals (by decide), if_neg hchoose]

end Checked

end ToleranceClustering
