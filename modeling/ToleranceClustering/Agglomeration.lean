import ToleranceClustering.Candidate

/-!
# Agglomeration

Candidates whose document sets overlap strongly are about one topic. As long as some pair overlaps by at least a
threshold, the pair with the largest overlap is merged, the earliest such pair if there are several: the earlier
candidate takes over the seeds and terms of the later one and is approximated anew.

`merge` keeps the overlaps of all pairs in a table and renews only the row and the column of the merged candidate.
`mergeByRescan` is the plain procedure that compares all pairs before every step.
-/

namespace ToleranceClustering

/-- A merge: the first numbers of the two candidates, the overlap that caused it, and the size of the result. -/
structure MergeStep (α : Type) where
  kept : Nat
  absorbed : Nat
  overlap : α
  size : Nat

/-- When candidates merge, and the membership threshold of the approximation that follows. -/
structure MergeRule (α : Type) where
  threshold : α
  minMembership : α

/-- Two places in a list of candidates, the first before the second, and the overlap found there. -/
structure OverlapPair (α : Type) where
  first : Nat
  second : Nat
  overlap : α

/-- The overlaps of a list of candidates, row by row. The diagonal is never read. -/
abbrev OverlapTable (α : Type) := List (List α)

namespace OverlapTable

variable {α : Type} [Scalar α]

/-- The overlaps of all pairs. -/
def ofCandidates (cs : List (Candidate α)) : OverlapTable α :=
  cs.zipIdx.map fun (a, i) => cs.zipIdx.map fun (b, j) =>
    if i < j then a.approximation.overlap b.approximation
    else if j < i then b.approximation.overlap a.approximation
    else 0

/-- The pairs above the diagonal, row by row. -/
def pairs (t : OverlapTable α) : List (OverlapPair α) :=
  t.zipIdx.flatMap fun (row, i) => (row.zipIdx.drop (i + 1)).map fun (o, j) => ⟨i, j, o⟩

/-- The better of the best pair so far and the next one: a pair below the threshold is none, and only a larger overlap
replaces an earlier pair. -/
def better (θ : α) (best : Option (OverlapPair α)) (p : OverlapPair α) : Option (OverlapPair α) :=
  if p.overlap < θ then best
  else match best with
    | none => some p
    | some b => if b.overlap < p.overlap then some p else some b

/-- The pair with the largest overlap that is not below the threshold, the earliest of equals. -/
def bestPair? (t : OverlapTable α) (θ : α) : Option (OverlapPair α) := t.pairs.foldl (better θ) none

/-- The table without the row and the column at `j`. -/
def remove (t : OverlapTable α) (j : Nat) : OverlapTable α := (t.eraseIdx j).map (·.eraseIdx j)

/-- The table with the row and the column at `i` computed anew from the candidates. -/
def refresh (t : OverlapTable α) (cs : List (Candidate α)) (i : Nat) : OverlapTable α :=
  match cs[i]? with
  | none => t
  | some kept =>
    let fresh := cs.map fun c => kept.approximation.overlap c.approximation
    t.zipIdx.map fun (row, k) =>
      if k = i then (row.zip fresh).zipIdx.map fun (o, j) => if j = i then o.1 else o.2
      else match fresh[k]? with
        | some o => row.set i o
        | none => row

end OverlapTable

namespace Agglomeration

variable {α : Type} [Scalar α]

/-- The earlier candidate after it took over the later one: the union of the seeds, and the approximation of the
union of the terms. -/
def absorb (s : ToleranceSpace α) (c : Corpus α) (μ : α) (kept absorbed : Candidate α) : Candidate α where
  id := kept.id
  seeds := Ascending.ofList (kept.seeds ++ absorbed.seeds)
  approximation := s.approximate c (kept.approximation.terms ++ absorbed.approximation.terms) μ

/-- The candidates after the pair at `p` was merged, and the record of the merge. -/
def mergePair (s : ToleranceSpace α) (c : Corpus α) (μ : α) (cs : List (Candidate α)) (p : OverlapPair α) :
    Option (List (Candidate α) × MergeStep α) :=
  match cs[p.first]?, cs[p.second]? with
  | some kept, some absorbed =>
    let merged := absorb s c μ kept absorbed
    some ((cs.eraseIdx p.second).set p.first merged, ⟨kept.id, absorbed.id, p.overlap, merged.size⟩)
  | _, _ => none

/-- Merges with a table of the overlaps, for `fuel` steps at most. -/
def mergeFrom (s : ToleranceSpace α) (c : Corpus α) (rule : MergeRule α) :
    Nat → OverlapTable α → List (Candidate α) → List (Candidate α) × List (MergeStep α)
  | 0, _, cs => (cs, [])
  | fuel + 1, table, cs =>
    match table.bestPair? rule.threshold with
    | none => (cs, [])
    | some p =>
      match mergePair s c rule.minMembership cs p with
      | none => (cs, [])
      | some (merged, step) =>
        let (out, history) := mergeFrom s c rule fuel ((table.remove p.second).refresh merged p.first) merged
        (out, step :: history)

/-- Merges until no pair overlaps by at least the threshold: the candidates that remain, in their order, and the
merges in theirs. Every merge leaves one candidate less, so the number of candidates bounds the steps. -/
def merge (s : ToleranceSpace α) (c : Corpus α) (rule : MergeRule α) (cs : List (Candidate α)) :
    List (Candidate α) × List (MergeStep α) :=
  mergeFrom s c rule cs.length (OverlapTable.ofCandidates cs) cs

/-- Merges, unless the caller gave up before the first step. -/
def mergeUnlessCancelled (cancelled : Bool) (s : ToleranceSpace α) (c : Corpus α) (rule : MergeRule α)
    (cs : List (Candidate α)) : Except Failure (List (Candidate α) × List (MergeStep α)) :=
  if cancelled then .error .cancelled else .ok (merge s c rule cs)

/-- Merges with the overlaps of all pairs computed before every step, for `fuel` steps at most. -/
def rescanFrom (s : ToleranceSpace α) (c : Corpus α) (rule : MergeRule α) :
    Nat → List (Candidate α) → List (Candidate α) × List (MergeStep α)
  | 0, cs => (cs, [])
  | fuel + 1, cs =>
    match (OverlapTable.ofCandidates cs).bestPair? rule.threshold with
    | none => (cs, [])
    | some p =>
      match mergePair s c rule.minMembership cs p with
      | none => (cs, [])
      | some (merged, step) =>
        let (out, history) := rescanFrom s c rule fuel merged
        (out, step :: history)

/-- Merges until no pair overlaps by at least the threshold, by comparing all pairs before every step. -/
def mergeByRescan (s : ToleranceSpace α) (c : Corpus α) (rule : MergeRule α) (cs : List (Candidate α)) :
    List (Candidate α) × List (MergeStep α) :=
  rescanFrom s c rule cs.length cs

end Agglomeration

end ToleranceClustering
