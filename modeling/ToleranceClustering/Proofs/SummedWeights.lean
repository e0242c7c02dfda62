import ToleranceClustering.Proofs.Binary64.TotalOrder
import ToleranceClustering.Proofs.NumberedRun

/-!
# Summed weights

A vector is built from pairs of terms and weights: the weights of each term are added up in a map, what does not come to
a positive, finite sum is left out, and the rest is sorted by terms. Only the sums count (`ofPairs_holds_sums`). The
order of the pairs does not matter as long as each term has its weights in the same order, and neither does the order in
which the map is read.

A term may be looked up by halving the part of the vector in which it can stand. Since the terms ascend, this finds what
there is (`Table.search?_eq_find?`).
-/

namespace ToleranceClustering

/-! ## Looking up by halving -/

namespace Table

variable {β : Type}

/-- The place where a key may stand among `n` keys from the place `lo` on, found by halving them until one is left. -/
def bisect (ks : List Nat) (k lo n : Nat) : Nat :=
  if 1 < n then
    if k < ks.getD (lo + n / 2) 0 then bisect ks k lo (n - n / 2) else bisect ks k (lo + n / 2) (n - n / 2)
  else lo
termination_by n

/-- The value at `k`, found by halving. -/
def search? (t : Table β) (k : Nat) : Option β :=
  t.entries[bisect t.keys k 0 t.size]?.bind fun e => if e.1 = k then some e.2 else none

/-- Along ascending keys, a key is at most another exactly if it stands no later. -/
theorem getD_le_getElem_iff {ks : List Nat} (h : Ascending ks) {i j : Nat} (hi : i < ks.length) (hj : j < ks.length) :
    ks.getD j 0 ≤ ks[i] ↔ j ≤ i := by
  rw [List.getD_eq_getElem _ _ hj]
  constructor
  · intro hle
    by_contra hlt
    exact absurd (List.pairwise_iff_getElem.1 h i j hi hj (Nat.lt_of_not_le hlt)) (Nat.not_lt_of_le hle)
  · intro hle
    rcases Nat.lt_or_eq_of_le hle with hlt | rfl
    · exact Nat.le_of_lt (List.pairwise_iff_getElem.1 h j i hj hi hlt)
    · exact Nat.le_refl _

/-- A key is found wherever it stands among ascending keys: the half that is kept still has it. -/
theorem bisect_eq {ks : List Nat} (h : Ascending ks) {i : Nat} (hi : i < ks.length) {lo n : Nat} (hlo : lo ≤ i)
    (hn : i < lo + n) (hlength : lo + n ≤ ks.length) : bisect ks ks[i] lo n = i := by
  fun_induction bisect ks ks[i] lo n with
  | case1 lo n hmany hbefore ih =>
    have hmid : ¬lo + n / 2 ≤ i := by
      rw [← getD_le_getElem_iff h hi (by omega)]
      exact Nat.not_le_of_lt hbefore
    exact ih hlo (by omega) (by omega)
  | case2 lo n hmany hbefore ih =>
    have hmid : lo + n / 2 ≤ i := by
      rw [← getD_le_getElem_iff h hi (by omega)]
      exact Nat.le_of_not_lt hbefore
    exact ih hmid (by omega) (by omega)
  | case3 lo n hone => omega

theorem search?_eq_some_iff {t : Table β} {k : Nat} {b : β} : t.search? k = some b ↔ (k, b) ∈ t.entries := by
  constructor
  · intro h
    obtain ⟨e, he, hkey⟩ := Option.bind_eq_some_iff.1 h
    split at hkey
    · rename_i hk
      obtain rfl := Option.some.inj hkey
      exact hk ▸ List.mem_of_getElem? he
    · cases hkey
  · intro h
    obtain ⟨i, hi, he⟩ := List.mem_iff_getElem.1 h
    have hkeys : t.keys.length = t.size := List.length_map _
    have hlength : i < t.keys.length := hkeys ▸ hi
    have hkey : t.keys[i] = k := by simp [keys, he]
    have hascending : Ascending t.keys := t.ascending
    have hplace : bisect t.keys t.keys[i] 0 t.size = i :=
      bisect_eq hascending hlength (Nat.zero_le i) (by rwa [Nat.zero_add]) (by rw [Nat.zero_add, hkeys])
    rw [hkey] at hplace
    rw [search?, hplace, List.getElem?_eq_getElem hi, he]
    simp

/-- Looking up by halving finds what a table has. -/
theorem search?_eq_find? (t : Table β) (k : Nat) : t.search? k = t.find? k := by
  refine Option.ext fun b => ?_
  rw [search?_eq_some_iff, mem_entries]

end Table

namespace TermVector

/-! ## Sums -/

section

variable {α : Type} [Scalar α]

/-- The weights that pairs have for a term, in their order. -/
def weightsOf (pairs : List (ℕ × α)) (t : TermId) : List α := (pairs.filter fun p => p.1 = t).map Prod.snd

/-- The weights that pairs have for a term, added from zero from left to right. -/
def added (pairs : List (ℕ × α)) (t : TermId) : α := (weightsOf pairs t).foldl (· + ·) 0

/-- What a map holds after pairs were added up in it, read in any order: each term of the pairs once, with its sum. -/
structure AddedUp (pairs sums : List (ℕ × α)) : Prop where
  nodup : (sums.map Prod.fst).Nodup
  mem_iff : ∀ t w, (t, w) ∈ sums ↔ t ∈ pairs.map Prod.fst ∧ w = added pairs t

omit [Scalar α] in
theorem weightsOf_eq_nil_iff {pairs : List (ℕ × α)} {t : TermId} : weightsOf pairs t = [] ↔ t ∉ pairs.map Prod.fst := by
  rw [weightsOf, List.map_eq_nil_iff, List.filter_eq_nil_iff, List.mem_map]
  constructor
  · rintro h ⟨p, hp, ht⟩
    exact h p hp (decide_eq_true ht)
  · intro h p hp ht
    exact h ⟨p, hp, of_decide_eq_true ht⟩

theorem summed_eq (pairs : List (ℕ × α)) (t : TermId) :
    summed pairs t = match weightsOf pairs t with
      | [] => none
      | ws => some (ws.foldl (· + ·) 0) := rfl

/-- The sums that pairs come to are those of their terms. -/
theorem summed_eq_some_iff {pairs : List (ℕ × α)} {t : TermId} {w : α} :
    summed pairs t = some w ↔ t ∈ pairs.map Prod.fst ∧ w = added pairs t := by
  have hmem : weightsOf pairs t = [] ↔ t ∉ pairs.map Prod.fst := weightsOf_eq_nil_iff
  rw [summed_eq, added]
  cases hws : weightsOf pairs t with
  | nil => simp [hmem.1 hws]
  | cons v vs =>
    have ht : t ∈ pairs.map Prod.fst := by
      by_contra hnot
      rw [hmem.2 hnot] at hws
      cases hws
    rw [and_iff_right ht, Option.some.injEq]
    exact eq_comm

/-- The table of sums is such a map. -/
theorem addedUp_entries (pairs : List (ℕ × α)) : AddedUp pairs (pairs.foldl accumulate Table.empty).entries where
  nodup := (pairs.foldl accumulate Table.empty).ascending.nodup
  mem_iff := by
    intro t w
    have hfind : (pairs.foldl accumulate Table.empty).find? t = summed pairs t := by
      rw [find?_foldl_accumulate]
      rfl
    rw [Table.mem_entries, hfind, summed_eq_some_iff]

/-- Maps that the same pairs are added up in differ in their order at most. -/
theorem AddedUp.perm {pairs sums sums' : List (ℕ × α)} (h : AddedUp pairs sums) (h' : AddedUp pairs sums') :
    sums.Perm sums' := by
  refine (List.perm_ext_iff_of_nodup h.nodup.of_map h'.nodup.of_map).2 ?_
  rintro ⟨t, w⟩
  rw [h.mem_iff, h'.mem_iff]

/-- Entries in the order of their keys are in the only such order, if no key is there twice. -/
theorem eq_entries_of_perm {v : TermVector α} {es : List (ℕ × α)} (hperm : es.Perm v.entries)
    (hsorted : es.Pairwise fun a b => a.1 ≤ b.1) : es = v.entries := by
  have hentries : v.entries.Pairwise fun a b => a.1 ≤ b.1 := (List.pairwise_map.1 v.weights.ascending).imp Nat.le_of_lt
  refine hperm.eq_of_pairwise ?_ hsorted hentries
  rintro ⟨t, w⟩ ⟨u, x⟩ ha hb htu hut
  obtain rfl : t = u := Nat.le_antisymm htu hut
  have hw := mem_entries.1 (hperm.mem_iff.1 ha)
  rw [mem_entries.1 hb] at hw
  rw [Option.some.inj hw]

/-- The vector is what a map gives that the pairs are added up in, whatever its order, once its entries that are kept are
sorted by terms. -/
theorem eq_entries_of_addedUp {pairs sums es : List (ℕ × α)} (h : AddedUp pairs sums)
    (hperm : es.Perm (sums.filter admits)) (hsorted : es.Pairwise fun a b => a.1 ≤ b.1) :
    es = (ofPairs pairs).entries :=
  eq_entries_of_perm (hperm.trans ((h.perm (addedUp_entries pairs)).filter admits)) hsorted

/-- Pairs that have the same weights for every term, in the same order, give the same vector. -/
theorem ofPairs_congr {pairs pairs' : List (ℕ × α)} (h : ∀ t, weightsOf pairs' t = weightsOf pairs t) :
    ofPairs pairs' = ofPairs pairs := by
  refine ext (Table.eq_of_find?_eq fun t => ?_)
  have hweight := weight?_ofPairs pairs' t
  rw [summed_eq, h, ← summed_eq, ← weight?_ofPairs] at hweight
  exact hweight

/-- A vector built from pairs has the terms whose weights come to a positive, finite sum, each with its sum. -/
theorem mem_entries_ofPairs [Scalar.Ordered α] {pairs : List (ℕ × α)} {t : TermId} {w : α} :
    (t, w) ∈ (ofPairs pairs).entries ↔ w = added pairs t ∧ 0 < w ∧ Scalar.isFinite w = true := by
  rw [mem_entries, weight?_ofPairs, Option.filter_eq_some_iff, summed_eq_some_iff, Bool.and_eq_true, decide_eq_true_iff]
  constructor
  · rintro ⟨⟨-, hw⟩, hadmitted⟩
    exact ⟨hw, hadmitted⟩
  · rintro ⟨hw, hpos, hfinite⟩
    refine ⟨⟨?_, hw⟩, hpos, hfinite⟩
    -- no weights add up to zero, which is not positive
    by_contra hnot
    rw [hw, added, weightsOf_eq_nil_iff.2 hnot] at hpos
    exact Scalar.Ordered.lt_irrefl 0 hpos

/-- A sum of positive numbers may begin with zero. -/
theorem total_eq_foldl [Scalar.Ranked α] (v : TermVector α) : v.total = (v.entries.map Prod.snd).foldl (· + ·) 0 := by
  have hpos : ∀ w ∈ v.entries.map Prod.snd, 0 < w := List.forall_mem_map.2 fun e he => (v.positive e he).1
  change Scalar.sum (v.entries.map Prod.snd) = _
  cases hws : v.entries.map Prod.snd with
  | nil => rfl
  | cons w ws =>
    rw [hws] at hpos
    rw [List.foldl_cons, Scalar.Ranked.zero_add (hpos w List.mem_cons_self)]
    rfl

end

/-! ## What a vector holds -/

/-- A vector holds the sums of pairs: nothing else about the pairs counts. -/
structure HoldsSums {α : Type} [Scalar α] (pairs : List (ℕ × α)) (v : TermVector α) : Prop where
  ascending : Ascending v.terms
  weights : ∀ e ∈ v.entries, 0 < e.2 ∧ Scalar.isFinite e.2 = true
  /-- A term is there if its weights come to a positive, finite sum, and has that sum. -/
  mem_iff : ∀ t w, (t, w) ∈ v.entries ↔ w = added pairs t ∧ 0 < w ∧ Scalar.isFinite w = true
  /-- Looking up finds what is there, also by halving. -/
  found : ∀ t w, v.weight? t = some w ↔ (t, w) ∈ v.entries
  searched : ∀ t, v.weights.search? t = v.weight? t
  contained : ∀ t, v.contains t = true ↔ ∃ w, (t, w) ∈ v.entries
  total : v.total = (v.entries.map Prod.snd).foldl (· + ·) 0
  /-- Other pairs with the same weights for each term, in the same order, give the same vector. -/
  reordered : ∀ pairs', (∀ t, weightsOf pairs' t = weightsOf pairs t) → ofPairs pairs' = v
  /-- So does a map of the sums, read in any order: its entries that are kept can be sorted in one way only. -/
  unordered : ∀ sums, AddedUp pairs sums → ∀ es, es.Perm (sums.filter admits) →
    es.Pairwise (fun a b => a.1 ≤ b.1) → es = v.entries

/-- A vector built from any weights of binary64 holds their sums. -/
theorem ofPairs_holds_sums (pairs : List (ℕ × Float)) : HoldsSums pairs (ofPairs pairs) where
  ascending := ascending_terms _
  weights := (ofPairs pairs).positive
  mem_iff _ _ := mem_entries_ofPairs
  found _ _ := mem_entries.symm
  searched t := (ofPairs pairs).weights.search?_eq_find? t
  contained t := by
    rw [contains, Option.isSome_iff_exists]
    exact exists_congr fun w => mem_entries.symm
  total := total_eq_foldl _
  reordered _ h := ofPairs_congr h
  unordered _ h _ hperm hsorted := eq_entries_of_addedUp h hperm hsorted

/-- Weights of all kinds: repeated, negative, zero, infinite, and no number. -/
def oddWeights : List (ℕ × Float) := [(2, 1), (1, -1), (2, 0.5), (3, 0), (4, 1 / 0), (1, 3), (5, 0 / 0)]

/-- The same with the terms in another order. -/
def regroupedWeights : List (ℕ × Float) := [(5, 0 / 0), (1, -1), (1, 3), (4, 1 / 0), (2, 1), (3, 0), (2, 0.5)]

/-- What is kept of the odd weights, in either order, and read from a map in any order. -/
theorem odd_weights_hold_sums : (∀ t, weightsOf regroupedWeights t = weightsOf oddWeights t) ∧
    (ofPairs regroupedWeights).entries = [(1, 2), (2, 1.5)] ∧
      (ofPairs regroupedWeights).weights.search? 2 = some 1.5 := by
  have hsame : ∀ t, weightsOf regroupedWeights t = weightsOf oddWeights t
    | 0 | 1 | 2 | 3 | 4 | 5 => rfl
    | _ + 6 => rfl
  refine ⟨hsame, ?_, ?_⟩
  · rw [(ofPairs_holds_sums oddWeights).reordered _ hsame]
    decide +kernel
  · rw [(ofPairs_holds_sums regroupedWeights).searched]
    decide +kernel

end TermVector
end ToleranceClustering
