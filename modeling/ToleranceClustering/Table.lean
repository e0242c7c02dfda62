import ToleranceClustering.Ascending

/-!
# Tables

A table assigns values to numbers. It is held as a list of entries in strictly ascending order of their keys, so that
two tables with the same assignments are equal, and every sum over a table has one order.

Main statements: `find?_alter` says what a change at one key does to every key, `find?_filter` what a filter leaves,
and `Tally.count_addAll` that a tally counts.
-/

namespace ToleranceClustering

/-- Values by key, in ascending key order. -/
structure Table (β : Type) where
  entries : List (Nat × β)
  ascending : Ascending (entries.map Prod.fst)

namespace Table

variable {β γ : Type}

/-- The table without entries. -/
def empty : Table β := ⟨[], List.Pairwise.nil⟩

/-- The keys, ascending. -/
def keys (t : Table β) : List Nat := t.entries.map Prod.fst

/-- The values, in key order. -/
def values (t : Table β) : List β := t.entries.map Prod.snd

/-- The number of entries. -/
def size (t : Table β) : Nat := t.entries.length

/-- The value at `k`. -/
def find? (t : Table β) (k : Nat) : Option β := t.entries.lookup k

/-- The entries after the value at `k` became `f` of what it was. -/
def alterEntries (k : Nat) (f : Option β → β) : List (Nat × β) → List (Nat × β)
  | [] => [(k, f none)]
  | e :: es =>
    if k < e.1 then (k, f none) :: e :: es
    else if k = e.1 then (k, f (some e.2)) :: es
    else e :: alterEntries k f es

theorem keys_alterEntries (k : Nat) (f : Option β → β) (es : List (Nat × β)) :
    (alterEntries k f es).map Prod.fst = Ascending.insert k (es.map Prod.fst) := by
  induction es with
  | nil => rfl
  | cons e es ih =>
    simp only [alterEntries, List.map_cons, Ascending.insert]
    split
    · rfl
    · split
      · rename_i h
        rw [List.map_cons, h]
      · rw [List.map_cons, ih]

/-- The table after the value at `k` became `f` of what it was. -/
def alter (t : Table β) (k : Nat) (f : Option β → β) : Table β where
  entries := alterEntries k f t.entries
  ascending := keys_alterEntries k f t.entries ▸ Ascending.ascending_insert t.ascending

/-- The entries that pass `p`. -/
def filter (t : Table β) (p : Nat × β → Bool) : Table β where
  entries := t.entries.filter p
  ascending := List.Pairwise.sublist (List.Sublist.map _ List.filter_sublist) t.ascending

theorem keys_alter (t : Table β) (k : Nat) (f : Option β → β) : (t.alter k f).keys = Ascending.insert k t.keys :=
  keys_alterEntries k f t.entries

/-- Looking a key up in a list of entries compares it with the first key, and goes on behind it. -/
theorem lookup_cons_eq (j : Nat) (e : Nat × β) (es : List (Nat × β)) :
    (e :: es).lookup j = if j = e.1 then some e.2 else es.lookup j := by
  obtain ⟨k, b⟩ := e
  rw [List.lookup_cons]
  by_cases h : j = k
  · subst h
    simp
  · have : (j == k) = false := by simpa using h
    simp [this, h]

theorem lookup_alterEntries (k : Nat) (f : Option β → β) (j : Nat) {es : List (Nat × β)}
    (h : Ascending (es.map Prod.fst)) :
    (alterEntries k f es).lookup j = if j = k then some (f (es.lookup k)) else es.lookup j := by
  induction es with
  | nil => simp [alterEntries, lookup_cons_eq]
  | cons e es ih =>
    obtain ⟨he, hes⟩ := List.pairwise_cons.1 h
    have absent : k < e.1 → es.lookup k = none := fun hk => by
      rw [List.lookup_eq_none_iff]
      intro p hp
      have := he p.1 (List.mem_map_of_mem hp)
      simp only [bne_iff_ne, ne_eq]
      omega
    simp only [alterEntries]
    split
    · rename_i hk
      have : ¬ k = e.1 := by omega
      simp [lookup_cons_eq, this, absent hk]
    · split
      · rename_i hk
        subst hk
        by_cases hj : j = e.1
        · simp [lookup_cons_eq, hj]
        · simp [lookup_cons_eq, hj]
      · rename_i h₁ h₂
        by_cases hj : j = e.1
        · have : ¬ e.1 = k := fun he' => h₂ he'.symm
          simp [lookup_cons_eq, hj, this]
        · simp [lookup_cons_eq, hj, h₂, ih hes]

/-- A change at `k` replaces the value there and leaves every other key alone. -/
theorem find?_alter (t : Table β) (k : Nat) (f : Option β → β) (j : Nat) :
    (t.alter k f).find? j = if j = k then some (f (t.find? k)) else t.find? j :=
  lookup_alterEntries k f j t.ascending

theorem lookup_filter (p : Nat × β → Bool) (k : Nat) {es : List (Nat × β)} (h : Ascending (es.map Prod.fst)) :
    (es.filter p).lookup k = (es.lookup k).filter fun b => p (k, b) := by
  induction es with
  | nil => rfl
  | cons e es ih =>
    obtain ⟨he, hes⟩ := List.pairwise_cons.1 h
    have absent : k = e.1 → (es.filter p).lookup k = none := fun hk => by
      rw [List.lookup_eq_none_iff]
      intro q hq
      have := he q.1 (List.mem_map_of_mem (List.mem_filter.1 hq).1)
      simp only [bne_iff_ne, ne_eq]
      omega
    by_cases hk : k = e.1
    · by_cases hp : p e = true
      · subst hk
        simp [hp, lookup_cons_eq, Option.filter]
      · rw [List.filter_cons_of_neg hp, absent hk]
        subst hk
        simp [lookup_cons_eq, hp, Option.filter]
    · by_cases hp : p e = true
      · simp [hp, lookup_cons_eq, hk, ih hes]
      · simp [hp, lookup_cons_eq, hk, ih hes]

/-- A filter keeps the value at a key that passes, and drops it otherwise. -/
theorem find?_filter (t : Table β) (p : Nat × β → Bool) (k : Nat) :
    (t.filter p).find? k = (t.find? k).filter fun b => p (k, b) :=
  lookup_filter p k t.ascending

end Table

/-- How often each number was counted. -/
abbrev Tally := Table Nat

namespace Tally

/-- Nothing counted yet. -/
def empty : Tally := Table.empty

/-- Counts `k` once more. -/
def add (t : Tally) (k : Nat) : Tally := t.alter k fun n => n.getD 0 + 1

/-- Counts every number of a list. -/
def addAll (t : Tally) (ks : List Nat) : Tally := ks.foldl add t

/-- How often `k` was counted. -/
def count (t : Tally) (k : Nat) : Nat := (t.find? k).getD 0

theorem count_add (t : Tally) (k j : Nat) : (t.add k).count j = t.count j + if j = k then 1 else 0 := by
  unfold count add
  rw [Table.find?_alter]
  split
  · rename_i h
    subst h
    rfl
  · rfl

theorem count_addAll (ks : List Nat) (t : Tally) (j : Nat) : (t.addAll ks).count j = t.count j + ks.count j := by
  induction ks generalizing t with
  | nil => rfl
  | cons k ks ih =>
    have : t.addAll (k :: ks) = (t.add k).addAll ks := rfl
    rw [this, ih, count_add, List.count_cons]
    by_cases h : j = k
    · subst h
      simp
      omega
    · have : (k == j) = false := by simpa using fun e => h e.symm
      simp [h, this]

end Tally

end ToleranceClustering
