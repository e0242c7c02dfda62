import Mathlib.Data.Finset.Card
import ToleranceClustering.Proofs.SharedCounts

/-!
# One pass over two lists

The common elements of two lists are counted in one pass that keeps a place in each (`Pass`). Every turn reads the
elements at both places and goes beyond the smaller one, or beyond both and counts one where they are equal; the end of
either list ends the pass.

What was counted and what the unread rests still share come to the same at every turn (`total_turn`), so the pass counts
what `Ascending.sharedCount` does, whatever the lists are (`count_eq_sharedCount`), and for ascending lists that is the size
of the intersection (`count_eq_card`). With the lists exchanged, the pass goes through the mirrored turns (`run_mirror`).
-/

namespace ToleranceClustering

theorem Ascending.sharedCount_eq_card {xs ys : List Nat} (hx : Ascending xs) (hy : Ascending ys) :
    sharedCount xs ys = (xs.toFinset ∩ ys.toFinset).card := by
  have hfilter : (xs.filter fun a => ys.contains a).toFinset = xs.toFinset ∩ ys.toFinset := by
    ext a
    simp
  rw [sharedCount_eq_countP hx hy, List.countP_eq_length_filter, ← hfilter,
    List.toFinset_card_of_nodup (hx.nodup.filter _)]

/-- Where a pass over two lists stands: the place in each that is read next, and how often equal elements were read. -/
structure Pass where
  left : Nat
  right : Nat
  met : Nat
deriving DecidableEq, Repr

namespace Pass

/-- The beginning of both lists. -/
def start : Pass := ⟨0, 0, 0⟩

/-- A pass that reads `x` in the one list and `y` in the other goes beyond the smaller one, or beyond both and counts them
if they are equal. -/
def turn (x y : Nat) (p : Pass) : Pass :=
  match compare x y with
  | .lt => { p with left := p.left + 1 }
  | .gt => { p with right := p.right + 1 }
  | .eq => ⟨p.left + 1, p.right + 1, p.met + 1⟩

theorem turn_of_lt {x y : Nat} (h : x < y) (p : Pass) : p.turn x y = { p with left := p.left + 1 } := by
  simp [turn, Nat.compare_eq_lt.2 h]

theorem turn_of_gt {x y : Nat} (h : y < x) (p : Pass) : p.turn x y = { p with right := p.right + 1 } := by
  simp [turn, Nat.compare_eq_gt.2 h]

theorem turn_self (x : Nat) (p : Pass) : p.turn x x = ⟨p.left + 1, p.right + 1, p.met + 1⟩ := by
  simp [turn]

/-- How many elements of two lists are still to be passed. -/
def unread (xs ys : List Nat) (p : Pass) : Nat := (xs.length - p.left) + (ys.length - p.right)

/-- Every turn leaves less to be read. -/
theorem unread_turn_lt {xs ys : List Nat} {p : Pass} (hl : p.left < xs.length) (hr : p.right < ys.length) (x y : Nat) :
    (p.turn x y).unread xs ys < p.unread xs ys := by
  rcases Nat.lt_trichotomy x y with h | rfl | h
  · simp only [turn_of_lt h, unread]
    omega
  · simp only [turn_self, unread]
    omega
  · simp only [turn_of_gt h, unread]
    omega

/-- Reads on from where a pass stands until either list ends. -/
def run (xs ys : List Nat) (p : Pass) : Pass :=
  if h : p.left < xs.length ∧ p.right < ys.length then run xs ys (p.turn xs[p.left] ys[p.right]) else p
termination_by p.unread xs ys
decreasing_by exact unread_turn_lt h.1 h.2 _ _

/-- How often a pass over two lists reads equal elements. -/
def count (xs ys : List Nat) : Nat := (run xs ys start).met

/-! ## What a turn keeps -/

/-- What a pass comes to: what it has met, and what the unread rests share. -/
def total (xs ys : List Nat) (p : Pass) : Nat :=
  p.met + Ascending.sharedCount (xs.drop p.left) (ys.drop p.right)

theorem total_turn {xs ys : List Nat} {p : Pass} (hl : p.left < xs.length) (hr : p.right < ys.length) :
    (p.turn xs[p.left] ys[p.right]).total xs ys = p.total xs ys := by
  have hxs := List.drop_eq_getElem_cons hl
  have hys := List.drop_eq_getElem_cons hr
  rcases Nat.lt_trichotomy xs[p.left] ys[p.right] with h | h | h
  · rw [turn_of_lt h, total, total, hxs, hys, Ascending.sharedCount_cons_cons, if_pos h]
  · rw [h, turn_self, total, total, hxs, hys, h, Ascending.sharedCount_cons_cons, if_neg (Nat.lt_irrefl _),
      if_neg (Nat.lt_irrefl _), Nat.add_assoc, Nat.add_comm 1]
  · rw [turn_of_gt h, total, total, hxs, hys, Ascending.sharedCount_cons_cons, if_neg (Nat.lt_asymm h), if_pos h]

/-- A pass that has come to the end of either list has met all that it comes to. -/
theorem met_of_ended {xs ys : List Nat} {p : Pass} (h : ¬(p.left < xs.length ∧ p.right < ys.length)) :
    p.met = p.total xs ys := by
  rcases Nat.lt_or_ge p.left xs.length with hl | hl
  · have hr : ys.length ≤ p.right := Nat.not_lt.1 fun hr => h ⟨hl, hr⟩
    rw [total, List.drop_eq_nil_of_le hr, Ascending.sharedCount_nil_right, Nat.add_zero]
  · rw [total, List.drop_eq_nil_of_le hl]
    rfl

theorem met_run (xs ys : List Nat) (p : Pass) : (p.run xs ys).met = p.total xs ys := by
  fun_induction run xs ys p with
  | case1 p h ih => rw [ih, total_turn h.1 h.2]
  | case2 p h => exact met_of_ended h

/-- A pass counts what the recursion over both lists does, also where these are not ascending. -/
theorem count_eq_sharedCount (xs ys : List Nat) : count xs ys = Ascending.sharedCount xs ys :=
  (met_run xs ys start).trans (Nat.zero_add _)

/-- A pass over two ascending lists counts the numbers that are in both. -/
theorem count_eq_card {xs ys : List Nat} (hx : Ascending xs) (hy : Ascending ys) :
    count xs ys = (xs.toFinset ∩ ys.toFinset).card :=
  (count_eq_sharedCount xs ys).trans (hx.sharedCount_eq_card hy)

theorem count_le_left (xs ys : List Nat) : count xs ys ≤ xs.length :=
  count_eq_sharedCount xs ys ▸ Ascending.sharedCount_le_left xs ys

theorem count_le_right (xs ys : List Nat) : count xs ys ≤ ys.length :=
  count_eq_sharedCount xs ys ▸ Ascending.sharedCount_le_right xs ys

/-! ## The lists exchanged -/

/-- The same place in the lists exchanged. -/
def mirror (p : Pass) : Pass := ⟨p.right, p.left, p.met⟩

theorem turn_mirror (x y : Nat) (p : Pass) : p.mirror.turn y x = (p.turn x y).mirror := by
  rcases Nat.lt_trichotomy x y with h | rfl | h
  · rw [turn_of_lt h, turn_of_gt h]
    rfl
  · rw [turn_self, turn_self]
    rfl
  · rw [turn_of_gt h, turn_of_lt h]
    rfl

/-- Over the lists exchanged a pass makes the mirrored turns, one for one. -/
theorem run_mirror (xs ys : List Nat) (p : Pass) : p.mirror.run ys xs = (p.run xs ys).mirror := by
  fun_induction run xs ys p with
  | case1 p h ih =>
    have hturn : p.mirror.run ys xs = (p.mirror.turn ys[p.right] xs[p.left]).run ys xs := by
      rw [run]
      exact dif_pos h.symm
    rw [hturn, turn_mirror, ih]
  | case2 p h =>
    rw [run]
    exact dif_neg fun h' => h h'.symm

theorem count_comm (xs ys : List Nat) : count xs ys = count ys xs :=
  (congrArg met (run_mirror xs ys start)).symm

end Pass

end ToleranceClustering
