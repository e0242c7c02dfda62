import Mathlib.Data.List.Sort
import ToleranceClustering.Text.WordSet

/-!
# Word sets as sets

Word sets are kept in ascending order (`pairwise_ofList`), so two of them with the same words are the same
(`words_ext`).
-/

namespace ToleranceClustering.Text.WordSet

theorem mem_foldl_insert {v : String} (ws : List String) (s : WordSet) :
    v ∈ (ws.foldl insert s).words ↔ v ∈ ws ∨ v ∈ s.words := by
  induction ws generalizing s with
  | nil => simp
  | cons w ws ih =>
    rw [List.foldl_cons, ih, mem_insert, List.mem_cons]
    grind

theorem mem_ofList {v : String} {ws : List String} : v ∈ (ofList ws).words ↔ v ∈ ws := by
  rw [ofList, mem_foldl_insert]
  simp [empty]

theorem pairwise_insertInto {w : String} {ws : List String} (h : ws.Pairwise (· < ·)) :
    (insertInto w ws).Pairwise (· < ·) := by
  induction ws with
  | nil => exact List.pairwise_singleton _ _
  | cons v vs ih =>
    obtain ⟨hv, hvs⟩ := List.pairwise_cons.1 h
    unfold insertInto
    split
    · exact h
    · rename_i hne
      split
      · rename_i hlt
        refine List.pairwise_cons.2 ⟨?_, h⟩
        intro u hu
        obtain rfl | hu := List.mem_cons.1 hu
        · exact hlt
        · exact String.lt_trans hlt (hv u hu)
      · rename_i hlt
        refine List.pairwise_cons.2 ⟨?_, ih hvs⟩
        intro u hu
        obtain rfl | hu := mem_insertInto.1 hu
        · grind
        · exact hv u hu

theorem pairwise_foldl_insert (ws : List String) {s : WordSet} (h : s.words.Pairwise (· < ·)) :
    (ws.foldl insert s).words.Pairwise (· < ·) := by
  induction ws generalizing s with
  | nil => exact h
  | cons w ws ih => exact ih (pairwise_insertInto h)

theorem pairwise_ofList (ws : List String) : (ofList ws).words.Pairwise (· < ·) :=
  pairwise_foldl_insert ws List.Pairwise.nil

/-- Sets in ascending order with the same words are the same set. -/
theorem words_ext {s t : WordSet} (hs : s.words.Pairwise (· < ·)) (ht : t.words.Pairwise (· < ·))
    (h : ∀ w, w ∈ s.words ↔ w ∈ t.words) : s = t :=
  congrArg WordSet.mk (hs.eq_of_mem_iff ht h)

end ToleranceClustering.Text.WordSet
