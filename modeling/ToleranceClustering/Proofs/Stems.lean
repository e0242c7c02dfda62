import ToleranceClustering.Text.Plural

/-!
# Stems

A word loses its ending exactly if it is in the plural (`Plural`): an `s` stands behind two bytes or more, and neither a
`u` nor an `s` stands before it. The words that are exceptions to the first two rules all fall to the third. What is left
of a plural does not end in `s` any more, so a stem is its own stem (`stem_stem`).

The stem can be cut out of the bytes of a word (`stemByBytes?`): the cuts never fall within a character
(`stemByBytes?_eq`), whatever stands before the ending.
-/

namespace ToleranceClustering.Text

/-! ## Bytes -/

theorem byteLength_cons (c : Char) (w : List Char) : byteLength (c :: w) = c.utf8Size + byteLength w := rfl

theorem byteLength_append (v w : List Char) : byteLength (v ++ w) = byteLength v + byteLength w := by
  induction v with
  | nil => exact (Nat.zero_add _).symm
  | cons c v ih =>
    rw [List.cons_append, byteLength_cons, byteLength_cons, ih, Nat.add_assoc]

/-- A character has at least one byte. -/
theorem length_le_byteLength (w : List Char) : w.length ≤ byteLength w := by
  induction w with
  | nil => exact Nat.le_refl 0
  | cons c w ih =>
    have hc := c.utf8Size_pos
    rw [List.length_cons, byteLength_cons]
    omega

theorem utf8ByteSize_ofList (w : List Char) : (String.ofList w).utf8ByteSize = byteLength w := by
  induction w with
  | nil => rfl
  | cons c w ih =>
    rw [← List.singleton_append, String.ofList_append, String.utf8ByteSize_append, ih]
    simp [byteLength_cons]

/-- The first `n` bytes of a text; none if they end within a character, or beyond the text. -/
def firstBytes? (s : String) (n : Nat) : Option String :=
  if h : String.Pos.Raw.IsValid s ⟨n⟩ then some (s.sliceTo ⟨⟨n⟩, h⟩).copy else none

/-- A text can be cut behind what it begins with. -/
theorem firstBytes?_append (s t : String) : firstBytes? (s ++ t) s.utf8ByteSize = some s := by
  have hvalid : String.Pos.Raw.IsValid (s ++ t) ⟨s.utf8ByteSize⟩ :=
    String.Pos.Raw.isValid_iff_exists_append.2 ⟨s, t, rfl, rfl⟩
  have hsplits : (⟨⟨s.utf8ByteSize⟩, hvalid⟩ : (s ++ t).Pos).Splits s t := ⟨rfl, rfl⟩
  rw [firstBytes?, dif_pos hvalid, hsplits.copy_sliceTo_eq]

/-- Leaving out the bytes of an ending leaves what stands before it. -/
theorem firstBytes?_ofList_append (v ending : List Char) :
    firstBytes? (String.ofList (v ++ ending)) (byteLength (v ++ ending) - byteLength ending) =
      some (String.ofList v) := by
  rw [byteLength_append, Nat.add_sub_cancel, String.ofList_append, ← utf8ByteSize_ofList]
  exact firstBytes?_append _ _

/-! ## Plurals -/

/-- A word in the plural: an `s` behind two bytes or more, and neither behind a `u` nor behind another `s`. -/
def Plural (w : List Char) : Prop :=
  ∃ v, w = v ++ ['s'] ∧ 1 < byteLength v ∧ v.getLast? ≠ some 'u' ∧ v.getLast? ≠ some 's'

theorem getLast?_of_plural {w : List Char} (h : Plural w) : w.getLast? = some 's' := by
  obtain ⟨v, rfl, -⟩ := h
  exact List.getLast?_concat

theorem exists_of_endsPlainlyIn {w : List Char} {ending : String} {exceptions : List String}
    (h : endsPlainlyIn w ending exceptions = true) : ∃ v, w = v ++ ending.toList := by
  obtain ⟨v, hv⟩ := List.isSuffixOf_iff_suffix.1 (Bool.and_eq_true_iff.1 h).1
  exact ⟨v, hv.symm⟩

/-- A word in front of its last letter ends as the whole word does. -/
theorem endsIn_concat (v : List Char) (c d : Char) :
    endsIn (v ++ [d]) (String.ofList [c, d]) = true ↔ v.getLast? = some c := by
  rw [endsIn, List.isSuffixOf_iff_suffix, String.toList_ofList]
  constructor
  · rintro ⟨u, hu⟩
    have hsplit : (u ++ [c]) ++ [d] = v ++ [d] := by simpa using hu
    rw [← List.append_cancel_right hsplit]
    exact List.getLast?_concat
  · intro h
    obtain ⟨u, rfl⟩ := List.getLast?_eq_some_iff.1 h
    exact ⟨u, by simp⟩

/-- The third rule takes the plurals. -/
theorem plural_iff {w : List Char} :
    Plural w ↔ 2 < byteLength w ∧ endsPlainlyIn w "s" ["us", "ss"] = true := by
  have hsize (v : List Char) : byteLength (v ++ ['s']) = byteLength v + 1 := byteLength_append v ['s']
  have hplain (v : List Char) : endsPlainlyIn (v ++ ['s']) "s" ["us", "ss"] = true ↔
      v.getLast? ≠ some 'u' ∧ v.getLast? ≠ some 's' := by
    have hends : endsIn (v ++ ['s']) "s" = true := List.isSuffixOf_iff_suffix.2 (List.suffix_append v _)
    have hu := endsIn_concat v 'u' 's'
    have hs := endsIn_concat v 's' 's'
    simp only [String.reduceOfList] at hu hs
    simp [endsPlainlyIn, hends, ← hu, ← hs]
  constructor
  · rintro ⟨v, rfl, hlong, hlast⟩
    rw [hsize, hplain]
    exact ⟨Nat.succ_lt_succ hlong, hlast⟩
  · rintro ⟨hlong, hends⟩
    obtain ⟨v, rfl⟩ := exists_of_endsPlainlyIn hends
    have hlong' : 2 < byteLength (v ++ ['s']) := hlong
    rw [hsize] at hlong'
    exact ⟨v, rfl, Nat.lt_of_succ_lt_succ hlong', (hplain v).1 hends⟩

/-- What a rule takes that ends in an `s` behind an `e` is in the plural. -/
theorem plural_of_es {v : List Char} (h : 3 < byteLength (v ++ ['e', 's'])) : Plural (v ++ ['e', 's']) := by
  refine ⟨v ++ ['e'], by simp, ?_, by simp, by simp⟩
  rw [byteLength_append] at h ⊢
  exact Nat.lt_of_succ_lt_succ (Nat.lt_of_succ_lt h)

/-! ## Stems of plurals -/

/-- A word that is not in the plural is its own stem: what the first two rules take is in the plural as well. -/
theorem stem_of_not_plural {w : List Char} (h : ¬Plural w) : stem w = w := by
  unfold stem
  split
  · rename_i hies
    obtain ⟨v, rfl⟩ := exists_of_endsPlainlyIn hies.2
    have hsplit : v ++ "ies".toList = (v ++ ['i']) ++ ['e', 's'] := by simp
    rw [hsplit] at h hies
    exact absurd (plural_of_es hies.1) h
  · split
    · rename_i hes
      obtain ⟨v, rfl⟩ := exists_of_endsPlainlyIn hes.2
      exact absurd (plural_of_es hes.1) h
    · exact if_neg fun hs => h (plural_iff.2 hs)

/-- A plural has `y` for its final `ies`, or loses its final `s`. Something is left in front of the ending, and no `s` is
left at the end. -/
theorem stem_of_plural {w : List Char} (h : Plural w) :
    (∃ v, w = v ++ ['i', 'e', 's'] ∧ v ≠ [] ∧ stem w = v ++ ['y']) ∨
      ∃ v, w = v ++ ['s'] ∧ 1 < byteLength v ∧ v.getLast? ≠ some 's' ∧ stem w = v := by
  have hs := plural_iff.1 h
  obtain ⟨v, rfl, hlong, -, hlast⟩ := h
  unfold stem
  split
  · rename_i hies
    obtain ⟨u, hu⟩ := exists_of_endsPlainlyIn hies.2
    rw [hu]
    refine Or.inl ⟨u, rfl, ?_, by simp⟩
    rintro rfl
    exact absurd (hu ▸ hies.1) (by decide)
  · rw [ite_self]
    exact Or.inr ⟨v, rfl, hlong, hlast, List.dropLast_concat⟩

/-- A stem is the word itself, the word with `y` for its final `ies`, or the word without its final `s`; something is
left of the word in front of what is taken away. -/
theorem stem_cases (w : List Char) :
    stem w = w ∨ (∃ v, w = v ++ ['i', 'e', 's'] ∧ v ≠ [] ∧ stem w = v ++ ['y']) ∨
      ∃ v, w = v ++ ['s'] ∧ 1 < byteLength v ∧ stem w = v := by
  by_cases h : Plural w
  · rcases stem_of_plural h with hies | ⟨v, hw, hlong, -, hs⟩
    · exact Or.inr (Or.inl hies)
    · exact Or.inr (Or.inr ⟨v, hw, hlong, hs⟩)
  · exact Or.inl (stem_of_not_plural h)

theorem getLast?_stem_of_plural {w : List Char} (h : Plural w) : (stem w).getLast? ≠ some 's' := by
  rcases stem_of_plural h with ⟨v, -, -, hs⟩ | ⟨v, -, -, hlast, hs⟩
  · rw [hs, List.getLast?_concat]
    decide
  · rw [hs]
    exact hlast

theorem stem_eq_self_iff {w : List Char} : stem w = w ↔ ¬Plural w := by
  refine ⟨fun hs h => ?_, stem_of_not_plural⟩
  have hlast := getLast?_stem_of_plural h
  rw [hs] at hlast
  exact hlast (getLast?_of_plural h)

/-- Stems have no other stems. -/
theorem stem_stem (w : List Char) : stem (stem w) = stem w := by
  refine stem_eq_self_iff.2 fun h => ?_
  by_cases hw : Plural w
  · exact getLast?_stem_of_plural hw (getLast?_of_plural h)
  · rw [stem_of_not_plural hw] at h
    exact hw h

theorem byteLength_stem_le (w : List Char) : byteLength (stem w) ≤ byteLength w := by
  rcases stem_cases w with hs | ⟨v, rfl, -, hs⟩ | ⟨v, rfl, -, hs⟩
  · exact Nat.le_of_eq (congrArg byteLength hs)
  · rw [hs, byteLength_append, byteLength_append]
    exact Nat.add_le_add_left (by decide) _
  · rw [hs, byteLength_append]
    exact Nat.le_add_right _ _

theorem stem_eq_nil_iff {w : List Char} : stem w = [] ↔ w = [] := by
  constructor
  · intro h
    rcases stem_cases w with hs | ⟨v, -, -, hs⟩ | ⟨v, -, hlong, hs⟩
    · rwa [hs] at h
    · rw [hs] at h
      simp at h
    · rw [hs] at h
      subst h
      exact absurd hlong (by decide)
  · rintro rfl
    rfl

/-! ## Cutting bytes -/

/-- The stem, cut out of the bytes of a word; none if a cut falls within a character. -/
def stemByBytes? (w : String) : Option String :=
  if 3 < w.utf8ByteSize ∧ endsPlainlyIn w.toList "ies" ["eies", "aies"] then
    (firstBytes? w (w.utf8ByteSize - 3)).map (· ++ "y")
  else if 3 < w.utf8ByteSize ∧ endsPlainlyIn w.toList "es" ["aes", "ees", "oes"] then firstBytes? w (w.utf8ByteSize - 1)
  else if 2 < w.utf8ByteSize ∧ endsPlainlyIn w.toList "s" ["us", "ss"] then firstBytes? w (w.utf8ByteSize - 1)
  else some w

/-- No cut falls within a character: what is cut off are letters of one byte. -/
theorem stemByBytes?_eq (w : List Char) : stemByBytes? (String.ofList w) = some (String.ofList (stem w)) := by
  have hcut {ending : List Char} {n : Nat} (hn : byteLength ending = n) (v : List Char) :
      firstBytes? (String.ofList (v ++ ending)) (byteLength (v ++ ending) - n) = some (String.ofList v) :=
    hn ▸ firstBytes?_ofList_append v ending
  have hs (h : ∃ v, w = v ++ ['s']) :
      firstBytes? (String.ofList w) (byteLength w - 1) = some (String.ofList w.dropLast) := by
    obtain ⟨v, rfl⟩ := h
    rw [List.dropLast_concat]
    exact hcut rfl v
  rw [stemByBytes?, stem, utf8ByteSize_ofList, String.toList_ofList]
  by_cases hies : 3 < byteLength w ∧ endsPlainlyIn w "ies" ["eies", "aies"]
  · rw [if_pos hies, if_pos hies]
    obtain ⟨v, rfl⟩ := exists_of_endsPlainlyIn hies.2
    have hthree : firstBytes? (String.ofList (v ++ "ies".toList)) (byteLength (v ++ "ies".toList) - 3) =
        some (String.ofList v) := hcut rfl v
    have htake : (v ++ "ies".toList).take ((v ++ "ies".toList).length - 3) = v := by simp
    rw [hthree, htake, String.ofList_append]
    rfl
  · rw [if_neg hies, if_neg hies]
    by_cases hes : 3 < byteLength w ∧ endsPlainlyIn w "es" ["aes", "ees", "oes"]
    · rw [if_pos hes, if_pos hes]
      obtain ⟨v, rfl⟩ := exists_of_endsPlainlyIn hes.2
      exact hs ⟨v ++ ['e'], by simp⟩
    · rw [if_neg hes, if_neg hes]
      by_cases hplain : 2 < byteLength w ∧ endsPlainlyIn w "s" ["us", "ss"]
      · rw [if_pos hplain, if_pos hplain]
        exact hs (exists_of_endsPlainlyIn hplain.2)
      · rw [if_neg hplain, if_neg hplain]

/-- Stems are cut between characters. A stem has no other stem, is no longer than the word, and is empty only if the word
is. A word that is not in the plural is its own stem. The stem of a plural does not end in `s`; it is the word without its
last `s`, or with a `y` for its final `ies`. -/
theorem stems_are_final (w : List Char) :
    stemByBytes? (String.ofList w) = some (String.ofList (stem w)) ∧
      stem (stem w) = stem w ∧
      byteLength (stem w) ≤ byteLength w ∧
      (stem w = [] ↔ w = []) ∧
      (stem w = w ∨ stem w ++ ['s'] = w ∨ ∃ v, v ++ ['i', 'e', 's'] = w ∧ stem w = v ++ ['y']) ∧
      (stem w = w ∨ (stem w).getLast? ≠ some 's') ∧
      (stem w = w ↔ ¬Plural w) := by
  refine ⟨stemByBytes?_eq w, stem_stem w, byteLength_stem_le w, stem_eq_nil_iff, ?_, ?_,
    stem_eq_self_iff⟩
  · rcases stem_cases w with hs | ⟨v, rfl, -, hs⟩ | ⟨v, rfl, -, hs⟩
    · exact Or.inl hs
    · exact Or.inr (Or.inr ⟨v, rfl, hs⟩)
    · exact Or.inr (Or.inl (by rw [hs]))
  · by_cases h : Plural w
    · exact Or.inr (getLast?_stem_of_plural h)
    · exact Or.inl (stem_of_not_plural h)

/-- An exception to the second rule falls to the third. -/
example : stem "shoes".toList = "shoe".toList := by decide

end ToleranceClustering.Text
