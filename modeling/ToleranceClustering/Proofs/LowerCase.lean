import ToleranceClustering.Text.Word

/-!
# Lower case

Lower-case forms consist of characters that are their own lower-case forms (`lowercase_of_mem_lowercase`), and letters
and numbers keep to letters and numbers, the capital I with a dot above aside (`isAlphanumeric_of_mem_lowercase`). Both
are read off the table of case runs, once for a whole run.

The form of a text is that of its characters, unless it has a capital sigma at the end of a word
(`lowercaseText_eq_lowercaseEach_iff`).
-/

namespace ToleranceClustering.Text

/-! ## The table -/

namespace CaseRun

/-- The last of the lower-case code points of a run. -/
def targetLast (r : CaseRun) : Nat := r.target + (r.last - r.first)

/-- Whether the lower-case code points of a run are all left alone by some runs: each of these lies before them or
behind them, or has the code points between them. -/
def isFixedBy (r : CaseRun) : List CaseRun → Bool
  | [] => true
  | s :: ss =>
    r.targetLast.blt s.first ||
      (s.last.blt r.target ||
        s.step.beq 2 && (r.step.beq 2 || r.first.beq r.last) && ((r.target + s.first) % 2).beq 1) && r.isFixedBy ss

/-- Whether the lower-case code points of a run are those of characters, and none is that of the dotted capital I. -/
def targetsChars (r : CaseRun) : Bool :=
  (r.targetLast.blt 0xD800 || Nat.blt 0xDFFF r.target && r.targetLast.blt 0x110000) &&
    (r.targetLast.blt 0x130 || Nat.blt 0x130 r.target)

/-- Whether the lower-case code points of a run lie in one of some ranges. -/
def targetsWithin (r : CaseRun) (ranges : List (Nat × Nat)) : Bool :=
  ranges.any fun s => s.1.ble r.target && r.targetLast.ble s.2

end CaseRun

theorem isFixedBy_caseRuns : (caseRuns.all fun r => r.isFixedBy caseRuns) = true := by decide +kernel

theorem targetsChars_caseRuns : caseRuns.all CaseRun.targetsChars = true := by decide +kernel

theorem targetsWithin_alphabetic : (caseRuns.all fun r => r.targetsWithin alphabeticRanges) = true := by decide +kernel

theorem apart_alphabeticRanges : apart alphabeticRanges = true := by decide +kernel

/-- The lower-case code points of a run are no surrogates, and none is that of the dotted capital I. -/
theorem target_of_mem {r : CaseRun} (hr : r ∈ caseRuns) :
    (r.targetLast < 0xD800 ∨ 0xDFFF < r.target ∧ r.targetLast < 0x110000) ∧
      (r.targetLast < 0x130 ∨ 0x130 < r.target) := by
  have h := List.all_eq_true.1 targetsChars_caseRuns r hr
  simpa only [CaseRun.targetsChars, Bool.and_eq_true, Bool.or_eq_true, Nat.blt_eq] using h

/-- A code point is left alone, or it is one of a run and becomes the one at the same distance from the target. -/
theorem lowerCodePoint_cases (n : Nat) (rs : List CaseRun) :
    lowerCodePoint n rs = n ∨ ∃ r ∈ rs, r.first ≤ n ∧ n ≤ r.last ∧ (n - r.first) % r.step = 0 ∧
      lowerCodePoint n rs = r.target + (n - r.first) := by
  induction rs with
  | nil => exact Or.inl rfl
  | cons r rs ih =>
    rw [lowerCodePoint]
    split
    · exact Or.inl rfl
    · split
      · rename_i hfirst hrun
        exact Or.inr ⟨r, List.mem_cons_self, by omega, hrun.1, hrun.2, rfl⟩
      · refine ih.imp_right ?_
        rintro ⟨s, hs, hspec⟩
        exact ⟨s, List.mem_cons_of_mem r hs, hspec⟩

/-- Code points of a run's targets are left alone by the runs that fix it. -/
theorem lowerCodePoint_of_isFixedBy {r : CaseRun} {rs : List CaseRun} (h : r.isFixedBy rs = true) {d : Nat}
    (hd : d ≤ r.last - r.first) (hstep : d % r.step = 0) : lowerCodePoint (r.target + d) rs = r.target + d := by
  induction rs with
  | nil => rfl
  | cons s ss ih =>
    simp only [CaseRun.isFixedBy, CaseRun.targetLast, Bool.or_eq_true, Bool.and_eq_true, Nat.blt_eq, Nat.beq_eq] at h
    rw [lowerCodePoint]
    split
    · rfl
    · rename_i hfirst
      rcases h with h | ⟨hmiss, hrest⟩
      · omega
      · rw [if_neg, ih hrest]
        rintro ⟨hlast, hhit⟩
        rcases hmiss with h | ⟨⟨htwo, hthin⟩, hodd⟩
        · omega
        · -- the points of `r` are two apart, or only one, and those of `s` lie between them
          have heven : d % 2 = 0 := by
            rcases hthin with h | h
            · rwa [h] at hstep
            · omega
          rw [htwo] at hhit
          omega

/-- A lower-case code point is left alone. -/
theorem lowerCodePoint_lowerCodePoint (n : Nat) :
    lowerCodePoint (lowerCodePoint n caseRuns) caseRuns = lowerCodePoint n caseRuns := by
  rcases lowerCodePoint_cases n caseRuns with h | ⟨r, hr, hfirst, hlast, hstep, h⟩
  · rw [h, h]
  · rw [h]
    exact lowerCodePoint_of_isFixedBy (List.all_eq_true.1 isFixedBy_caseRuns r hr) (by omega) hstep

/-- The code point of the lower-case form of a character is that of a character. -/
theorem toNat_lower (c : Char) :
    (Char.ofNat (lowerCodePoint c.toNat caseRuns)).toNat = lowerCodePoint c.toNat caseRuns := by
  rcases lowerCodePoint_cases c.toNat caseRuns with h | ⟨r, hr, hfirst, hlast, -, h⟩
  · rw [h, Char.ofNat_toNat]
  · obtain ⟨hvalid, -⟩ := target_of_mem hr
    rw [CaseRun.targetLast] at hvalid
    have hchar : (r.target + (c.toNat - r.first)).isValidChar := by
      simp only [Nat.isValidChar]
      omega
    rw [h, Char.ofNat, dif_pos hchar]
    rfl

/-! ## Characters -/

theorem lowercase_of_ne {c : Char} (h : c ≠ 'İ') : lowercase c = [Char.ofNat (lowerCodePoint c.toNat caseRuns)] :=
  if_neg h

/-- No lower-case form is the dotted capital I. -/
theorem lower_ne_dotted {c : Char} (h : c ≠ 'İ') : Char.ofNat (lowerCodePoint c.toNat caseRuns) ≠ 'İ' := by
  intro he
  have hcode : lowerCodePoint c.toNat caseRuns = 0x130 := by
    rw [← toNat_lower, he]
    rfl
  rcases lowerCodePoint_cases c.toNat caseRuns with hn | ⟨r, hr, hfirst, hlast, -, hn⟩
  · rw [hn, Char.ofNat_toNat] at he
    exact h he
  · obtain ⟨-, hdotted⟩ := target_of_mem hr
    rw [CaseRun.targetLast] at hdotted
    omega

/-- A lower-case form consists of characters that are their own lower-case forms. -/
theorem lowercase_of_mem_lowercase {c d : Char} (h : d ∈ lowercase c) : lowercase d = [d] := by
  by_cases hc : c = 'İ'
  · subst hc
    have hform : lowercase 'İ' = ['i', '\u0307'] := if_pos rfl
    rw [hform, List.mem_cons, List.mem_singleton] at h
    rcases h with rfl | rfl <;> decide
  · rw [lowercase_of_ne hc, List.mem_singleton] at h
    subst h
    rw [lowercase_of_ne (lower_ne_dotted hc), toNat_lower, lowerCodePoint_lowerCodePoint]

/-- Letters and numbers become letters and numbers, except for the dotted capital I. -/
theorem isAlphanumeric_of_mem_lowercase {c d : Char} (hc : c ≠ 'İ') (halpha : isAlphanumeric c = true)
    (h : d ∈ lowercase c) : isAlphanumeric d = true := by
  rw [lowercase_of_ne hc, List.mem_singleton] at h
  subst h
  rcases lowerCodePoint_cases c.toNat caseRuns with hn | ⟨r, hr, hfirst, hlast, -, hn⟩
  · rwa [hn, Char.ofNat_toNat]
  · have hrange := List.all_eq_true.1 targetsWithin_alphabetic r hr
    obtain ⟨s, hs, hin⟩ := List.any_eq_true.1 hrange
    simp only [CaseRun.targetLast, Bool.and_eq_true, Nat.ble_eq] at hin
    rw [isAlphanumeric, isAlphabetic, toNat_lower, inRanges_eq_any apart_alphabeticRanges, Bool.or_eq_true]
    refine Or.inl (List.any_eq_true.2 ⟨s, hs, ?_⟩)
    rw [hn, Bool.and_eq_true, decide_eq_true_iff, decide_eq_true_iff]
    omega

/-! ## Texts -/

theorem lowercaseEach_cons (c : Char) (cs : List Char) : lowercaseEach (c :: cs) = lowercase c ++ lowercaseEach cs :=
  List.flatMap_cons

/-- A text of characters that are their own lower-case forms is its own lower-case form. -/
theorem lowercaseEach_eq_self {cs : List Char} (h : ∀ c ∈ cs, lowercase c = [c]) : lowercaseEach cs = cs := by
  induction cs with
  | nil => rfl
  | cons c cs ih =>
    obtain ⟨hc, hcs⟩ := List.forall_mem_cons.1 h
    rw [lowercaseEach_cons, hc, ih hcs, List.singleton_append]

/-- What becomes of the first character of the rest of a text. -/
def lowercaseFirst (before : List Char) (c : Char) (cs : List Char) : List Char :=
  if c = 'Σ' then (if startsCased before && !startsCased cs then ['ς'] else ['σ']) else lowercase c

theorem lowercaseAfter_cons (before : List Char) (c : Char) (cs : List Char) :
    lowercaseAfter before (c :: cs) = lowercaseFirst before c cs ++ lowercaseAfter (c :: before) cs := rfl

/-- A sigma becomes one of the two small ones, and any other character its own form. -/
theorem lowercaseFirst_cases (before : List Char) (c : Char) (cs : List Char) :
    lowercaseFirst before c cs = lowercase c ∨ c = 'Σ' ∧ startsCased before = true ∧ startsCased cs = false ∧
      lowercaseFirst before c cs = ['ς'] := by
  unfold lowercaseFirst
  split
  · rename_i hc
    subst hc
    split
    · rename_i hfinal
      rw [Bool.and_eq_true, Bool.not_eq_true'] at hfinal
      exact Or.inr ⟨rfl, hfinal.1, hfinal.2, rfl⟩
    · exact Or.inl (by decide)
  · exact Or.inl rfl

/-- The characters of the form of a text satisfy what the final sigma and the forms of the text's characters satisfy. -/
theorem forall_mem_lowercaseAfter {p : Char → Prop} (hsigma : p 'ς') {cs : List Char}
    (h : ∀ c ∈ cs, ∀ d ∈ lowercase c, p d) (before : List Char) : ∀ d ∈ lowercaseAfter before cs, p d := by
  induction cs generalizing before with
  | nil => exact fun d hd => absurd hd List.not_mem_nil
  | cons c cs ih =>
    obtain ⟨hc, hcs⟩ := List.forall_mem_cons.1 h
    intro d hd
    rw [lowercaseAfter_cons, List.mem_append] at hd
    rcases hd with hd | hd
    · rcases lowercaseFirst_cases before c cs with hform | ⟨-, -, -, hform⟩
      · rw [hform] at hd
        exact hc d hd
      · rw [hform, List.mem_singleton] at hd
        exact hd ▸ hsigma
    · exact ih hcs (c :: before) d hd

/-- The form of a text is its own lower-case form. -/
theorem lowercaseEach_lowercaseText (cs : List Char) : lowercaseEach (lowercaseText cs) = lowercaseText cs :=
  lowercaseEach_eq_self (forall_mem_lowercaseAfter (by decide) (fun _ _ _ hd => lowercase_of_mem_lowercase hd) [])

/-! ## The final sigma -/

/-- A capital sigma in a text, after the characters of `before`, the last of them first, that ends a word: there is a
letter before it and none after it. -/
def FinalSigmaAfter (before cs : List Char) : Prop :=
  ∃ xs ys, cs = xs ++ 'Σ' :: ys ∧ startsCased (xs.reverse ++ before) = true ∧ startsCased ys = false

/-- A capital sigma in a text that ends a word. -/
def FinalSigma (cs : List Char) : Prop := FinalSigmaAfter [] cs

/-- A final sigma is the first character or comes later. -/
theorem finalSigmaAfter_cons {before : List Char} {c : Char} {cs : List Char} :
    FinalSigmaAfter before (c :: cs) ↔
      (c = 'Σ' ∧ startsCased before = true ∧ startsCased cs = false) ∨ FinalSigmaAfter (c :: before) cs := by
  constructor
  · rintro ⟨xs, ys, he, hbefore, hafter⟩
    cases xs with
    | nil =>
      obtain ⟨rfl, rfl⟩ := List.cons.inj he
      exact Or.inl ⟨rfl, hbefore, hafter⟩
    | cons x xs =>
      obtain ⟨rfl, rfl⟩ := List.cons.inj he
      rw [List.reverse_cons, List.append_assoc, List.singleton_append] at hbefore
      exact Or.inr ⟨xs, ys, rfl, hbefore, hafter⟩
  · rintro (⟨rfl, hbefore, hafter⟩ | ⟨xs, ys, rfl, hbefore, hafter⟩)
    · exact ⟨[], cs, rfl, hbefore, hafter⟩
    · refine ⟨c :: xs, ys, rfl, ?_, hafter⟩
      rwa [List.reverse_cons, List.append_assoc, List.singleton_append]

theorem lowercaseAfter_eq_lowercaseEach_iff (before cs : List Char) :
    lowercaseAfter before cs = lowercaseEach cs ↔ ¬FinalSigmaAfter before cs := by
  induction cs generalizing before with
  | nil =>
    refine iff_of_true rfl ?_
    rintro ⟨xs, ys, he, -⟩
    exact List.append_ne_nil_of_right_ne_nil xs (List.cons_ne_nil 'Σ' ys) he.symm
  | cons c cs ih =>
    rw [lowercaseAfter_cons, lowercaseEach_cons, finalSigmaAfter_cons, not_or, ← ih]
    rcases lowercaseFirst_cases before c cs with hform | ⟨rfl, hbefore, hafter, hform⟩
    · rw [hform, List.append_cancel_left_eq]
      refine (and_iff_right_of_imp fun _ => ?_).symm
      rintro ⟨rfl, hbefore, hafter⟩
      rw [lowercaseFirst, if_pos rfl, hbefore, hafter] at hform
      exact absurd hform (by decide)
    · rw [hform]
      have hsigma : lowercase 'Σ' = ['σ'] := by decide
      rw [hsigma]
      refine iff_of_false ?_ fun h => h.1 ⟨rfl, hbefore, hafter⟩
      intro he
      exact absurd (List.cons.inj he).1 (by decide)

/-- The form of a text is that of its characters, unless it has a final sigma. -/
theorem lowercaseText_eq_lowercaseEach_iff (cs : List Char) :
    lowercaseText cs = lowercaseEach cs ↔ ¬FinalSigma cs :=
  lowercaseAfter_eq_lowercaseEach_iff [] cs

end ToleranceClustering.Text
