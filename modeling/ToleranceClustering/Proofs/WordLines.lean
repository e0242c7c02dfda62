import ToleranceClustering.Proofs.ListedWords
import ToleranceClustering.Proofs.WordSets

/-!
# The lines of a word list

Bytes are read as lines wherever a line feed stands, with or without a carriage return before it. Any way to write the
bytes as lines with ends (`WrittenLines`) tells the words that are read (`mem_read`) and whether all of it is text
(`exists_read`). The order of the lines, how often each is there, how it ends and the lines without a word make no
difference (`read_eq_of_sameLines`).
-/

namespace ToleranceClustering.Text.WordList

/-! ## Carriage returns -/

theorem fromUTF8?_eq_some {line : List UInt8} {text : String} :
    String.fromUTF8? ⟨line.toArray⟩ = some text ↔ text.toList.flatMap String.utf8EncodeChar = line := by
  have hbytes : text.toList.flatMap String.utf8EncodeChar = line ↔ text.toByteArray = ⟨line.toArray⟩ := by
    rw [← String.utf8Encode_toList, List.utf8Encode, ByteArray.ext_iff, List.data_toByteArray]
    simp
  rw [hbytes, String.fromUTF8?]
  constructor
  · intro h
    split at h
    · rw [← Option.some.inj h]
      rfl
    · cases h
  · intro h
    rw [← h, dif_pos text.isValidUTF8]
    rfl

/-- Only a carriage return has an encoding that ends with its byte: the bytes after the first one of a character are
larger. -/
theorem utf8EncodeChar_eq_concat {c : Char} {front : List UInt8} (h : String.utf8EncodeChar c = front ++ [13]) :
    c = '\r' ∧ front = [] := by
  have hfound : (String.utf8EncodeChar c)[front.length]? = some 13 := by
    simp [h]
  obtain ⟨_, hlast⟩ := List.getElem?_eq_some_iff.1 hfound
  have hfirst : (13 : UInt8).IsUTF8FirstByte := by decide
  rw [← hlast, UInt8.isUTF8FirstByte_getElem_utf8EncodeChar] at hfirst
  obtain rfl := List.length_eq_zero_iff.1 hfirst
  have hsize : c.utf8Size = 1 := by
    rw [← String.length_utf8EncodeChar, h]
    rfl
  rw [String.utf8EncodeChar_eq_singleton hsize, List.nil_append, List.singleton_inj] at h
  have hsmall : c.val.toNat ≤ 127 := Char.utf8Size_eq_one_iff.1 hsize
  have hbyte : c.val.toNat % 256 = 13 := congrArg UInt8.toNat h
  have hval : c.val.toNat = 13 := by omega
  exact ⟨Char.ext (UInt32.toNat_inj.1 hval), rfl⟩

theorem eq_concat_return {cs : List Char} {line : List UInt8}
    (h : cs.flatMap String.utf8EncodeChar = line ++ [13]) :
    ∃ ds, cs = ds ++ ['\r'] ∧ ds.flatMap String.utf8EncodeChar = line := by
  obtain rfl | ⟨ds, c, rfl⟩ := List.eq_nil_or_concat cs
  · simp at h
  obtain ⟨front, b, hb⟩ :=
    (List.eq_nil_or_concat (String.utf8EncodeChar c)).resolve_left String.utf8EncodeChar_ne_nil
  simp only [List.concat_eq_append] at hb h ⊢
  rw [List.flatMap_append, List.flatMap_singleton, hb, ← List.append_assoc] at h
  obtain ⟨hfront, hlast⟩ := List.append_inj' h rfl
  obtain rfl := List.singleton_inj.1 hlast
  obtain ⟨rfl, rfl⟩ := utf8EncodeChar_eq_concat hb
  exact ⟨ds, rfl, by simpa using hfront⟩

theorem trim_concat {c : Char} (hc : isBlank c = true) (cs : List Char) : trim (cs ++ [c]) = trim cs := by
  unfold trim
  rw [List.dropWhile_append]
  split
  · rename_i h
    simp [List.isEmpty_iff.1 h, hc]
  · simp [hc]

/-- The word on a line of bytes, if it has one; `none` if the line is not text. -/
def lineWord? (line : List UInt8) : Option (Option String) :=
  (String.fromUTF8? ⟨line.toArray⟩).map fun text => wordOf text.toList

/-- A carriage return at the end of a line is blank. -/
theorem lineWord?_concat_return (line : List UInt8) : lineWord? (line ++ [13]) = lineWord? line := by
  unfold lineWord?
  cases htext : String.fromUTF8? ⟨line.toArray⟩ with
  | some text =>
    have hlonger : String.fromUTF8? ⟨(line ++ [13]).toArray⟩ = some (text.push '\r') := by
      rw [fromUTF8?_eq_some, String.toList_push, List.flatMap_append, fromUTF8?_eq_some.1 htext]
      rfl
    have hblank : isBlank '\r' = true := by decide
    rw [hlonger, Option.map_some, Option.map_some, String.toList_push, wordOf, trim_concat hblank, wordOf]
  | none =>
    cases hlonger : String.fromUTF8? ⟨(line ++ [13]).toArray⟩ with
    | none => rfl
    | some text =>
      obtain ⟨ds, -, hds⟩ := eq_concat_return (fromUTF8?_eq_some.1 hlonger)
      rw [← String.toList_ofList (l := ds), ← fromUTF8?_eq_some, htext] at hds
      cases hds

theorem lineWord?_closeLine (current : List UInt8) : lineWord? (closeLine current) = lineWord? current.reverse := by
  unfold closeLine
  split
  · rw [List.reverse_cons, lineWord?_concat_return]
  · rfl

/-! ## Written lines -/

/-- How a line ends. -/
inductive LineEnd where
  | feed
  | returnFeed
deriving DecidableEq

/-- The bytes of a line's end. -/
def LineEnd.bytes : LineEnd → List UInt8
  | .feed => [10]
  | .returnFeed => [13, 10]

/-- Lines with their ends, and what stands behind the last end, perhaps nothing. -/
structure WrittenLines where
  ended : List (List UInt8 × LineEnd)
  rest : List UInt8
  noFeed : ∀ line ∈ ended.map Prod.fst ++ [rest], 10 ∉ line

namespace WrittenLines

/-- The lines, without their ends. -/
def lines (t : WrittenLines) : List (List UInt8) := t.ended.map Prod.fst ++ [t.rest]

/-- The lines and ends, one behind the other. -/
def bytes (t : WrittenLines) : List UInt8 := (t.ended.flatMap fun line => line.1 ++ line.2.bytes) ++ t.rest

/-- All bytes can be written as lines. -/
theorem exists_bytes_eq (bytes : List UInt8) : ∃ t : WrittenLines, t.bytes = bytes := by
  induction bytes with
  | nil => exact ⟨⟨[], [], by simp⟩, rfl⟩
  | cons b bs ih =>
    obtain ⟨⟨ended, rest, hfeed⟩, rfl⟩ := ih
    by_cases hb : b = 10
    · subst hb
      exact ⟨⟨([], .feed) :: ended, rest, by simpa using hfeed⟩, rfl⟩
    · cases ended with
      | nil => exact ⟨⟨[], b :: rest, by simpa [Ne.symm hb] using hfeed⟩, rfl⟩
      | cons first ended => exact ⟨⟨(b :: first.1, first.2) :: ended, rest, by simpa [Ne.symm hb] using hfeed⟩, rfl⟩

end WrittenLines

theorem linesFrom_append {line : List UInt8} (h : 10 ∉ line) (current bs : List UInt8) :
    linesFrom current (line ++ bs) = linesFrom (line.reverse ++ current) bs := by
  induction line generalizing current with
  | nil => rfl
  | cons b line ih =>
    obtain ⟨hb, hline⟩ := not_or.1 (List.mem_cons.not.1 h)
    rw [List.cons_append, linesFrom, if_neg (Ne.symm hb), ih hline, List.reverse_cons, List.append_assoc,
      List.singleton_append]

/-- Whichever way a line ends, it is read as one line with the same word on it. -/
theorem linesFrom_line {line : List UInt8} (h : 10 ∉ line) (e : LineEnd) (bs : List UInt8) :
    ∃ found, linesFrom [] (line ++ (e.bytes ++ bs)) = found :: linesFrom [] bs ∧ lineWord? found = lineWord? line := by
  rw [linesFrom_append h, List.append_nil]
  cases e with
  | feed => exact ⟨closeLine line.reverse, rfl, by rw [lineWord?_closeLine, List.reverse_reverse]⟩
  | returnFeed => exact ⟨line, by simp [LineEnd.bytes, linesFrom, closeLine], rfl⟩

/-- The lines that are read have the words of the written lines on them, and there is one that is not text if there is
one among the written lines. -/
theorem exists_line_iff {found : Option (Option String)} (hfound : found ≠ some none) (t : WrittenLines) :
    (∃ line ∈ linesFrom [] t.bytes, lineWord? line = found) ↔ ∃ line ∈ t.lines, lineWord? line = found := by
  obtain ⟨ended, rest, hfeed⟩ := t
  simp only [WrittenLines.bytes, WrittenLines.lines]
  induction ended with
  | nil =>
    -- Nothing behind the last end is no line to the reader, and an empty line without a word here.
    have hrest : linesFrom [] rest = linesFrom rest.reverse [] := by
      simpa using linesFrom_append (hfeed rest (by simp)) [] []
    rw [List.flatMap_nil, List.nil_append, hrest]
    cases rest with
    | nil =>
      have hempty : lineWord? [] = some none := by decide +kernel
      simp [linesFrom, hempty, hfound.symm]
    | cons b bs => simp [linesFrom]
  | cons first ended ih =>
    obtain ⟨hfirst, hmore⟩ := List.forall_mem_cons.1 hfeed
    obtain ⟨line, hlines, hword⟩ := linesFrom_line hfirst first.2
      ((ended.flatMap fun line => line.1 ++ line.2.bytes) ++ rest)
    rw [List.flatMap_cons, List.append_assoc, List.append_assoc, hlines]
    simp only [List.map_cons, List.cons_append, List.mem_cons, exists_eq_or_imp, hword]
    exact or_congr_right (ih hmore)

/-! ## Reading -/

/-- A line of text with a word on it, neither blank nor a comment, and the word in lower case. -/
def Gives (line : List UInt8) (w : String) : Prop :=
  ∃ text, String.fromUTF8? ⟨line.toArray⟩ = some text ∧ trim text.toList ≠ [] ∧
    (trim text.toList).head? ≠ some '#' ∧ w = String.ofList (lowercaseText (trim text.toList))

/-- A line of text without a word on it: it is blank, or a comment. -/
def Silent (line : List UInt8) : Prop :=
  ∃ text, String.fromUTF8? ⟨line.toArray⟩ = some text ∧
    (trim text.toList = [] ∨ (trim text.toList).head? = some '#')

theorem wordOf_eq_none_iff {line : List Char} :
    wordOf line = none ↔ trim line = [] ∨ (trim line).head? = some '#' := by
  unfold wordOf
  split <;> simp_all [List.head?_eq_some_iff]

theorem wordOf_eq_some_iff {line : List Char} {w : String} :
    wordOf line = some w ↔ trim line ≠ [] ∧ (trim line).head? ≠ some '#' ∧
      w = String.ofList (lowercaseText (trim line)) := by
  constructor
  · intro h
    have hsome : wordOf line ≠ none := by simp [h]
    rw [Ne, wordOf_eq_none_iff, not_or] at hsome
    obtain ⟨hne, hcomment⟩ := hsome
    exact ⟨hne, hcomment, Option.some.inj (h.symm.trans (wordOf_eq_some rfl hne hcomment))⟩
  · rintro ⟨hne, hcomment, rfl⟩
    exact wordOf_eq_some rfl hne hcomment

theorem lineWord?_eq_some {line : List UInt8} {w : String} : lineWord? line = some (some w) ↔ Gives line w := by
  simp only [lineWord?, Option.map_eq_some_iff, wordOf_eq_some_iff, Gives]

theorem lineWord?_eq_some_none {line : List UInt8} : lineWord? line = some none ↔ Silent line := by
  simp only [lineWord?, Option.map_eq_some_iff, wordOf_eq_none_iff, Silent]

theorem lineWord?_eq_none {line : List UInt8} :
    lineWord? line = none ↔ String.fromUTF8? ⟨line.toArray⟩ = none := Option.map_eq_none_iff

theorem readLines_cons (s : WordSet) (line : List UInt8) (lines : List (List UInt8)) :
    readLines s (line :: lines) =
      match lineWord? line with
      | none => .error "stream did not contain valid UTF-8"
      | some none => readLines s lines
      | some (some w) => readLines (s.insert w) lines := by
  rw [readLines, lineWord?]
  cases String.fromUTF8? ⟨line.toArray⟩ with
  | none => rfl
  | some text => cases h : wordOf text.toList <;> simp [h]

/-- A line that is not text ends the reading, whatever was read before. -/
theorem readLines_eq_error {lines : List (List UInt8)} (h : ∃ line ∈ lines, lineWord? line = none) (s : WordSet) :
    readLines s lines = .error "stream did not contain valid UTF-8" := by
  induction lines generalizing s with
  | nil => simp at h
  | cons line lines ih =>
    rw [readLines_cons]
    simp only [List.mem_cons, exists_eq_or_imp] at h
    cases hword : lineWord? line with
    | none => rfl
    | some found =>
      have hlines := h.resolve_left (by simp [hword])
      cases found with
      | none => exact ih hlines s
      | some w => exact ih hlines (s.insert w)

/-- Lines of text are read to the end, and their words are in ascending order. -/
theorem exists_readLines {lines : List (List UInt8)} (h : ¬∃ line ∈ lines, lineWord? line = none) {s : WordSet}
    (hs : s.words.Pairwise (· < ·)) : ∃ t, readLines s lines = .ok t ∧ t.words.Pairwise (· < ·) := by
  induction lines generalizing s with
  | nil => exact ⟨s, rfl, hs⟩
  | cons line lines ih =>
    rw [readLines_cons]
    simp only [List.mem_cons, exists_eq_or_imp, not_or] at h
    cases hword : lineWord? line with
    | none => exact absurd hword h.1
    | some found =>
      cases found with
      | none => exact ih h.2 hs
      | some w => exact ih h.2 (WordSet.pairwise_insertInto hs)

/-- Text that does not break off is read. -/
theorem exists_read {t : WrittenLines} (h : ¬∃ line ∈ t.lines, String.fromUTF8? ⟨line.toArray⟩ = none) :
    ∃ words, read ⟨t.bytes, none⟩ = .ok words ∧ words.words.Pairwise (· < ·) := by
  have hnone : (none : Option (Option String)) ≠ some none := by simp
  simp only [← lineWord?_eq_none, ← exists_line_iff hnone] at h
  obtain ⟨words, hwords, hsorted⟩ := exists_readLines h (s := .empty) List.Pairwise.nil
  refine ⟨words, ?_, hsorted⟩
  simp [read, ByteStream.readable, hwords]

theorem read_eq_error_of_line {t : WrittenLines} (h : ∃ line ∈ t.lines, String.fromUTF8? ⟨line.toArray⟩ = none) :
    read ⟨t.bytes, none⟩ = .error "stream did not contain valid UTF-8" := by
  have hnone : (none : Option (Option String)) ≠ some none := by simp
  simp only [← lineWord?_eq_none, ← exists_line_iff hnone] at h
  simp [read, ByteStream.readable, readLines_eq_error h]

theorem exists_read_eq_error {stream : ByteStream} (h : stream.failure ≠ none) :
    ∃ cause, read stream = .error cause := by
  obtain ⟨failure, hfailure⟩ := Option.ne_none_iff_exists'.1 h
  unfold read
  rw [hfailure]
  cases readLines .empty (linesFrom [] stream.readable) with
  | error cause => exact ⟨cause, rfl⟩
  | ok words => exact ⟨failure, rfl⟩

/-- The words that are read are those of the lines. -/
theorem mem_read {t : WrittenLines} {stream : ByteStream} (ht : t.bytes = stream.bytes) {words : WordSet}
    (h : read stream = .ok words) {w : String} : w ∈ words.words ↔ ∃ line ∈ t.lines, Gives line w := by
  have hlines := mem_readLines (readLines_of_read h) (v := w)
  rw [← ht] at hlines
  simp only [← lineWord?_eq_some]
  rw [hlines, ← exists_line_iff (by simp)]
  simp [lineWord?, WordSet.empty]

/-- The same lines, but for those without a word: in any order, any number of times and with any ends. -/
def SameLines (t t' : WrittenLines) : Prop := ∀ line, ¬Silent line → (line ∈ t.lines ↔ line ∈ t'.lines)

theorem exists_line_iff_of_sameLines {t t' : WrittenLines} (h : SameLines t t') {P : List UInt8 → Prop}
    (hP : ∀ line, P line → ¬Silent line) : (∃ line ∈ t.lines, P line) ↔ ∃ line ∈ t'.lines, P line := by
  refine exists_congr fun line => ?_
  constructor
  · rintro ⟨hline, hp⟩
    exact ⟨(h line (hP line hp)).1 hline, hp⟩
  · rintro ⟨hline, hp⟩
    exact ⟨(h line (hP line hp)).2 hline, hp⟩

/-- What is read depends on nothing but the lines with words and those that are not text. -/
theorem read_eq_of_sameLines {t t' : WrittenLines} (h : SameLines t t') :
    read ⟨t.bytes, none⟩ = read ⟨t'.bytes, none⟩ := by
  have hbad : (∃ line ∈ t.lines, String.fromUTF8? ⟨line.toArray⟩ = none) ↔
      ∃ line ∈ t'.lines, String.fromUTF8? ⟨line.toArray⟩ = none := by
    refine exists_line_iff_of_sameLines h ?_
    rintro line hline ⟨text, htext, -⟩
    rw [hline] at htext
    cases htext
  -- Both are refused, or both give sets in ascending order with the same words.
  by_cases hline : ∃ line ∈ t.lines, String.fromUTF8? ⟨line.toArray⟩ = none
  · rw [read_eq_error_of_line hline, read_eq_error_of_line (hbad.1 hline)]
  · obtain ⟨words, hread, hsorted⟩ := exists_read hline
    obtain ⟨words', hread', hsorted'⟩ := exists_read (mt hbad.2 hline)
    rw [hread, hread']
    refine congrArg Except.ok (WordSet.words_ext hsorted hsorted' fun w => ?_)
    rw [mem_read rfl hread, mem_read rfl hread']
    refine exists_line_iff_of_sameLines h fun line hgives hsilent => ?_
    rw [← lineWord?_eq_some] at hgives
    rw [← lineWord?_eq_some_none, hgives] at hsilent
    cases hsilent

/-- Two words in one order and in the other: with a comment, a blank line and ends of both kinds, and with one word
twice. -/
example : read (.ofString "# words\r\n\nbar\r\nFoo\n") = read (.ofString "Foo\r\nbar\nFoo") := by decide +kernel

end ToleranceClustering.Text.WordList
