import ToleranceClustering.Failure
import ToleranceClustering.Text.Blank
import ToleranceClustering.Text.Case
import ToleranceClustering.Text.Stopwords
import ToleranceClustering.Text.WordSet

/-!
# Word lists

A word list is a stream of bytes: one word a line in UTF-8, blank lines and lines that start with `#` aside. A cache
reads each list once; a list that cannot be read to its end leaves no trace in it.

Main statements: `load_of_mem` (a list that is in the cache is returned without asking the loader) and `load_error` (a
failure leaves the cache as it was).
-/

namespace ToleranceClustering.Text

/-- The bytes of an opened resource; `failure` says why reading stops after them, if it does not end there. -/
structure ByteStream where
  bytes : List UInt8
  failure : Option String
deriving DecidableEq

namespace ByteStream

/-- The stream of a text. -/
def ofString (s : String) : ByteStream := ⟨s.toByteArray.toList, none⟩

/-- The bytes that count: all of them, or if reading stops at a failure, those of the lines before the one it stops in. -/
def readable (stream : ByteStream) : List UInt8 :=
  match stream.failure with
  | none => stream.bytes
  | some _ => (stream.bytes.reverse.dropWhile (· ≠ 10)).reverse

end ByteStream

/-- What opening a resource by name gives: a stream, or why there is none. -/
abbrev Loader := String → Except String ByteStream

namespace WordList

/-- A line read backwards, without the carriage return that may stand before its line feed. -/
def closeLine : List UInt8 → List UInt8
  | 13 :: line => line.reverse
  | line => line.reverse

/-- The lines of some bytes, given the beginning of the first line backwards. A last line without a line feed counts
if it is not empty. -/
def linesFrom (current : List UInt8) : List UInt8 → List (List UInt8)
  | [] => if current.isEmpty then [] else [current.reverse]
  | b :: bs => if b = 10 then closeLine current :: linesFrom [] bs else linesFrom (b :: current) bs

/-- The word on a line, in lower case, unless the line is blank or a comment. -/
def wordOf (line : List Char) : Option String :=
  match trim line with
  | [] => none
  | '#' :: _ => none
  | cs => some (String.ofList (lowercaseText cs))

/-- The words of a set and those of some lines; a line that is not UTF-8 ends the reading. -/
def readLines (s : WordSet) : List (List UInt8) → Except String WordSet
  | [] => .ok s
  | line :: lines =>
    match String.fromUTF8? ⟨line.toArray⟩ with
    | none => .error "stream did not contain valid UTF-8"
    | some text =>
      match wordOf text.toList with
      | none => readLines s lines
      | some w => readLines (s.insert w) lines

/-- The words of a stream, if it can be read to its end. -/
def read (stream : ByteStream) : Except String WordSet :=
  match readLines WordSet.empty (linesFrom [] stream.readable), stream.failure with
  | .ok _, some cause => .error cause
  | result, _ => result

end WordList

/-- The word lists read so far, by name. -/
structure WordListCache where
  lists : List (String × WordSet)

/-- A word list, and whether it was in the cache before. -/
structure LoadedList where
  words : WordSet
  shared : Bool

namespace WordListCache

/-- The cache without lists. -/
def empty : WordListCache := ⟨[]⟩

/-- The number of lists in the cache. -/
def size (c : WordListCache) : Nat := c.lists.length

/-- The list of a name, if it was read before. -/
def find? (c : WordListCache) (name : String) : Option WordSet := c.lists.lookup name

/-- Opens and reads a list. -/
def open? (loader : Loader) (name : String) : Except Failure WordSet :=
  match loader name with
  | .error cause => .error (.unreadableResource name cause)
  | .ok stream =>
    match WordList.read stream with
    | .error cause => .error (.unreadableResource name cause)
    | .ok words => .ok words

/-- The list of a name: from the cache, or else read and put there. -/
def load (c : WordListCache) (loader : Loader) (name : String) : Except Failure LoadedList × WordListCache :=
  match c.find? name with
  | some words => (.ok ⟨words, true⟩, c)
  | none =>
    match open? loader name with
    | .error f => (.error f, c)
    | .ok words => (.ok ⟨words, false⟩, ⟨c.lists ++ [(name, words)]⟩)

/-- A list that is in the cache is returned as it is, whatever the loader would say. -/
theorem load_of_mem {c : WordListCache} {name : String} {words : WordSet} (h : c.find? name = some words)
    (loader : Loader) : c.load loader name = (.ok ⟨words, true⟩, c) := by
  simp [load, h]

/-- A failure leaves the cache as it was. -/
theorem load_error {c : WordListCache} {loader : Loader} {name : String} {f : Failure}
    (h : (c.load loader name).1 = .error f) : (c.load loader name).2 = c := by
  unfold load at h ⊢
  split
  · rfl
  · split
    · rfl
    · simp_all

end WordListCache

end ToleranceClustering.Text
