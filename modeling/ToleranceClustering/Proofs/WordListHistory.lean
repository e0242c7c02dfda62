import Mathlib.Data.List.Induction
import ToleranceClustering.Proofs.WordLines

/-!
# Histories of a cache of word lists

Requests come one after another, each with what the loader would say at that time (`afterRequests`). A request that
fails changes nothing, so the next one for that name asks the loader again; the first list of a name is kept, and all
later requests for the name get it, whatever the loader would say (`lists_are_kept_from_first_success`).
-/

namespace ToleranceClustering.Text.WordListCache

open WordList

/-- A request for a list, at a time when this is the loader. -/
structure Request where
  loader : Loader
  name : String

/-- A new cache after some requests. -/
def afterRequests (requests : List Request) : WordListCache :=
  requests.foldl (fun c r => (c.load r.loader r.name).2) .empty

/-- What a request gives after some others. -/
def answer (before : List Request) (r : Request) : Except Failure LoadedList :=
  ((afterRequests before).load r.loader r.name).1

/-- One of the requests gave a list of that name. -/
def Loaded (requests : List Request) (name : String) : Prop :=
  ∃ before r after, requests = before ++ r :: after ∧ r.name = name ∧ ∃ loaded, answer before r = .ok loaded

/-- The answers of a loader that give no list: there is no stream, the stream breaks off, or a line of it is not text.
-/
inductive Unreadable : Except String ByteStream → Prop where
  | noStream (cause : String) : Unreadable (.error cause)
  | breaksOff {stream : ByteStream} (h : stream.failure ≠ none) : Unreadable (.ok stream)
  | notText {stream : ByteStream} {t : WrittenLines} (ht : t.bytes = stream.bytes)
      (h : ∃ line ∈ t.lines, String.fromUTF8? ⟨line.toArray⟩ = none) : Unreadable (.ok stream)

/-! ## One request -/

variable {c : WordListCache} {loader : Loader} {name : String}

/-- What a request can come to. -/
theorem load_cases (c : WordListCache) (loader : Loader) (name : String) :
    (∃ words, c.find? name = some words ∧ c.load loader name = (.ok ⟨words, true⟩, c)) ∨
      (∃ f, c.find? name = none ∧ open? loader name = .error f ∧ c.load loader name = (.error f, c)) ∨
      ∃ words, c.find? name = none ∧ open? loader name = .ok words ∧
        c.load loader name = (.ok ⟨words, false⟩, ⟨c.lists ++ [(name, words)]⟩) := by
  unfold load
  cases hfind : c.find? name with
  | some words => exact Or.inl ⟨words, rfl, rfl⟩
  | none =>
    cases hopen : open? loader name with
    | error f => exact Or.inr (Or.inl ⟨f, rfl, rfl, rfl⟩)
    | ok words => exact Or.inr (Or.inr ⟨words, rfl, rfl, rfl⟩)

theorem open?_eq_error {f : Failure} (h : open? loader name = .error f) :
    ∃ cause, f = .unreadableResource name cause := by
  unfold open? at h
  split at h
  · exact ⟨_, (Except.error.inj h).symm⟩
  · split at h
    · exact ⟨_, (Except.error.inj h).symm⟩
    · cases h

theorem exists_read_eq_error_iff {stream : ByteStream} :
    (∃ cause, read stream = .error cause) ↔ Unreadable (.ok stream) := by
  constructor
  · rintro ⟨cause, h⟩
    by_contra hreadable
    obtain ⟨t, ht⟩ := WrittenLines.exists_bytes_eq stream.bytes
    have hwhole : stream.failure = none := by
      by_contra hfailure
      exact hreadable (.breaksOff hfailure)
    obtain ⟨words, hread, -⟩ := exists_read fun hline => hreadable (.notText ht hline)
    rw [ht, ← hwhole, h] at hread
    cases hread
  · intro h
    cases h with
    | breaksOff h => exact exists_read_eq_error h
    | @notText _ t ht h =>
      by_cases hfailure : stream.failure = none
      · obtain ⟨bytes, failure⟩ := stream
        obtain rfl : t.bytes = bytes := ht
        obtain rfl : failure = none := hfailure
        exact ⟨_, read_eq_error_of_line h⟩
      · exact exists_read_eq_error hfailure

/-- No list is opened exactly if the loader has none that can be read. -/
theorem exists_open?_eq_error_iff : (∃ f, open? loader name = .error f) ↔ Unreadable (loader name) := by
  unfold open?
  cases loader name with
  | error cause => simp [Unreadable.noStream]
  | ok stream =>
    rw [← exists_read_eq_error_iff]
    cases hread : WordList.read stream <;> simp [hread]

theorem open?_eq_ok {words : WordSet} (h : open? loader name = .ok words) :
    ∃ stream, loader name = .ok stream ∧ read stream = .ok words := by
  cases hname : loader name with
  | error cause => simp [open?, hname] at h
  | ok stream => exact ⟨stream, rfl, read_of_open? hname h⟩

/-- A request fails exactly if the list is not in the cache and the loader has none that can be read. -/
theorem exists_load_eq_error_iff :
    (∃ f, (c.load loader name).1 = .error f) ↔ c.find? name = none ∧ Unreadable (loader name) := by
  rw [← exists_open?_eq_error_iff]
  rcases load_cases c loader name with ⟨_, hfind, hload⟩ | ⟨_, hfind, hopen, hload⟩ | ⟨_, hfind, hopen, hload⟩
  · simp [hfind, hload]
  · simp [hfind, hopen, hload]
  · simp [hfind, hopen, hload]

theorem load_eq_error {f : Failure} (h : (c.load loader name).1 = .error f) :
    c.find? name = none ∧ ∃ cause, f = .unreadableResource name cause := by
  rcases load_cases c loader name with ⟨_, _, hload⟩ | ⟨_, hfind, hopen, hload⟩ | ⟨_, _, _, hload⟩
  · simp [hload] at h
  · rw [hload] at h
    rw [← Except.error.inj h]
    exact ⟨hfind, open?_eq_error hopen⟩
  · simp [hload] at h

/-- A list that was not in the cache comes from the loader's stream. -/
theorem load_of_new {loaded : LoadedList} (hnew : c.find? name = none) (h : (c.load loader name).1 = .ok loaded) :
    loaded.shared = false ∧ ∃ stream, loader name = .ok stream ∧ read stream = .ok loaded.words := by
  rcases load_cases c loader name with ⟨_, hfind, _⟩ | ⟨_, _, _, hload⟩ | ⟨_, _, hopen, hload⟩
  · simp [hfind] at hnew
  · simp [hload] at h
  · rw [hload] at h
    rw [← Except.ok.inj h]
    exact ⟨rfl, open?_eq_ok hopen⟩

/-- A list in the cache stays there. -/
theorem find?_load {words : WordSet} (h : c.find? name = some words) (loader : Loader) (other : String) :
    (c.load loader other).2.find? name = some words := by
  rcases load_cases c loader other with ⟨_, _, hload⟩ | ⟨_, _, _, hload⟩ | ⟨_, _, _, hload⟩
  · rwa [hload]
  · rwa [hload]
  · rw [find?] at h
    simp [hload, find?, List.lookup_append, h]

/-- A list that is returned is in the cache from then on. -/
theorem find?_load_self {loaded : LoadedList} (h : (c.load loader name).1 = .ok loaded) :
    (c.load loader name).2.find? name = some loaded.words := by
  rcases load_cases c loader name with ⟨words, hfind, hload⟩ | ⟨_, _, _, hload⟩ | ⟨words, hfind, _, hload⟩
  · rw [hload] at h ⊢
    rw [← Except.ok.inj h, hfind]
  · rw [hload] at h
    cases h
  · rw [hload] at h ⊢
    rw [← Except.ok.inj h]
    rw [find?] at hfind
    simp [find?, List.lookup_append, hfind]

/-- A name without a list gets one from nothing but a request for it that gives one. -/
theorem find?_load_of_none (h : c.find? name = none) {other : String}
    (hother : ¬(other = name ∧ ∃ loaded, (c.load loader other).1 = .ok loaded)) :
    (c.load loader other).2.find? name = none := by
  rcases load_cases c loader other with ⟨_, _, hload⟩ | ⟨_, _, _, hload⟩ | ⟨_, _, _, hload⟩
  · rwa [hload]
  · rwa [hload]
  · rw [hload] at hother ⊢
    have hne : (name == other) = false := by
      rw [beq_eq_false_iff_ne]
      rintro rfl
      exact hother ⟨rfl, _, rfl⟩
    rw [find?] at h
    simp [find?, List.lookup_append, h, List.lookup_cons, hne]

theorem isSome_find?_iff_mem : (c.find? name).isSome ↔ name ∈ c.lists.map Prod.fst := by
  rw [find?, List.lookup_isSome_iff, List.mem_map]
  exact exists_congr fun list => and_congr_right fun _ => by rw [beq_iff_eq, eq_comm]

theorem nodup_load (h : (c.lists.map Prod.fst).Nodup) (loader : Loader) (name : String) :
    ((c.load loader name).2.lists.map Prod.fst).Nodup := by
  rcases load_cases c loader name with ⟨_, _, hload⟩ | ⟨_, _, _, hload⟩ | ⟨_, hfind, _, hload⟩
  · rwa [hload]
  · rwa [hload]
  · have hnew : name ∉ c.lists.map Prod.fst := by
      rw [← isSome_find?_iff_mem, hfind]
      simp
    rw [hload, List.map_append, List.map_singleton, ← List.concat_eq_append]
    exact h.concat hnew

/-! ## Histories -/

theorem afterRequests_concat (requests : List Request) (r : Request) :
    afterRequests (requests ++ [r]) = ((afterRequests requests).load r.loader r.name).2 := by
  simp [afterRequests]

theorem find?_afterRequests_append {requests : List Request} {words : WordSet}
    (h : (afterRequests requests).find? name = some words) (later : List Request) :
    (afterRequests (requests ++ later)).find? name = some words := by
  induction later using List.reverseRecOn with
  | nil => rwa [List.append_nil]
  | append_singleton later r ih =>
    rw [← List.append_assoc, afterRequests_concat]
    exact find?_load ih r.loader r.name

theorem nodup_afterRequests (requests : List Request) : ((afterRequests requests).lists.map Prod.fst).Nodup := by
  induction requests using List.reverseRecOn with
  | nil => exact List.nodup_nil
  | append_singleton requests r ih =>
    rw [afterRequests_concat]
    exact nodup_load ih r.loader r.name

/-- A list was loaded before the last request, or it is the one that this request gives. -/
theorem loaded_concat {requests : List Request} {r : Request} :
    Loaded (requests ++ [r]) name ↔ Loaded requests name ∨ r.name = name ∧ ∃ loaded, answer requests r = .ok loaded := by
  constructor
  · rintro ⟨before, last, after, heq, hname, hloaded⟩
    -- Either the request that gave the list is the last one, or it was there before.
    obtain rfl | ⟨after, x, rfl⟩ := List.eq_nil_or_concat after
    · obtain ⟨rfl, hlast⟩ := List.append_inj' heq rfl
      obtain rfl := List.singleton_inj.1 hlast
      exact Or.inr ⟨hname, hloaded⟩
    · rw [List.concat_eq_append, ← List.cons_append, ← List.append_assoc] at heq
      exact Or.inl ⟨before, last, after, List.append_inj_left' heq rfl, hname, hloaded⟩
  · rintro (⟨before, last, after, rfl, hname, hloaded⟩ | ⟨hname, hloaded⟩)
    · exact ⟨before, last, after ++ [r], by simp, hname, hloaded⟩
    · exact ⟨requests, r, [], rfl, hname, hloaded⟩

/-- The cache has the lists of the names that were loaded: after each request the lists that it had before, and the one
that the request gave. -/
theorem isSome_find?_iff_loaded (requests : List Request) :
    ((afterRequests requests).find? name).isSome ↔ Loaded requests name := by
  induction requests using List.reverseRecOn with
  | nil =>
    constructor
    · intro h
      cases h
    · rintro ⟨before, r, after, h, -⟩
      simp at h
  | append_singleton requests r ih =>
    rw [loaded_concat, ← ih, afterRequests_concat]
    cases hfind : (afterRequests requests).find? name with
    | some words => simp [find?_load hfind]
    | none =>
      by_cases hgives : r.name = name ∧ ∃ loaded, answer requests r = .ok loaded
      · obtain ⟨rfl, loaded, hloaded⟩ := hgives
        simp [find?_load_self hloaded, hloaded]
      · simp [find?_load_of_none hfind hgives, hgives]

theorem find?_eq_none_iff_not_loaded {requests : List Request} :
    (afterRequests requests).find? name = none ↔ ¬Loaded requests name := by
  rw [← isSome_find?_iff_loaded, Bool.not_eq_true, Option.isSome_eq_false_iff, Option.isNone_iff_eq_none]

theorem answer_of_find? {before : List Request} {r : Request} {words : WordSet}
    (h : (afterRequests before).find? r.name = some words) : answer before r = .ok ⟨words, true⟩ := by
  rw [answer, load_of_mem h]

/-- What is kept of requests: this holds of every request `r` after any others `before`. -/
structure KeepsLists (before : List Request) (r : Request) : Prop where
  /-- It fails exactly if there was no list of the name before and the loader has none that can be read now. -/
  fails_iff : (∃ f, answer before r = .error f) ↔ ¬Loaded before r.name ∧ Unreadable (r.loader r.name)
  /-- A failure says which list it was. The cache is as it was, and there still is no list of the name. -/
  failure : ∀ f, answer before r = .error f →
    (∃ cause, f = .unreadableResource r.name cause) ∧ afterRequests (before ++ [r]) = afterRequests before ∧
      ¬Loaded (before ++ [r]) r.name
  /-- The first list of a name is new, and its words are those on the lines of the stream. -/
  first : ∀ loaded, answer before r = .ok loaded → ¬Loaded before r.name →
    loaded.shared = false ∧ ∃ stream, r.loader r.name = .ok stream ∧ (∃ t : WrittenLines, t.bytes = stream.bytes) ∧
      ∀ t : WrittenLines, t.bytes = stream.bytes → ∀ w, w ∈ loaded.words.words ↔ ∃ line ∈ t.lines, Gives line w
  /-- The same lines give the same, in any order, any number of times, with any ends and any lines without a word. -/
  same : ∀ t t' : WrittenLines, SameLines t t' → r.loader r.name = .ok ⟨t.bytes, none⟩ →
    ∀ loader : Loader, loader r.name = .ok ⟨t'.bytes, none⟩ → answer before ⟨loader, r.name⟩ = answer before r
  /-- A list that is returned is returned by all later requests for the name, whatever the loader would say, and they
  leave the cache as it was. -/
  again : ∀ loaded, answer before r = .ok loaded → ∀ (between : List Request) (later : Request), later.name = r.name →
    answer (before ++ r :: between) later = .ok ⟨loaded.words, true⟩ ∧
      afterRequests (before ++ r :: between ++ [later]) = afterRequests (before ++ r :: between)
  /-- The size of the cache is the number of names with a list. -/
  size : ∃ names : List String, names.Nodup ∧ (∀ name, name ∈ names ↔ Loaded before name) ∧
    (afterRequests before).size = names.length

/-- Whatever was asked for before and whatever the loader said, a request gives the list of its name that was first read
to the end, if there is one. Else it gives the list that the loader has now, which is kept, or fails and changes
nothing. -/
theorem lists_are_kept_from_first_success (before : List Request) (r : Request) : KeepsLists before r where
  fails_iff := by
    rw [← find?_eq_none_iff_not_loaded]
    exact exists_load_eq_error_iff
  failure := by
    intro f hf
    have hcache : afterRequests (before ++ [r]) = afterRequests before := by
      rw [afterRequests_concat]
      exact load_error hf
    obtain ⟨hnew, hcause⟩ := load_eq_error hf
    refine ⟨hcause, hcache, ?_⟩
    rwa [← find?_eq_none_iff_not_loaded, hcache]
  first := by
    intro loaded hloaded hnew
    obtain ⟨hshared, stream, hname, hread⟩ := load_of_new (find?_eq_none_iff_not_loaded.2 hnew) hloaded
    exact ⟨hshared, stream, hname, WrittenLines.exists_bytes_eq _, fun t ht w => mem_read ht hread⟩
  same := by
    intro t t' hsame hname loader hname'
    have hopen : open? loader r.name = open? r.loader r.name := by
      simp only [open?, hname, hname', read_eq_of_sameLines hsame]
    simp only [answer, load, hopen]
  again := by
    intro loaded hloaded between later hlater
    have hkept : (afterRequests (before ++ [r])).find? r.name = some loaded.words := by
      rw [afterRequests_concat]
      exact find?_load_self hloaded
    have hfind := find?_afterRequests_append hkept between
    rw [List.append_assoc, List.singleton_append, ← hlater] at hfind
    exact ⟨answer_of_find? hfind, by rw [afterRequests_concat, load_of_mem hfind]⟩
  size := by
    refine ⟨(afterRequests before).lists.map Prod.fst, nodup_afterRequests before, fun name => ?_, by simp [size]⟩
    rw [← isSome_find?_iff_mem, isSome_find?_iff_loaded]

/-- A request for a list that is not there. -/
def missing : Request := ⟨fun _ => .error "not found", "words"⟩

/-- One for a list with a word and then a line that is not text. -/
def damaged : Request := ⟨fun _ => .ok ⟨[98, 97, 114, 10, 255, 10], none⟩, "words"⟩

/-- One for a list with a comment and two words. -/
def complete : Request := ⟨fun _ => .ok (.ofString "# words\nFoo\r\n bar"), "words"⟩

/-- After a request for the list that is not there, the damaged list is asked for and fails. The complete one is then
read, and once it is, the damaged one is not read: there is a list of that name. -/
theorem complete_list_is_kept : (∃ f, answer [missing] damaged = .error f) ∧
    (afterRequests [missing, damaged]).size = 0 ∧
    answer [missing, damaged, complete, missing] damaged = .ok ⟨⟨["bar", "foo"]⟩, true⟩ := by
  have hnew : ¬Loaded [missing] damaged.name := by
    rw [← find?_eq_none_iff_not_loaded]
    decide
  have hdamaged : Unreadable (damaged.loader damaged.name) :=
    .notText (t := ⟨[([98, 97, 114], .feed), ([255], .feed)], [], by decide⟩) rfl ⟨[255], by decide, by decide +kernel⟩
  have hwords : (answer [missing, damaged] complete).toOption.map LoadedList.words = some ⟨["bar", "foo"]⟩ := by
    decide +kernel
  refine ⟨(lists_are_kept_from_first_success [missing] damaged).fails_iff.2 ⟨hnew, hdamaged⟩, by decide +kernel, ?_⟩
  cases hloaded : answer [missing, damaged] complete with
  | error f =>
    rw [hloaded] at hwords
    cases hwords
  | ok loaded =>
    rw [hloaded] at hwords
    have hlist : loaded.words = ⟨["bar", "foo"]⟩ := Option.some.inj hwords
    rw [← hlist]
    exact ((lists_are_kept_from_first_success _ complete).again loaded hloaded [missing] damaged rfl).1

end ToleranceClustering.Text.WordListCache
