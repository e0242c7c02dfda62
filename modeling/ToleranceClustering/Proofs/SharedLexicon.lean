import ToleranceClustering.Proofs.ExtractionReference

/-!
# One lexicon for many callers

Callers that work side by side share one register of terms (`Register`): a table of the numbers by term, with numbers of 32
bits, and a table of the terms by number. A caller first looks a term up while others may look too. If the term is missing,
the caller waits until it has the register for itself, and looks again before it enters the term, since others may have been
served in between (`Step.miss`, `Step.enter`). A run (`Reaches`) is any sequence of steps of any callers, with the record of
what they were told (`Reply`).

A register holds what a lexicon holds (`Register.Holds`), and one step interns at most one term in it (`Step.holds`). So after
any run the register is the lexicon of the terms in the order in which callers interned them (`Reaches.holds`), and as long
as 32 bits suffice, the two tables are inverse to each other and every caller was told what the lexicon says
(`shared_register_stays_dense`).
-/

namespace ToleranceClustering

/-- The numbers of the terms, and the terms in the order of their numbers. -/
structure Register where
  numbers : List (String × UInt32)
  terms : List String

namespace Register

/-- The register without terms. -/
def empty : Register := ⟨[], []⟩

/-- How many terms are entered. -/
def size (r : Register) : Nat := r.terms.length

/-- The number of a term, if it is entered. -/
def get? (r : Register) (term : String) : Option UInt32 := r.numbers.lookup term

/-- The term of a number, if it was given. -/
def resolve? (r : Register) (id : UInt32) : Option String := r.terms[id.toNat]?

/-- The number of a term for a caller that has the register for itself: a term that is still missing takes the next one, of
which 32 bits are kept. -/
def enter (r : Register) (term : String) : UInt32 × Register :=
  match r.get? term with
  | some id => (id, r)
  | none => (UInt32.ofNat r.size, ⟨(term, UInt32.ofNat r.size) :: r.numbers, r.terms ++ [term]⟩)

/-- The number of a term for a caller that nobody comes between: it looks, and looks again before it enters the term. -/
def intern (r : Register) (term : String) : UInt32 × Register :=
  match r.get? term with
  | some id => (id, r)
  | none => r.enter term

theorem enter_of_get? {r : Register} {term : String} {id : UInt32} (h : r.get? term = some id) :
    r.enter term = (id, r) := by
  rw [enter, h]

theorem exists_resolve?_iff (r : Register) {id : UInt32} : (∃ term, r.resolve? id = some term) ↔ id.toNat < r.size := by
  constructor
  · rintro ⟨term, h⟩
    exact (List.getElem?_eq_some_iff.1 h).1
  · exact fun h => ⟨r.terms[id.toNat], List.getElem?_eq_getElem h⟩

/-- The register has the terms of the lexicon, each under its number. -/
structure Holds (r : Register) (lex : Lexicon) : Prop where
  terms_eq : r.terms = lex.terms
  get?_eq : ∀ term, r.get? term = (lex.find? term).map UInt32.ofNat

end Register

namespace Lexicon

theorem lt_size_of_find? {lex : Lexicon} {term : String} {t : TermId} (h : lex.find? term = some t) : t < lex.size := by
  obtain ⟨hlt, -⟩ := List.getElem?_eq_some_iff.1 (find?_eq_some_iff.1 h)
  exact hlt

theorem find?_eq_none_iff {lex : Lexicon} {term : String} : lex.find? term = none ↔ term ∉ lex.terms :=
  List.idxOf?_eq_none_iff

theorem Extends.find?_eq {lex later : Lexicon} (h : lex.Extends later) {term : String} {t : TermId}
    (ht : lex.find? term = some t) : later.find? term = some t := by
  rw [find?_eq_some_iff] at ht ⊢
  obtain ⟨hlt, rfl⟩ := List.getElem?_eq_some_iff.1 ht
  exact List.prefix_iff_getElem?.1 h t hlt

theorem Extends.size_le {lex later : Lexicon} (h : lex.Extends later) : lex.size ≤ later.size := h.length_le

theorem mem_terms_intern {lex : Lexicon} {term other : String} :
    other ∈ (lex.intern term).2.terms ↔ other ∈ lex.terms ∨ other = term := by
  by_cases h : term ∈ lex.terms
  · rw [intern_of_mem h]
    exact ⟨Or.inl, fun ho => ho.elim id fun he => he ▸ h⟩
  · rw [(terms_intern_of_not_mem h).2, List.mem_append, List.mem_singleton]

/-- The other terms are found as before. -/
theorem find?_intern_of_ne (lex : Lexicon) {term other : String} (h : other ≠ term) :
    (lex.intern term).2.find? other = lex.find? other := by
  cases hfound : lex.find? other with
  | some t => exact (intern_spec lex term).1.find?_eq hfound
  | none =>
    rw [find?_eq_none_iff] at hfound ⊢
    exact fun hmem => (mem_terms_intern.1 hmem).elim hfound h

theorem intern_lt_size (lex : Lexicon) (term : String) : (lex.intern term).1 < (lex.intern term).2.size :=
  lt_size_of_find? (find?_intern lex term)

end Lexicon

namespace Register

variable {r : Register} {lex : Lexicon}

theorem holds_empty : empty.Holds Lexicon.empty := ⟨rfl, fun _ => rfl⟩

/-- Whoever has the register for itself interns the term in the lexicon that it holds. -/
theorem Holds.enter (h : r.Holds lex) (term : String) :
    (r.enter term).1 = UInt32.ofNat (lex.intern term).1 ∧ (r.enter term).2.Holds (lex.intern term).2 := by
  have hget := h.get?_eq term
  cases hfound : lex.find? term with
  | some t =>
    have hmem : term ∈ lex.terms := List.mem_of_getElem? (Lexicon.find?_eq_some_iff.1 hfound)
    rw [hfound, Option.map_some] at hget
    have hnumber := Lexicon.find?_intern lex term
    rw [Lexicon.intern_of_mem hmem, hfound] at hnumber
    rw [enter_of_get? hget, Lexicon.intern_of_mem hmem]
    exact ⟨congrArg UInt32.ofNat (Option.some.inj hnumber), h⟩
  | none =>
    have hmem := Lexicon.find?_eq_none_iff.1 hfound
    obtain ⟨hnumber, hterms⟩ := Lexicon.terms_intern_of_not_mem hmem
    have hsize : r.size = lex.size := congrArg List.length h.terms_eq
    rw [hfound, Option.map_none] at hget
    have henter : r.enter term =
        (UInt32.ofNat r.size, ⟨(term, UInt32.ofNat r.size) :: r.numbers, r.terms ++ [term]⟩) := by
      rw [Register.enter, hget]
    rw [henter]
    refine ⟨by rw [hnumber, hsize], ⟨by rw [hterms, h.terms_eq], ?_⟩⟩
    intro other
    rw [get?, List.lookup_cons]
    by_cases hother : other = term
    · subst hother
      rw [beq_self_eq_true, Lexicon.find?_intern, hnumber, hsize]
      rfl
    · rw [beq_false_of_ne hother, Lexicon.find?_intern_of_ne lex hother]
      exact h.get?_eq other

/-- Looking again changes nothing for a caller that nobody comes between. -/
theorem intern_eq_enter (r : Register) (term : String) : r.intern term = r.enter term := by
  unfold intern
  split
  · rename_i id hget
    exact (enter_of_get? hget).symm
  · rfl

/-- With numbers that fit, whoever has the register for itself is told the number of the lexicon. -/
theorem Holds.enter_toNat (h : r.Holds lex) {term : String} (hsize : (lex.intern term).2.size ≤ 2 ^ 32) :
    (r.enter term).1.toNat = (lex.intern term).1 := by
  rw [(h.enter term).1]
  exact UInt32.toNat_ofNat_of_lt' (Nat.lt_of_lt_of_le (Lexicon.intern_lt_size lex term) hsize)

theorem Holds.get?_toNat (h : r.Holds lex) (hsize : lex.size ≤ 2 ^ 32) (term : String) :
    (r.get? term).map UInt32.toNat = lex.find? term := by
  rw [h.get?_eq]
  cases hfound : lex.find? term with
  | none => rfl
  | some t =>
    have hlt := Lexicon.lt_size_of_find? hfound
    exact congrArg some (UInt32.toNat_ofNat_of_lt' (Nat.lt_of_lt_of_le hlt hsize))

/-- With numbers that fit, a term is found under a number exactly if it is in the lexicon. -/
theorem Holds.get?_eq_some_iff (h : r.Holds lex) (hsize : lex.size ≤ 2 ^ 32) {term : String} {id : UInt32} :
    r.get? term = some id ↔ lex.find? term = some id.toNat := by
  rw [← h.get?_toNat hsize, Option.map_eq_some_iff]
  constructor
  · exact fun hget => ⟨id, hget, rfl⟩
  · rintro ⟨id', hget, heq⟩
    rw [hget, UInt32.toNat_inj.1 heq]

theorem Holds.resolve?_eq (h : r.Holds lex) (id : UInt32) : r.resolve? id = lex.term? id.toNat := by
  rw [resolve?, h.terms_eq]
  rfl

/-- Terms and numbers of a register stay in one that holds a later lexicon. -/
theorem Holds.get?_later {r' : Register} {later : Lexicon} (h : r.Holds lex) (h' : r'.Holds later)
    (hext : lex.Extends later) {term : String} {id : UInt32} (hget : r.get? term = some id) : r'.get? term = some id := by
  rw [h.get?_eq, Option.map_eq_some_iff] at hget
  obtain ⟨t, ht, rfl⟩ := hget
  rw [h'.get?_eq, hext.find?_eq ht, Option.map_some]

theorem Holds.resolve?_later {r' : Register} {later : Lexicon} (h : r.Holds lex) (h' : r'.Holds later)
    (hext : lex.Extends later) {term : String} {id : UInt32} (hget : r.resolve? id = some term) :
    r'.resolve? id = some term := by
  rw [h.resolve?_eq, ← Lexicon.find?_eq_some_iff] at hget
  rw [h'.resolve?_eq, ← Lexicon.find?_eq_some_iff]
  exact hext.find?_eq hget

end Register

namespace Sharing

/-- What a caller was told. -/
inductive Reply where
  | interned (term : String) (id : UInt32)
  | got (term : String) (id? : Option UInt32)
  | resolved (id : UInt32) (term? : Option String)

/-- The term that a caller interned. -/
def Reply.term? : Reply → Option String
  | interned term _ => some term
  | _ => none

/-- The terms that callers interned, in the order in which they were told the numbers. -/
def internedTerms (record : List Reply) : List String := record.filterMap Reply.term?

/-- The register, and the terms that their callers did not find and want to enter. -/
structure Desk where
  register : Register
  wanted : List String

/-- Nothing is entered, and nobody has called. -/
def Desk.initial : Desk := ⟨.empty, []⟩

/-- One step of one caller. A caller that wants to enter a term gets the register for itself at any time later on, and any
other caller that wants to may get it first. -/
inductive Step : Desk → Option Reply → Desk → Prop where
  | find {r : Register} {term : String} {id : UInt32} (wanted : List String) :
      r.get? term = some id → Step ⟨r, wanted⟩ (some (.interned term id)) ⟨r, wanted⟩
  | miss {r : Register} {term : String} (wanted : List String) :
      r.get? term = none → Step ⟨r, wanted⟩ none ⟨r, wanted ++ [term]⟩
  | enter (r : Register) (before : List String) (term : String) (after : List String) :
      Step ⟨r, before ++ term :: after⟩ (some (.interned term (r.enter term).1)) ⟨(r.enter term).2, before ++ after⟩
  | get (r : Register) (wanted : List String) (term : String) :
      Step ⟨r, wanted⟩ (some (.got term (r.get? term))) ⟨r, wanted⟩
  | resolve (r : Register) (wanted : List String) (id : UInt32) :
      Step ⟨r, wanted⟩ (some (.resolved id (r.resolve? id))) ⟨r, wanted⟩

/-- What callers may come to from here, with the record of what they were told on the way. -/
inductive Reaches (start : Desk) : List Reply → Desk → Prop where
  | refl : Reaches start [] start
  | step {record : List Reply} {reply? : Option Reply} {d d' : Desk} :
      Reaches start record d → Step d reply? d' → Reaches start (record ++ reply?.toList) d'

/-- A call that nobody comes between is one step or two. -/
theorem Reaches.intern {start : Desk} {record : List Reply} {r : Register} {wanted : List String}
    (hr : Reaches start record ⟨r, wanted⟩) (term : String) :
    Reaches start (record ++ [.interned term (r.intern term).1]) ⟨(r.intern term).2, wanted⟩ := by
  cases hget : r.get? term with
  | some id =>
    have hintern : r.intern term = (id, r) := by rw [Register.intern, hget]
    rw [hintern]
    exact hr.step (Step.find wanted hget)
  | none =>
    have hmissed := hr.step (Step.miss wanted hget)
    rw [Option.toList_none, List.append_nil] at hmissed
    have hentered := hmissed.step (Step.enter r wanted term [])
    rw [List.append_nil] at hentered
    rw [Register.intern_eq_enter]
    exact hentered

/-- The caller was told what this lexicon says. -/
def Reply.Right (lex : Lexicon) : Reply → Prop
  | interned term id => id.toNat = (lex.intern term).1
  | got term id? => id?.map UInt32.toNat = lex.find? term
  | resolved id term? => term? = lex.term? id.toNat

variable {start d d' : Desk} {record : List Reply} {lex : Lexicon}

/-- One step interns the term of its reply, if it has one, and nothing else. -/
theorem Step.holds {reply? : Option Reply} (hs : Step d reply? d') (h : d.register.Holds lex) :
    d'.register.Holds (lex.internAll (internedTerms reply?.toList)).2 := by
  cases hs with
  | @find r term id wanted hget =>
    have hentered := (h.enter term).2
    rw [Register.enter_of_get? hget] at hentered
    exact hentered
  | miss wanted hget => exact h
  | enter r before term after => exact (h.enter term).2
  | get r wanted term => exact h
  | resolve r wanted id => exact h

/-- With numbers that fit, the caller is told what the lexicon says. -/
theorem Step.right {a : Reply} (hs : Step d (some a) d') (h : d.register.Holds lex)
    (hsize : (lex.internAll (internedTerms [a])).2.size ≤ 2 ^ 32) : a.Right lex := by
  cases hs with
  | @find r term id wanted hget =>
    have hentered := h.enter_toNat hsize
    rw [Register.enter_of_get? hget] at hentered
    exact hentered
  | enter r before term after => exact h.enter_toNat hsize
  | get r wanted term => exact h.get?_toNat hsize term
  | resolve r wanted id => exact h.resolve?_eq id

theorem internedTerms_append (record record' : List Reply) :
    internedTerms (record ++ record') = internedTerms record ++ internedTerms record' :=
  List.filterMap_append

/-- After any steps of any callers the register holds the lexicon of the terms that were interned. -/
theorem Reaches.holds (hr : Reaches start record d) (h : start.register.Holds lex) :
    d.register.Holds (lex.internAll (internedTerms record)).2 := by
  induction hr with
  | refl => exact h
  | step _ hs ih =>
    rw [internedTerms_append, Lexicon.internAll_append]
    exact hs.holds ih

/-- Every caller was told what the lexicon of the terms that were interned before said. -/
theorem Reaches.right (hr : Reaches start record d) (h : start.register.Holds lex)
    (hsize : (lex.internAll (internedTerms record)).2.size ≤ 2 ^ 32) {before after : List Reply} {a : Reply}
    (hrecord : record = before ++ a :: after) : a.Right (lex.internAll (internedTerms before)).2 := by
  induction hr generalizing after with
  | refl =>
    rw [List.nil_eq, List.append_eq_nil_iff] at hrecord
    exact absurd hrecord.2 (List.cons_ne_nil a after)
  | @step record reply? d d' hr hs ih =>
    rw [internedTerms_append, Lexicon.internAll_append] at hsize
    have hbefore := Nat.le_trans (Lexicon.internAll_spec _ _).1.size_le hsize
    cases reply? with
    | none =>
      rw [Option.toList_none, List.append_nil] at hrecord
      exact ih hbefore hrecord
    | some b =>
      -- The reply of this step is the last one, and the others were given before it.
      rcases List.eq_nil_or_concat after with rfl | ⟨rest, c, rfl⟩
      · obtain ⟨rfl, hab⟩ := List.append_inj' hrecord rfl
        obtain rfl := List.singleton_inj.1 hab
        exact hs.right (hr.holds h) hsize
      · rw [List.concat_eq_append, ← List.cons_append, ← List.append_assoc] at hrecord
        exact ih hbefore (List.append_inj' hrecord rfl).1

/-- What callers that share a register can rely on, after they were told this. -/
structure StaysDense (record : List Reply) (d : Desk) : Prop where
  /-- The terms are the interned ones, each at the place of its first interning. -/
  terms_eq : d.register.terms = (internedTerms record).eraseDups
  /-- The number of a term is its place. -/
  number_eq_place : ∀ place term, d.register.terms[place]? = some term →
    (d.register.get? term).map UInt32.toNat = some place
  /-- The numbers in use are exactly those below the number of terms. -/
  used_iff : ∀ id, (∃ term, d.register.get? term = some id) ↔ id.toNat < d.register.size
  /-- The two tables are inverse to each other. -/
  get?_iff_resolve? : ∀ term id, d.register.get? term = some id ↔ d.register.resolve? id = some term
  /-- Whoever interned a term, at whatever time, was told the number that it has. -/
  told : ∀ term id, .interned term id ∈ record → d.register.get? term = some id
  /-- Two callers were told the same number exactly if they interned the same term. -/
  same_number_iff : ∀ term term' id id', .interned term id ∈ record → .interned term' id' ∈ record →
    (id = id' ↔ term = term')
  /-- Every caller was told what the lexicon of the terms that were interned before says. -/
  right : ∀ before a after, record = before ++ a :: after → a.Right (Lexicon.ofList (internedTerms before))
  /-- Interning a term that is entered changes nothing. -/
  unchanged : ∀ term id id' d', d.register.get? term = some id → Step d (some (.interned term id')) d' →
    id' = id ∧ d'.register = d.register
  /-- Whatever callers do from here on, no number changes, and none is given to another term or taken back. -/
  kept : ∀ more d', Reaches d more d' →
    (∀ term id, d.register.get? term = some id → d'.register.get? term = some id) ∧
      ∀ id term, d.register.resolve? id = some term → d'.register.resolve? id = some term

/-- Interning a term that is entered, by looking or by waiting for the register, leaves the register as it is. -/
theorem Step.unchanged {term : String} {id id' : UInt32} (hs : Step d (some (.interned term id')) d')
    (hget : d.register.get? term = some id) : id' = id ∧ d'.register = d.register := by
  cases hs with
  | find wanted hget' => exact ⟨Option.some.inj (hget'.symm.trans hget), rfl⟩
  | enter r before term after =>
    have henter := Register.enter_of_get? hget
    exact ⟨congrArg Prod.fst henter, congrArg Prod.snd henter⟩

/-- Whoever interned a term was told the number under which the lexicon has it afterwards. -/
theorem find?_of_told (hright : ∀ before a after, record = before ++ a :: after →
      a.Right (Lexicon.ofList (internedTerms before))) {term : String} {id : UInt32} (h : .interned term id ∈ record) :
    (Lexicon.ofList (internedTerms record)).find? term = some id.toNat := by
  obtain ⟨before, after, rfl⟩ := List.append_of_mem h
  have hid : id.toNat = ((Lexicon.ofList (internedTerms before)).intern term).1 := hright before _ after rfl
  have hafter : Lexicon.ofList (internedTerms (before ++ .interned term id :: after)) =
      (((Lexicon.ofList (internedTerms before)).intern term).2.internAll (internedTerms after)).2 := by
    rw [internedTerms_append, Lexicon.ofList, Lexicon.internAll_append]
    rfl
  rw [hafter, hid]
  exact (Lexicon.internAll_spec _ _).1.find?_eq (Lexicon.find?_intern _ term)

/-- However the calls of any number of callers fall between each other, the two tables of the register stay inverse to each
other and without gaps, and the callers are told what they would be told one after another by the lexicon. -/
theorem shared_register_stays_dense (hr : Reaches .initial record d) (hsize : d.register.size ≤ 2 ^ 32) :
    StaysDense record d := by
  have hholds : d.register.Holds (Lexicon.ofList (internedTerms record)) := hr.holds Register.holds_empty
  have hlex : (Lexicon.ofList (internedTerms record)).size ≤ 2 ^ 32 := by
    rw [Lexicon.size, ← hholds.terms_eq]
    exact hsize
  have hright : ∀ before a after, record = before ++ a :: after → a.Right (Lexicon.ofList (internedTerms before)) :=
    fun before a after => hr.right Register.holds_empty hlex
  have hget_iff : ∀ term id, d.register.get? term = some id ↔ d.register.resolve? id = some term := by
    intro term id
    rw [hholds.get?_eq_some_iff hlex, hholds.resolve?_eq, Lexicon.find?_eq_some_iff]
  have htold : ∀ term id, .interned term id ∈ record → d.register.get? term = some id :=
    fun term id h => (hholds.get?_eq_some_iff hlex).2 (find?_of_told hright h)
  refine ⟨?_, ?_, ?_, hget_iff, htold, ?_, hright, ?_, ?_⟩
  · rw [hholds.terms_eq, Lexicon.ofList, Lexicon.terms_internAll]
    simp [Lexicon.empty]
  · intro place term hplace
    rw [hholds.terms_eq] at hplace
    rw [hholds.get?_toNat hlex]
    exact Lexicon.find?_eq_some_iff.2 hplace
  · intro id
    simp only [hget_iff]
    exact d.register.exists_resolve?_iff
  · intro term term' id id' h h'
    constructor
    · rintro rfl
      have hsame := (hget_iff term' id).1 (htold term' id h')
      rw [(hget_iff term id).1 (htold term id h)] at hsame
      exact Option.some.inj hsame
    · rintro rfl
      have hsame := htold term id' h'
      rw [htold term id h] at hsame
      exact Option.some.inj hsame
  · exact fun term id id' d' hget hs => hs.unchanged hget
  · intro more d' hmore
    have hext := (Lexicon.internAll_spec (Lexicon.ofList (internedTerms record)) (internedTerms more)).1
    have hlater := hmore.holds hholds
    exact ⟨fun term id => hholds.get?_later hlater hext, fun id term => hholds.resolve?_later hlater hext⟩

/-- Two callers miss one term, and a third enters another term between them. -/
def seaside : List Reply :=
  [.interned "sea" 0, .interned "salt" 1, .interned "sea" 0, .got "hill" none, .resolved 1 (some "salt")]

/-- The register afterwards. -/
def seasideDesk : Desk := ⟨⟨[("salt", 1), ("sea", 0)], ["sea", "salt"]⟩, []⟩

theorem reaches_seaside : Reaches .initial seaside seasideDesk := by
  have hmiss : Reaches .initial [] ⟨.empty, ["sea"]⟩ := Reaches.refl.step (Step.miss [] rfl)
  have hmiss' : Reaches .initial [] ⟨.empty, ["sea", "sea"]⟩ := hmiss.step (Step.miss ["sea"] rfl)
  have hfirst := hmiss'.step (Step.enter .empty [] "sea" ["sea"])
  have hother := hfirst.intern "salt"
  have hsecond := hother.step (Step.enter _ [] "sea" [])
  exact (hsecond.step (Step.get _ [] "hill")).step (Step.resolve _ [] 1)

theorem both_callers_get_one_number :
    Reaches .initial seaside seasideDesk ∧ seasideDesk.register.size ≤ 2 ^ 32 ∧ StaysDense seaside seasideDesk :=
  ⟨reaches_seaside, by decide, shared_register_stays_dense reaches_seaside (by decide)⟩

end Sharing

end ToleranceClustering
