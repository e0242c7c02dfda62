import ToleranceClustering.Pool

/-!
# Borrowers side by side

Any number of borrowers share one pool. The pool serves one of them at a time, but objects are built, used and reset while
it serves others, so a borrower gets on by moves (`Move`) and between two of them the others may move. A run (`Reaches`) is
any sequence of moves by any borrowers in any order, with the record of what happened to the objects (`Deed`).

A call that nobody interferes with makes the moves of one borrower in a row (`moves_tryAcquire`, `moves_release`), so what
holds of all runs holds after such calls too (`reaches_tryAcquire`, `reaches_acquire`).
-/

namespace ToleranceClustering

namespace Pool

variable {ω : Type} {p p' : Pool ω}

theorem checkout_reused {o : ω} (h : p.checkout = .reused o p') :
    ∃ rest, p.idle = o :: rest ∧ p' = { p with idle := rest, inUse := p.inUse + 1 } := by
  unfold checkout at h
  split at h
  · rename_i x rest hidle
    obtain ⟨rfl, rfl⟩ := Checkout.reused.inj h
    exact ⟨rest, hidle, rfl⟩
  · split at h <;> nomatch h

theorem hasRoom_eq_true : p.hasRoom = true ↔ ∀ n, p.policy.maxSize = some n → p.live < n := by
  unfold hasRoom
  cases p.policy.maxSize <;> simp

theorem hasRoom_eq_false : p.hasRoom = false ↔ ∃ n, p.policy.maxSize = some n ∧ n ≤ p.live := by
  unfold hasRoom
  cases p.policy.maxSize <;> simp

theorem checkout_reserved (h : p.checkout = .reserved p') :
    p.idle = [] ∧ (∀ n, p.policy.maxSize = some n → p.live < n) ∧ p' = { p with inUse := p.inUse + 1 } := by
  unfold checkout at h
  split at h
  · nomatch h
  · rename_i hidle
    split at h
    · rename_i hroom
      exact ⟨hidle, hasRoom_eq_true.1 hroom, (Checkout.reserved.inj h).symm⟩
    · nomatch h

theorem checkout_exhausted (h : p.checkout = .exhausted) :
    p.idle = [] ∧ ∃ n, p.policy.maxSize = some n ∧ n ≤ p.live := by
  unfold checkout at h
  split at h
  · nomatch h
  · rename_i hidle
    split at h
    · nomatch h
    · rename_i hroom
      exact ⟨hidle, hasRoom_eq_false.1 (Bool.eq_false_iff.2 hroom)⟩

/-- The pool of a policy is empty. -/
theorem eq_of_ofPolicy {policy : PoolPolicy} (h : ofPolicy policy = .ok p) : p = ⟨policy, [], 0, 0, 0⟩ := by
  unfold ofPolicy at h
  cases hcheck : policy.check with
  | error e =>
    rw [hcheck] at h
    nomatch h
  | ok u =>
    rw [hcheck] at h
    exact (Except.ok.inj h).symm

end Pool

namespace Borrowing

/-- An object as its pool tells it from the others: by the number of objects built before it. -/
structure Item (ω : Type) where
  number : Nat
  content : ω

/-- How a borrower asks: once, ready to wait, or for the last time, after the wait. -/
inductive Manner where
  | once
  | patient
  | late

/-- How borrowing ended. -/
inductive Ending where
  | refused
  | failed (cause : Failure)
  | crashed
  | returned

/-- How far a borrower has got. -/
inductive Stage (ω : Type) where
  | asking (manner : Manner)
  | waiting
  /-- A slot is reserved, and the object for it is not there yet. -/
  | building
  | holding (x : Item ω)
  /-- The object was given back and is being reset. -/
  | resetting (x : Item ω)
  /-- The object was given up and dropped, of which the pool does not know yet. -/
  | parting
  | ended (how : Ending)

/-- What may happen to an object: it is handed out new or from among the idle ones, a reset makes it idle, or it is dropped,
because the reset did not succeed or because its borrower gave it up. -/
inductive Deed (ω : Type) where
  | built (x : Item ω)
  | reused (x : Item ω)
  | restored (x : Item ω)
  | spoiled (x : Item ω)
  | givenUp (x : Item ω)

namespace Deed

variable {ω : Type}

/-- The object that it happened to. -/
def item : Deed ω → Item ω
  | built x => x
  | reused x => x
  | restored x => x
  | spoiled x => x
  | givenUp x => x

/-- Whether the object was dropped. -/
def drops : Deed ω → Bool
  | spoiled _ => true
  | givenUp _ => true
  | _ => false

/-- What a reset that ended like this made of an object. -/
def ofReset (x : Item ω) : Outcome ω → Deed ω
  | .done o => restored ⟨x.number, o⟩
  | _ => spoiled x

end Deed

variable {ω : Type}

/-- One move of a borrower: the pool and the borrower's stage before it and after it, and what happened to an object.

Building ends when the pool has counted the object, and a reset when the pool has heard of it, so the result of either comes
with the move. Waiting may end at any time, and for good only if the policy bounds it. -/
inductive Move : Pool (Item ω) → Stage ω → Option (Deed ω) → Pool (Item ω) → Stage ω → Prop where
  | reuse {p p' : Pool (Item ω)} {manner : Manner} {x : Item ω} :
      p.checkout = .reused x p' → Move p (.asking manner) (some (.reused x)) p' (.holding x)
  | reserve {p p' : Pool (Item ω)} {manner : Manner} :
      p.checkout = .reserved p' → Move p (.asking manner) none p' .building
  | refuse {p : Pool (Item ω)} {manner : Manner} :
      p.checkout = .exhausted → manner ≠ .patient → Move p (.asking manner) none p (.ended .refused)
  | wait {p : Pool (Item ω)} : p.checkout = .exhausted → Move p (.asking .patient) none p .waiting
  | wake (p : Pool (Item ω)) : Move p .waiting none p (.asking .patient)
  | expire {p : Pool (Item ω)} : p.policy.patience ≠ none → Move p .waiting none p (.asking .late)
  | build (p : Pool (Item ω)) (o : ω) :
      Move p .building (some (.built ⟨p.created, o⟩)) p.fulfil (.holding ⟨p.created, o⟩)
  | fail (p : Pool (Item ω)) (cause : Failure) : Move p .building none p.vacate (.ended (.failed cause))
  | crash (p : Pool (Item ω)) : Move p .building none p.vacate (.ended .crashed)
  | use (p : Pool (Item ω)) (x : Item ω) (o : ω) : Move p (.holding x) none p (.holding ⟨x.number, o⟩)
  | giveBack (p : Pool (Item ω)) (x : Item ω) : Move p (.holding x) none p (.resetting x)
  | reset (p : Pool (Item ω)) (x : Item ω) (r : Outcome ω) :
      Move p (.resetting x) (some (.ofReset x r)) (p.settle (r.map (Item.mk x.number))) (.ended .returned)
  | giveUp (p : Pool (Item ω)) (x : Item ω) : Move p (.holding x) (some (.givenUp x)) p .parting
  | part (p : Pool (Item ω)) : Move p .parting none p.discard (.ended .returned)

/-- A pool, and the borrowers that have asked so far. -/
structure Traffic (ω : Type) where
  pool : Pool (Item ω)
  stages : List (Stage ω)

/-- One more borrower asks. -/
def Traffic.enter (t : Traffic ω) (manner : Manner) : Traffic ω := { t with stages := t.stages ++ [.asking manner] }

/-- One step: a new borrower asks, with or without waiting, or a borrower moves. -/
inductive Step : Traffic ω → Option (Deed ω) → Traffic ω → Prop where
  | acquire (t : Traffic ω) : Step t none (t.enter .patient)
  | tryAcquire (t : Traffic ω) : Step t none (t.enter .once)
  | move {p p' : Pool (Item ω)} {a b : Stage ω} {d : Option (Deed ω)} (before after : List (Stage ω)) :
      Move p a d p' b → Step ⟨p, before ++ a :: after⟩ d ⟨p', before ++ b :: after⟩

/-- What a pool and its borrowers may come to, with the record of what happened to the objects on the way. -/
inductive Reaches (pool : Pool (Item ω)) : List (Deed ω) → Traffic ω → Prop where
  | start : Reaches pool [] ⟨pool, []⟩
  | step {history : List (Deed ω)} {t t' : Traffic ω} {d : Option (Deed ω)} :
      Reaches pool history t → Step t d t' → Reaches pool (history ++ d.toList) t'

/-! ## A borrower alone -/

/-- Moves of one borrower in a row, with what happened to objects. -/
inductive Moves (p : Pool (Item ω)) (a : Stage ω) : List (Deed ω) → Pool (Item ω) → Stage ω → Prop where
  | start : Moves p a [] p a
  | move {history : List (Deed ω)} {q r : Pool (Item ω)} {b b' : Stage ω} {d : Option (Deed ω)} :
      Moves p a history q b → Move q b d r b' → Moves p a (history ++ d.toList) r b'

theorem Moves.single {p q : Pool (Item ω)} {a b : Stage ω} {d : Option (Deed ω)} (h : Move p a d q b) :
    Moves p a d.toList q b :=
  Moves.move Moves.start h

/-- A run may go on with moves of one borrower in a row. -/
theorem Reaches.moves {pool p q : Pool (Item ω)} {history deeds : List (Deed ω)} {a b : Stage ω}
    (before after : List (Stage ω)) (hr : Reaches pool history ⟨p, before ++ a :: after⟩) (h : Moves p a deeds q b) :
    Reaches pool (history ++ deeds) ⟨q, before ++ b :: after⟩ := by
  induction h with
  | start =>
    rw [List.append_nil]
    exact hr
  | move _ hm ih =>
    rw [← List.append_assoc]
    exact ih.step (Step.move before after hm)

/-- A pool whose objects are not told apart. -/
def contents (p : Pool (Item ω)) : Pool ω := ⟨p.policy, p.idle.map Item.content, p.inUse, p.created, p.discarded⟩

/-- What the call of a borrower reports who is at this stage. -/
def Stage.report? : Stage ω → Option (Outcome (Option ω))
  | .holding x => some (.done (some x.content))
  | .ended .refused => some (.done none)
  | .ended (.failed cause) => some (.failed cause)
  | .ended .crashed => some .crashed
  | _ => none

theorem contents_settle (p : Pool (Item ω)) (x : Item ω) (r : Outcome ω) :
    contents (p.settle (r.map (Item.mk x.number))) = (contents p).settle r := by
  cases r <;> rfl

theorem hasRoom_contents (p : Pool (Item ω)) : (contents p).hasRoom = p.hasRoom := by
  have hlive : (contents p).live = p.live := congrArg (p.inUse + ·) (List.length_map Item.content)
  unfold Pool.hasRoom
  rw [hlive]
  rfl

theorem checkout_contents (p : Pool (Item ω)) :
    (contents p).checkout =
      match p.checkout with
      | .reused x q => .reused x.content (contents q)
      | .reserved q => .reserved (contents q)
      | .exhausted => .exhausted := by
  have hroom := hasRoom_contents p
  obtain ⟨policy, idle, inUse, created, discarded⟩ := p
  cases idle with
  | cons x rest => rfl
  | nil =>
    simp only [Pool.checkout, contents, List.map_nil] at hroom ⊢
    rw [hroom]
    split <;> rfl

/-- A call that nobody interferes with is a run of moves to the stage that it reports, unless it waits for ever. -/
theorem moves_tryAcquire {σ : Type} (p : Pool (Item ω)) (manner : Manner)
    (hm : manner = .patient → p.policy.patience ≠ none) (build : Builder σ ω) (s : σ) :
    ∃ history q b, Moves p (.asking manner) history q b ∧
      b.report? = some ((contents p).tryAcquire build s).1 ∧ contents q = ((contents p).tryAcquire build s).2.1 := by
  unfold Pool.tryAcquire
  rw [checkout_contents]
  cases hc : p.checkout with
  | reused x q => exact ⟨_, q, .holding x, Moves.single (Move.reuse hc), rfl, rfl⟩
  | reserved q =>
    have hslot : Moves p (.asking manner) [] q .building := Moves.single (Move.reserve hc)
    simp only
    rcases build s with ⟨o | cause | _, s'⟩
    · exact ⟨_, q.fulfil, _, hslot.move (Move.build q o), rfl, rfl⟩
    · exact ⟨_, q.vacate, _, hslot.move (Move.fail q cause), rfl, rfl⟩
    · exact ⟨_, q.vacate, _, hslot.move (Move.crash q), rfl, rfl⟩
  | exhausted =>
    by_cases hp : manner = .patient
    · subst hp
      have hwait := (Moves.single (Move.wait hc)).move (Move.expire (hm rfl))
      exact ⟨_, p, _, hwait.move (Move.refuse hc nofun), rfl, rfl⟩
    · exact ⟨_, p, _, Moves.single (Move.refuse hc hp), rfl, rfl⟩

/-- Taking an object back is the moves of its borrower. -/
theorem moves_release (p : Pool (Item ω)) (x : Item ω) (reset : ω → Outcome ω) :
    ∃ history q, Moves p (.holding x) history q (.ended .returned) ∧ contents q = (contents p).release reset x.content := by
  refine ⟨_, _, (Moves.single (Move.giveBack p x)).move (Move.reset p x (reset x.content)), ?_⟩
  exact contents_settle p x (reset x.content)

/-- A call that does not wait, and that nobody interferes with, takes a run on by one borrower. -/
theorem reaches_tryAcquire {σ : Type} {pool : Pool (Item ω)} {history : List (Deed ω)} {t : Traffic ω}
    (hr : Reaches pool history t) (build : Builder σ ω) (s : σ) :
    ∃ deeds q b, Reaches pool (history ++ deeds) ⟨q, t.stages ++ [b]⟩ ∧
      b.report? = some ((contents t.pool).tryAcquire build s).1 ∧
      contents q = ((contents t.pool).tryAcquire build s).2.1 := by
  obtain ⟨deeds, q, b, hm, hreport, hpool⟩ := moves_tryAcquire t.pool .once nofun build s
  have hasked := hr.step (Step.tryAcquire t)
  rw [Option.toList_none, List.append_nil] at hasked
  exact ⟨deeds, q, b, hasked.moves t.stages [] hm, hreport, hpool⟩

theorem acquire_pool {σ : Type} (p : Pool ω) (build : Builder σ ω) (s : σ) :
    (p.acquire build s).2.1 = (p.tryAcquire build s).2.1 := by
  unfold Pool.acquire
  split <;> simp only [*]

/-- So does a call that waits, if its wait is bounded. -/
theorem reaches_acquire {σ : Type} {pool : Pool (Item ω)} {history : List (Deed ω)} {t : Traffic ω}
    (hr : Reaches pool history t) (hp : t.pool.policy.patience ≠ none) (build : Builder σ ω) (s : σ) :
    ∃ deeds q b, Reaches pool (history ++ deeds) ⟨q, t.stages ++ [b]⟩ ∧
      contents q = ((contents t.pool).acquire build s).2.1 := by
  obtain ⟨deeds, q, b, hm, -, hpool⟩ := moves_tryAcquire t.pool .patient (fun _ => hp) build s
  have hasked := hr.step (Step.acquire t)
  rw [Option.toList_none, List.append_nil] at hasked
  exact ⟨deeds, q, b, hasked.moves t.stages [] hm, hpool.trans (acquire_pool _ build s).symm⟩

end Borrowing

end ToleranceClustering
