import ToleranceClustering.Proofs.Borrowing

/-!
# Borrowing that fails

A borrower who ends up without an object leaves the pool as it was (`failed_borrowing_leaves_pool`). The slot that was
reserved for an object is given back if the object cannot be built (`Pool.vacate_of_reserved`), whether building fails
or crashes, and up to then nothing else has changed (`Untouched`). Objects are built only where none is idle.
-/

namespace ToleranceClustering

/-! ## One call -/

namespace Pool

variable {σ ω : Type} {p q : Pool ω} {build : Builder σ ω} {s : σ}

/-- A builder that makes an object whenever it is called. -/
def AlwaysBuilds (build : Builder σ ω) : Prop := ∀ s, ∃ o, (build s).1 = .done o

/-- A builder that counts its calls. -/
def countCalls (build : Builder σ ω) : Builder (σ × Nat) ω := fun s => ((build s.1).1, (build s.1).2, s.2 + 1)

/-- A pool is as it was: the same objects are idle, in the same order, and the counts are the same. Whoever asks next,
with a builder that works, gets an object exactly if there would have been one before. -/
structure AsBefore (p q : Pool ω) : Prop where
  idle : q.idle = p.idle
  in_use : q.inUse = p.inUse
  created : q.created = p.created
  discarded : q.discarded = p.discarded
  next : ∀ {τ : Type} {build : Builder τ ω}, AlwaysBuilds build → ∀ s t : τ,
    (∃ o, (q.acquire build s).1 = .done o) ↔ ∃ o, (p.acquire build t).1 = .done o

/-- Reserving a slot and giving it back changes nothing. -/
theorem vacate_of_reserved (h : p.checkout = .reserved q) : q.vacate = p := by
  obtain ⟨-, -, rfl⟩ := checkout_reserved h
  rfl

/-- A call without an object leaves the pool as it was. -/
theorem pool_of_tryAcquire (h : ∀ o, (p.tryAcquire build s).1 ≠ .done (some o)) :
    (p.tryAcquire build s).2.1 = p := by
  unfold tryAcquire at h ⊢
  cases hc : p.checkout with
  | exhausted => rfl
  | reused o q =>
    rw [hc] at h
    exact absurd rfl (h o)
  | reserved q =>
    rw [hc] at h
    simp only at h ⊢
    generalize build s = result at h
    rcases result with ⟨o | cause | _, s'⟩
    · exact absurd rfl (h o)
    · exact vacate_of_reserved hc
    · exact vacate_of_reserved hc

theorem acquire_done_iff {o : ω} : (p.acquire build s).1 = .done o ↔ (p.tryAcquire build s).1 = .done (some o) := by
  unfold acquire
  rcases p.tryAcquire build s with ⟨(- | o') | cause | _, q, s'⟩ <;> simp

/-- With a builder that works, only an exhausted pool has no object to lend. -/
theorem acquire_of_alwaysBuilds (hb : AlwaysBuilds build) (s : σ) :
    (∃ o, (p.acquire build s).1 = .done o) ↔ p.checkout ≠ .exhausted := by
  simp only [acquire_done_iff, tryAcquire]
  cases p.checkout with
  | exhausted => simp
  | reused o q => simp
  | reserved q =>
    obtain ⟨o, ho⟩ := hb s
    simp only
    rcases hs : build s with ⟨o' | cause | _, s'⟩
    · simp
    · rw [hs] at ho
      cases ho
    · rw [hs] at ho
      cases ho

theorem asBefore_self (p : Pool ω) : AsBefore p p := by
  refine ⟨rfl, rfl, rfl, rfl, ?_⟩
  intro τ build hb s t
  rw [acquire_of_alwaysBuilds hb, acquire_of_alwaysBuilds hb]

/-- The builder is called once if no object is idle and there is room for another one, and else not at all. -/
theorem calls_tryAcquire (p : Pool ω) (build : Builder σ ω) (s : σ) (n : Nat) :
    (p.tryAcquire (countCalls build) (s, n)).2.2.2 = if p.idle.isEmpty && p.hasRoom then n + 1 else n := by
  unfold tryAcquire checkout
  cases p.idle with
  | cons o rest => rfl
  | nil =>
    cases p.hasRoom with
    | false => rfl
    | true =>
      simp only [countCalls]
      rcases build s with ⟨o | cause | _, s'⟩ <;> rfl

theorem builder_of_acquire (p : Pool ω) (build : Builder σ ω) (s : σ) :
    (p.acquire build s).2.2 = (p.tryAcquire build s).2.2 := by
  unfold acquire
  split <;> simp only [*]

/-- What calls that end without an object make of a pool: nothing. However a call ends, the builder is called once if
no object is idle and there is room for another one, and else not at all. -/
structure FailsCleanly (p : Pool ω) : Prop where
  tryAcquire : ∀ {σ : Type} (build : Builder σ ω) (s : σ), (∀ o, (p.tryAcquire build s).1 ≠ .done (some o)) →
    AsBefore p (p.tryAcquire build s).2.1
  acquire : ∀ {σ : Type} (build : Builder σ ω) (s : σ), (∀ o, (p.acquire build s).1 ≠ .done o) →
    AsBefore p (p.acquire build s).2.1
  calls : ∀ {σ : Type} (build : Builder σ ω) (s : σ) (n : Nat),
    (p.tryAcquire (countCalls build) (s, n)).2.2.2 = (if p.idle.isEmpty && p.hasRoom then n + 1 else n) ∧
      (p.acquire (countCalls build) (s, n)).2.2.2 = if p.idle.isEmpty && p.hasRoom then n + 1 else n

end Pool

namespace Borrowing

variable {ω : Type} {p q r : Pool (Item ω)} {deeds : List (Deed ω)} {a b : Stage ω} {d : Option (Deed ω)}

/-! ## Move by move -/

/-- Whether a borrower's call ended without an object. -/
def Stage.isMiss : Stage ω → Bool
  | .ended .refused => true
  | .ended (.failed _) => true
  | .ended .crashed => true
  | _ => false

/-- What has become of a pool by the moves of one borrower who asked, and has no object yet: nothing, but for a slot
while an object is being built. -/
def Untouched (p : Pool (Item ω)) (deeds : List (Deed ω)) (q : Pool (Item ω)) : Stage ω → Prop
  | .asking _ => deeds = [] ∧ q = p
  | .waiting => deeds = [] ∧ q = p
  | .building => deeds = [] ∧ p.checkout = .reserved q
  | .ended .returned => True
  | .ended _ => deeds = [] ∧ q = p
  | _ => True

theorem untouched_of_move (hm : Move q a d r b) (h : Untouched p deeds q a) : Untouched p (deeds ++ d.toList) r b := by
  cases hm with
  | reserve hc =>
    obtain ⟨rfl, rfl⟩ := h
    exact ⟨rfl, hc⟩
  | refuse hc hm =>
    obtain ⟨rfl, rfl⟩ := h
    exact ⟨rfl, rfl⟩
  | wait hc =>
    obtain ⟨rfl, rfl⟩ := h
    exact ⟨rfl, rfl⟩
  | wake =>
    obtain ⟨rfl, rfl⟩ := h
    exact ⟨rfl, rfl⟩
  | expire hp =>
    obtain ⟨rfl, rfl⟩ := h
    exact ⟨rfl, rfl⟩
  | fail cause =>
    obtain ⟨rfl, hc⟩ := h
    exact ⟨rfl, Pool.vacate_of_reserved hc⟩
  | crash =>
    obtain ⟨rfl, hc⟩ := h
    exact ⟨rfl, Pool.vacate_of_reserved hc⟩
  | _ => trivial

theorem untouched_of_moves {manner : Manner} (h : Moves p (.asking manner) deeds q b) : Untouched p deeds q b := by
  induction h with
  | start => exact ⟨rfl, rfl⟩
  | move _ hm ih => exact untouched_of_move hm ih

theorem Untouched.of_isMiss (h : Untouched p deeds q b) (hmiss : b.isMiss = true) : deeds = [] ∧ q = p := by
  unfold Stage.isMiss at hmiss
  split at hmiss
  · exact h
  · exact h
  · exact h
  · cases hmiss

/-- What a borrower makes of a pool whose call ends without an object, after any number of waits: nothing. On the way an
object is built for the borrower only if none is idle, with one slot more in use. -/
structure MissesCleanly (p : Pool (Item ω)) : Prop where
  miss : ∀ {manner : Manner} {deeds : List (Deed ω)} {q : Pool (Item ω)} {b : Stage ω},
    Moves p (.asking manner) deeds q b → b.isMiss = true → deeds = [] ∧ Pool.AsBefore p q
  building : ∀ {manner : Manner} {deeds : List (Deed ω)} {q : Pool (Item ω)},
    Moves p (.asking manner) deeds q .building → p.idle = [] ∧ q = { p with inUse := p.inUse + 1 }

/-- A call that ends without an object, because there is none and no room for one, because the wait for one was in vain,
or because building one failed or crashed, leaves the pool as it was. Objects are built only if none is idle. -/
theorem failed_borrowing_leaves_pool (p : Pool ω) (m : Pool (Item ω)) : p.FailsCleanly ∧ MissesCleanly m := by
  constructor
  · refine ⟨?_, ?_, ?_⟩
    · intro σ build s hmiss
      rw [Pool.pool_of_tryAcquire hmiss]
      exact Pool.asBefore_self p
    · intro σ build s hmiss
      rw [acquire_pool, Pool.pool_of_tryAcquire fun o ho => hmiss o (Pool.acquire_done_iff.2 ho)]
      exact Pool.asBefore_self p
    · intro σ build s n
      have hcalls := Pool.calls_tryAcquire p build s n
      rw [Pool.builder_of_acquire]
      exact ⟨hcalls, hcalls⟩
  · refine ⟨?_, ?_⟩
    · intro manner deeds q b hmoves hmiss
      obtain ⟨hdeeds, rfl⟩ := (untouched_of_moves hmoves).of_isMiss hmiss
      exact ⟨hdeeds, Pool.asBefore_self q⟩
    · intro manner deeds q hmoves
      obtain ⟨-, hc⟩ := untouched_of_moves hmoves
      obtain ⟨hidle, -, hq⟩ := Pool.checkout_reserved hc
      exact ⟨hidle, hq⟩

/-- Room for one object, for which a borrower waits twenty milliseconds. -/
def oneSlotForAWhile : PoolPolicy := ⟨some 1, some (.ofMilliseconds 20)⟩

/-- A pool of that policy with nothing in it. -/
def vacant : Pool Nat := ⟨oneSlotForAWhile, [], 0, 0, 0⟩

/-- A pool of that policy whose only object is lent. -/
def lentOut : Pool (Item Nat) := ⟨oneSlotForAWhile, [], 1, 1, 0⟩

/-- A builder that fails, and counts its calls. -/
def failingBuilder : Builder Nat Nat := fun n => (.failed (.other "build failed"), n + 1)

/-- A builder that crashes, and counts its calls. -/
def crashingBuilder : Builder Nat Nat := fun n => (.crashed, n + 1)

/-- The vacant pool is as it was after building failed and after it crashed, and the other one after a wait in vain. -/
theorem one_slot_survives_failures :
    Pool.AsBefore vacant (vacant.tryAcquire failingBuilder 0).2.1 ∧
      Pool.AsBefore vacant (vacant.acquire crashingBuilder 0).2.1 ∧
      ∃ deeds q, Moves lentOut (.asking .patient) deeds q (.ended .refused) ∧ Pool.AsBefore lentOut q := by
  obtain ⟨hcalls, hmoves⟩ := failed_borrowing_leaves_pool vacant lentOut
  have hfail : ∀ o, (vacant.tryAcquire failingBuilder 0).1 ≠ .done (some o) := by
    intro o ho
    cases ho
  have hcrash : ∀ o, (vacant.acquire crashingBuilder 0).1 ≠ .done o := by
    intro o ho
    cases ho
  have hwait : Moves lentOut (.asking .patient) [] lentOut (.ended .refused) :=
    ((Moves.single (Move.wait rfl)).move (Move.expire (Option.some_ne_none _))).move (Move.refuse rfl nofun)
  exact ⟨hcalls.tryAcquire _ _ hfail, hcalls.acquire _ _ hcrash, [], lentOut, hwait, (hmoves.miss hwait rfl).2⟩

end Borrowing

end ToleranceClustering
