import ToleranceClustering.Proofs.Borrowing

/-!
# Lending by turns

Lending an object of a pool takes a few calls of functions of the pool, one turn (`Pool.Turn`) each, and after each of
them the borrower has a slot or an object, or nothing. `Pool.lendPhases` lists what comes of them up to the end of the
loan, which the borrower reaches with nothing (`run_lend`), however the loan ends.

A turn changes the count of the pool by what it changes for the borrower (`Turn.inUse`).
-/

namespace ToleranceClustering

/-- From `a` to `b` through the entries of a list, each one step from the one before it. -/
inductive Run {M : Type} (R : M → M → Prop) : M → List M → M → Prop where
  | stop (a : M) : Run R a [] a
  | next {a b c : M} {ms : List M} : R a b → Run R b ms c → Run R a (b :: ms) c

namespace Run

variable {M N : Type} {R : M → M → Prop} {S : N → N → Prop} {a b c : M} {ms ns : List M}

theorem append (h : Run R a ms b) (h' : Run R b ns c) : Run R a (ms ++ ns) c := by
  induction h with
  | stop => exact h'
  | next hr _ ih => exact Run.next hr (ih h')

theorem map {f : M → N} (hf : ∀ x y, R x y → S (f x) (f y)) (h : Run R a ms b) : Run S (f a) (ms.map f) (f b) := by
  induction h with
  | stop => exact Run.stop _
  | next hr _ ih => exact Run.next (hf _ _ hr) ih

/-- The image of a run of one step at least may start elsewhere. -/
theorem mapFrom {f : M → N} {a' : N} (hfirst : ∀ y, R a y → S a' (f y)) (hf : ∀ x y, R x y → S (f x) (f y))
    (hne : ms ≠ []) (h : Run R a ms b) : Run S a' (ms.map f) (f b) := by
  cases h with
  | stop => exact absurd rfl hne
  | next hr h => exact Run.next (hfirst _ hr) (h.map hf)

/-- What every step keeps holds all along. -/
theorem keeps {I : M → Prop} (hstep : ∀ x y, R x y → I x → I y) (h : Run R a ms b) (ha : I a) :
    (∀ m ∈ ms, I m) ∧ I b := by
  induction h with
  | stop => exact ⟨nofun, ha⟩
  | next hr _ ih =>
    obtain ⟨hms, hb⟩ := ih (hstep _ _ hr ha)
    exact ⟨List.forall_mem_cons.2 ⟨hstep _ _ hr ha, hms⟩, hb⟩

end Run

/-! ## One pool -/

namespace Pool

variable {σ ω β : Type} {p q : Pool ω}

/-- A call of a function of a pool, with whether the caller has a slot or an object before it and after it. -/
inductive Turn : Pool ω → Bool → Pool ω → Bool → Prop where
  | reuse {p q : Pool ω} {o : ω} : p.checkout = .reused o q → Turn p false q true
  | reserve {p q : Pool ω} : p.checkout = .reserved q → Turn p false q true
  | refuse {p : Pool ω} : p.checkout = .exhausted → Turn p false p false
  | fulfil (p : Pool ω) : Turn p true p.fulfil true
  | vacate (p : Pool ω) : Turn p true p.vacate false
  | settle (p : Pool ω) (r : Outcome ω) : Turn p true (p.settle r) false

theorem check_of_ofPolicy {policy : PoolPolicy} (h : ofPolicy policy = .ok p) : policy.check = .ok () := by
  unfold ofPolicy at h
  cases hcheck : policy.check with
  | error e =>
    rw [hcheck] at h
    cases h
  | ok u => rfl

theorem settle_inUse (p : Pool ω) (r : Outcome ω) :
    (p.settle r).inUse = p.inUse - 1 ∧ (p.settle r).policy = p.policy := by
  cases r <;> exact ⟨rfl, rfl⟩

/-- The count of a pool changes by what the caller gains or gives back. -/
theorem Turn.inUse {before after : Bool} (h : Turn p before q after) (hb : before.toNat ≤ p.inUse) :
    q.inUse + before.toNat = p.inUse + after.toNat := by
  cases h with
  | reuse hc =>
    obtain ⟨rest, -, rfl⟩ := checkout_reused hc
    rfl
  | reserve hc =>
    obtain ⟨-, -, rfl⟩ := checkout_reserved hc
    rfl
  | refuse _ => rfl
  | fulfil => rfl
  | vacate => exact Nat.sub_add_cancel hb
  | settle r =>
    rw [(settle_inUse p r).1]
    exact Nat.sub_add_cancel hb

theorem Turn.policy_eq {before after : Bool} (h : Turn p before q after) : q.policy = p.policy := by
  cases h with
  | reuse hc =>
    obtain ⟨rest, -, rfl⟩ := checkout_reused hc
    rfl
  | reserve hc =>
    obtain ⟨-, -, rfl⟩ := checkout_reserved hc
    rfl
  | refuse _ => rfl
  | fulfil => rfl
  | vacate => rfl
  | settle r => exact (settle_inUse p r).2

/-- A pool and its builder's state while an object is lent, and whether the borrower has a slot or an object of it. -/
structure Phase (σ ω : Type) where
  pool : Pool ω
  builder : σ
  busy : Bool

/-- From one phase to the next a function of the pool is called. -/
def Phase.Follows (x y : Phase σ ω) : Prop := Turn x.pool x.busy y.pool y.busy

/-- The phases of lending an object. -/
def lendPhases (p : Pool ω) (build : Builder σ ω) (s : σ) (reset : ω → Outcome ω) (use : ω → Option β × ω) :
    List (Phase σ ω) :=
  match p.checkout with
  | .exhausted => [⟨p, s, false⟩]
  | .reused o q => [⟨q, s, true⟩, ⟨q.release reset (use o).2, s, false⟩]
  | .reserved q =>
    match build s with
    | (.done o, s') => [⟨q, s, true⟩, ⟨q.fulfil, s', true⟩, ⟨q.fulfil.release reset (use o).2, s', false⟩]
    | (_, s') => [⟨q, s, true⟩, ⟨q.vacate, s', false⟩]

section Lend

variable {p q : Pool ω} {build : Builder σ ω} {s s' : σ} {o : ω}

theorem lend_exhausted (hc : p.checkout = .exhausted) (build : Builder σ ω) (s : σ) (reset : ω → Outcome ω)
    (use : ω → Option β × ω) :
    p.lend build s reset use = (.failed (.poolExhausted (p.policy.patience.getD ⟨0⟩)), p, s) := by
  simp only [lend, acquire, tryAcquire, hc]

/-- An idle object is used and taken back. -/
theorem lend_reused (hc : p.checkout = .reused o q) (build : Builder σ ω) (s : σ) (reset : ω → Outcome ω)
    (use : ω → Option β × ω) :
    p.lend build s reset use = ((use o).1.elim .crashed .done, q.release reset (use o).2, s) := by
  simp only [lend, acquire, tryAcquire, hc]
  cases use o with
  | mk result o' => cases result <;> rfl

/-- So is one that was built. -/
theorem lend_built (hc : p.checkout = .reserved q) (hb : build s = (.done o, s')) (reset : ω → Outcome ω)
    (use : ω → Option β × ω) :
    p.lend build s reset use = ((use o).1.elim .crashed .done, q.fulfil.release reset (use o).2, s') := by
  simp only [lend, acquire, tryAcquire, hc, hb]
  cases use o with
  | mk result o' => cases result <;> rfl

theorem lend_failed {cause : Failure} (hc : p.checkout = .reserved q) (hb : build s = (.failed cause, s'))
    (reset : ω → Outcome ω) (use : ω → Option β × ω) :
    p.lend build s reset use = (.failed cause, q.vacate, s') := by
  simp only [lend, acquire, tryAcquire, hc, hb]

theorem lend_crashed (hc : p.checkout = .reserved q) (hb : build s = (.crashed, s')) (reset : ω → Outcome ω)
    (use : ω → Option β × ω) : p.lend build s reset use = (.crashed, q.vacate, s') := by
  simp only [lend, acquire, tryAcquire, hc, hb]

end Lend

/-- Lending goes through its phases, and at the end of the last one the borrower has nothing. -/
theorem run_lend (p : Pool ω) (build : Builder σ ω) (s : σ) (reset : ω → Outcome ω) (use : ω → Option β × ω) :
    Run Phase.Follows ⟨p, s, false⟩ (p.lendPhases build s reset use)
      ⟨(p.lend build s reset use).2.1, (p.lend build s reset use).2.2, false⟩ := by
  unfold lendPhases
  cases hc : p.checkout with
  | exhausted =>
    rw [lend_exhausted hc]
    exact Run.next (Turn.refuse hc) (Run.stop _)
  | reused o q =>
    rw [lend_reused hc]
    exact Run.next (Turn.reuse hc) (Run.next (Turn.settle q _) (Run.stop _))
  | reserved q =>
    rcases hb : build s with ⟨o | cause | _, s'⟩
    · rw [lend_built hc hb]
      exact Run.next (Turn.reserve hc) (Run.next (Turn.fulfil q) (Run.next (Turn.settle q.fulfil _) (Run.stop _)))
    · rw [lend_failed hc hb]
      exact Run.next (Turn.reserve hc) (Run.next (Turn.vacate q) (Run.stop _))
    · rw [lend_crashed hc hb]
      exact Run.next (Turn.reserve hc) (Run.next (Turn.vacate q) (Run.stop _))

/-- Lending fails only on an exhausted pool, or as the building does. -/
theorem failed_of_lend {p : Pool ω} {build : Builder σ ω} {s : σ} {reset : ω → Outcome ω} {use : ω → Option β × ω}
    {f : Failure} (h : (p.lend build s reset use).1 = .failed f) :
    p.checkout = .exhausted ∨ (build s).1 = .failed f := by
  cases hc : p.checkout with
  | exhausted => exact Or.inl rfl
  | reused o q =>
    rw [lend_reused hc] at h
    cases hu : (use o).1 <;> rw [hu] at h <;> cases h
  | reserved q =>
    rcases hb : build s with ⟨o | cause | _, s'⟩
    · rw [lend_built hc hb] at h
      cases hu : (use o).1 <;> rw [hu] at h <;> cases h
    · rw [lend_failed hc hb] at h
      exact Or.inr (congrArg Outcome.failed (Outcome.failed.inj h))
    · rw [lend_crashed hc hb] at h
      cases h

/-- A pool with nothing in use and room for one object is not exhausted. -/
theorem checkout_ne_exhausted {p : Pool ω} (huse : p.inUse = 0) (hcheck : p.policy.check = .ok ()) :
    p.checkout ≠ .exhausted := by
  intro hc
  obtain ⟨hidle, n, hn, hlive⟩ := checkout_exhausted hc
  rw [live, huse, hidle] at hlive
  obtain rfl : n = 0 := Nat.le_zero.1 hlive
  rw [PoolPolicy.check, hn] at hcheck
  cases hcheck

theorem lendPhases_ne_nil (p : Pool ω) (build : Builder σ ω) (s : σ) (reset : ω → Outcome ω) (use : ω → Option β × ω) :
    p.lendPhases build s reset use ≠ [] := by
  unfold lendPhases
  cases p.checkout with
  | exhausted => exact List.cons_ne_nil _ _
  | reused o q => exact List.cons_ne_nil _ _
  | reserved q =>
    simp only
    rcases build s with ⟨o | cause | _, s'⟩ <;> exact List.cons_ne_nil _ _

end Pool

end ToleranceClustering
