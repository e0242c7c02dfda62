import ToleranceClustering.Proofs.PoolBalance
import ToleranceClustering.Proofs.PoolTurns

/-!
# Pools stocked with good objects

A pool is stocked (`Pool.Stocked`) if its idle objects are good, in whatever sense, and its counts fit the loans. As
long as new objects are good, and using and resetting keep them so, each function of the pool keeps it stocked and lends
good objects only.
-/

namespace ToleranceClustering.Pool

variable {σ ω β : Type} {policy : PoolPolicy} {Good : ω → Prop} {p q : Pool ω} {lent : Nat} {build : Builder σ ω}
  {s s' : σ} {reset : ω → Outcome ω}

/-- Idle objects are good, and the counts are those of a pool with this policy and this many loans. -/
structure Stocked (policy : PoolPolicy) (Good : ω → Prop) (p : Pool ω) (lent : Nat) : Prop where
  accounts : p.Accounts policy lent 0
  idle : ∀ o ∈ p.idle, Good o

/-- What the builder makes is good. -/
def BuildsGood (Good : ω → Prop) (build : Builder σ ω) (s : σ) : Prop := ∀ o s', build s = (.done o, s') → Good o

/-- What is good and can be reset is good afterwards. -/
def ResetsGood (Good : ω → Prop) (reset : ω → Outcome ω) : Prop := ∀ o o', Good o → reset o = .done o' → Good o'

namespace Stocked

theorem reused (h : Stocked policy Good p lent) {o : ω} (hc : p.checkout = .reused o q) :
    Good o ∧ Stocked policy Good q (lent + 1) := by
  have haccounts := h.accounts.reused hc
  obtain ⟨rest, hidle, rfl⟩ := checkout_reused hc
  have hgood := h.idle
  rw [hidle] at hgood
  obtain ⟨ho, hrest⟩ := List.forall_mem_cons.1 hgood
  exact ⟨ho, haccounts, hrest⟩

/-- A slot is reserved only in a pool without idle objects, and stays without. -/
theorem reserved (h : Stocked policy Good p lent) (hc : p.checkout = .reserved q) :
    Stocked policy Good q.fulfil (lent + 1) ∧ Stocked policy Good q.vacate lent := by
  have haccounts := h.accounts.reserved hc
  obtain ⟨-, -, rfl⟩ := checkout_reserved hc
  exact ⟨⟨haccounts.fulfil, h.idle⟩, ⟨haccounts.vacate, h.idle⟩⟩

theorem discard (h : Stocked policy Good p (lent + 1)) : Stocked policy Good p.discard lent :=
  ⟨h.accounts.discard, h.idle⟩

theorem release (h : Stocked policy Good p (lent + 1)) (hreset : ResetsGood Good reset) {o : ω} (ho : Good o) :
    Stocked policy Good (p.release reset o) lent := by
  refine ⟨h.accounts.settle (reset o), ?_⟩
  unfold Pool.release
  cases hr : reset o with
  | done o' => exact List.forall_mem_cons.2 ⟨hreset o o' ho hr, h.idle⟩
  | failed cause => exact h.idle
  | crashed => exact h.idle

/-- Borrowing gives a good object, or else leaves the loans as they are. -/
theorem acquire (h : Stocked policy Good p lent) (hbuild : BuildsGood Good build s) :
    (∀ o, (p.acquire build s).1 = .done o → Good o ∧ Stocked policy Good (p.acquire build s).2.1 (lent + 1)) ∧
    ((∀ o, (p.acquire build s).1 ≠ .done o) → Stocked policy Good (p.acquire build s).2.1 lent) := by
  unfold Pool.acquire Pool.tryAcquire
  cases hc : p.checkout with
  | exhausted => exact ⟨nofun, fun _ => h⟩
  | reused o q =>
    refine ⟨?_, fun hnone => absurd rfl (hnone o)⟩
    intro o' ho
    obtain rfl := Outcome.done.inj ho
    exact h.reused hc
  | reserved q =>
    obtain ⟨hfulfil, hvacate⟩ := h.reserved hc
    rcases hb : build s with ⟨o | cause | _, s'⟩
    · refine ⟨?_, fun hnone => absurd rfl (hnone o)⟩
      intro o' ho
      obtain rfl := Outcome.done.inj ho
      exact ⟨hbuild o s' hb, hfulfil⟩
    · exact ⟨nofun, fun _ => hvacate⟩
    · exact ⟨nofun, fun _ => hvacate⟩

/-- Lending leaves the loans as they are. -/
theorem lend {use : ω → Option β × ω} (h : Stocked policy Good p lent) (hbuild : BuildsGood Good build s)
    (hreset : ResetsGood Good reset) (huse : ∀ o, Good o → Good (use o).2) :
    Stocked policy Good (p.lend build s reset use).2.1 lent := by
  cases hc : p.checkout with
  | exhausted =>
    rw [lend_exhausted hc]
    exact h
  | reused o q =>
    obtain ⟨ho, hq⟩ := h.reused hc
    rw [lend_reused hc]
    exact hq.release hreset (huse o ho)
  | reserved q =>
    obtain ⟨hfulfil, hvacate⟩ := h.reserved hc
    rcases hb : build s with ⟨o | cause | _, s'⟩
    · rw [lend_built hc hb]
      exact hfulfil.release hreset (huse o (hbuild o s' hb))
    · rw [lend_failed hc hb]
      exact hvacate
    · rw [lend_crashed hc hb]
      exact hvacate

/-- A pool with less in use than its bound is not exhausted, and the other way round. -/
theorem checkout_ne_exhausted_iff (h : Stocked policy Good p lent) :
    p.checkout ≠ .exhausted ↔ ∀ n, policy.maxSize = some n → p.inUse < n := by
  constructor
  · intro hc n hn
    have hbound := h.accounts.bounded n hn
    cases hc' : p.checkout with
    | exhausted => exact absurd hc' hc
    | reused o q =>
      obtain ⟨rest, hidle, -⟩ := checkout_reused hc'
      rw [hidle, List.length_cons] at hbound
      omega
    | reserved q =>
      obtain ⟨hidle, hroom, -⟩ := checkout_reserved hc'
      rw [h.accounts.policy_eq, live, hidle] at hroom
      exact hroom n hn
  · intro hroom hc
    obtain ⟨n, hn, -, huse⟩ := h.accounts.exhausted hc
    have := hroom n hn
    omega

end Stocked

/-- Borrowing leaves the builder as it was, or as building leaves it. -/
theorem acquire_builder (p : Pool ω) (build : Builder σ ω) (s : σ) :
    (p.acquire build s).2.2 = s ∨ (p.acquire build s).2.2 = (build s).2 := by
  unfold acquire tryAcquire
  cases p.checkout with
  | exhausted => exact Or.inl rfl
  | reused o q => exact Or.inl rfl
  | reserved q => rcases build s with ⟨o | cause | _, s'⟩ <;> exact Or.inr rfl

theorem lend_builder (p : Pool ω) (build : Builder σ ω) (s : σ) (reset : ω → Outcome ω) (use : ω → Option β × ω) :
    (p.lend build s reset use).2.2 = (p.acquire build s).2.2 := by
  unfold lend
  rcases p.acquire build s with ⟨o | cause | _, q, s'⟩
  · simp only
    rcases use o with ⟨result | _, o'⟩ <;> rfl
  · rfl
  · rfl

/-- A pool that is not exhausted lends a good object if the builder makes one. -/
theorem lend_done {use : ω → Option β × ω} {b : β} (h : Stocked policy Good p lent) (hc : p.checkout ≠ .exhausted)
    {a : ω} (hbuild : (build s).1 = .done a) (ha : Good a) (huse : ∀ o, Good o → (use o).1 = some b) :
    (p.lend build s reset use).1 = .done b := by
  cases hc' : p.checkout with
  | exhausted => exact absurd hc' hc
  | reused o q =>
    rw [lend_reused hc', huse o (h.reused hc').1]
    rfl
  | reserved q =>
    have hb : build s = (.done a, (build s).2) := Prod.ext hbuild rfl
    rw [lend_built hc' hb, huse a ha]
    rfl

/-- If no object is good, lending fails as building does. -/
theorem lend_failed_of_none {use : ω → Option β × ω} {f : Failure} (h : Stocked policy Good p lent)
    (hc : p.checkout ≠ .exhausted) (hnone : ∀ o, ¬ Good o) (hbuild : (build s).1 = .failed f) :
    (p.lend build s reset use).1 = .failed f := by
  cases hc' : p.checkout with
  | exhausted => exact absurd hc' hc
  | reused o q => exact absurd (h.reused hc').1 (hnone o)
  | reserved q =>
    have hb : build s = (.failed f, (build s).2) := Prod.ext hbuild rfl
    rw [lend_failed hc' hb]

end ToleranceClustering.Pool
