import ToleranceClustering.Proofs.Borrowing

/-!
# The counts of a pool

The pool sees no borrowers, only its counts. They are right as long as `Accounts` holds: the objects in use are those of the
guards, which have an object or still have to tell that it is gone, and the slots, for which an object is being built; and
every object built is idle, guarded or dropped. Each function of the pool keeps its accounts when borrowers change stage
with it, so every move does (`accounts_of_move`), and every run (`accounts_of_reaches`).
-/

namespace ToleranceClustering

/-! ## The functions of a pool -/

/-- The counts of a pool with this policy, this many guards and this many reserved slots. -/
structure Pool.Accounts {ω : Type} (policy : PoolPolicy) (p : Pool ω) (guards slots : Nat) : Prop where
  policy_eq : p.policy = policy
  bounded : ∀ n, policy.maxSize = some n → p.idle.length + p.inUse ≤ n
  in_use : p.inUse = guards + slots
  created : p.created = p.idle.length + guards + p.discarded

namespace Pool.Accounts

variable {ω : Type} {policy : PoolPolicy} {p p' : Pool ω} {guards slots : Nat}

theorem empty (policy : PoolPolicy) : Accounts policy (⟨policy, [], 0, 0, 0⟩ : Pool ω) 0 0 :=
  ⟨rfl, fun n _ => Nat.zero_le n, rfl, rfl⟩

theorem reused (h : Accounts policy p guards slots) {o : ω} (hc : p.checkout = .reused o p') :
    Accounts policy p' (guards + 1) slots := by
  obtain ⟨hpolicy, hbound, huse, hcreated⟩ := h
  obtain ⟨rest, hidle, rfl⟩ := checkout_reused hc
  rw [hidle, List.length_cons] at hbound hcreated
  refine ⟨hpolicy, fun n hn => ?_, ?_, ?_⟩ <;> simp only
  · have := hbound n hn
    omega
  · omega
  · omega

theorem reserved (h : Accounts policy p guards slots) (hc : p.checkout = .reserved p') :
    Accounts policy p' guards (slots + 1) := by
  obtain ⟨hpolicy, hbound, huse, hcreated⟩ := h
  obtain ⟨hidle, hroom, rfl⟩ := checkout_reserved hc
  rw [hpolicy, live] at hroom
  refine ⟨hpolicy, fun n hn => ?_, ?_, hcreated⟩ <;> simp only
  · have := hroom n hn
    omega
  · omega

/-- A pool is exhausted only if it has a bound, nothing is idle and all of the bound is in use. -/
theorem exhausted (h : Accounts policy p guards slots) (hc : p.checkout = .exhausted) :
    ∃ n, policy.maxSize = some n ∧ p.idle = [] ∧ p.inUse = n := by
  obtain ⟨hidle, n, hn, hfull⟩ := checkout_exhausted hc
  rw [h.policy_eq] at hn
  have hbound := h.bounded n hn
  rw [live, hidle, List.length_nil] at hfull
  rw [hidle, List.length_nil] at hbound
  exact ⟨n, hn, hidle, by omega⟩

theorem fulfil (h : Accounts policy p guards (slots + 1)) : Accounts policy p.fulfil (guards + 1) slots := by
  obtain ⟨hpolicy, hbound, huse, hcreated⟩ := h
  refine ⟨hpolicy, hbound, ?_, ?_⟩ <;> simp only [Pool.fulfil] <;> omega

theorem vacate (h : Accounts policy p guards (slots + 1)) : Accounts policy p.vacate guards slots := by
  obtain ⟨hpolicy, hbound, huse, hcreated⟩ := h
  refine ⟨hpolicy, fun n hn => ?_, ?_, hcreated⟩ <;> simp only [Pool.vacate]
  · have := hbound n hn
    omega
  · omega

theorem discard (h : Accounts policy p (guards + 1) slots) : Accounts policy p.discard guards slots := by
  obtain ⟨hpolicy, hbound, huse, hcreated⟩ := h
  refine ⟨hpolicy, fun n hn => ?_, ?_, ?_⟩ <;> simp only [Pool.discard]
  · have := hbound n hn
    omega
  · omega
  · omega

theorem settle (h : Accounts policy p (guards + 1) slots) (r : Outcome ω) : Accounts policy (p.settle r) guards slots := by
  cases r with
  | failed cause => exact h.discard
  | crashed => exact h.discard
  | done o =>
    obtain ⟨hpolicy, hbound, huse, hcreated⟩ := h
    refine ⟨hpolicy, fun n hn => ?_, ?_, ?_⟩ <;> simp only [Pool.settle, List.length_cons]
    · have := hbound n hn
      omega
    · omega
    · omega

end Pool.Accounts

namespace Borrowing

variable {ω : Type} {policy : PoolPolicy} {p p' : Pool (Item ω)} {a b : Stage ω} {d : Option (Deed ω)}

/-! ## The moves of a borrower -/

/-- Whether a borrower has a guard. -/
def Stage.isGuard : Stage ω → Bool
  | .holding _ => true
  | .resetting _ => true
  | .parting => true
  | _ => false

/-- Whether a borrower has a reserved slot, and no guard yet. -/
def Stage.isSlot : Stage ω → Bool
  | .building => true
  | _ => false

/-- The number of guards among some borrowers. -/
def guards (stages : List (Stage ω)) : Nat := stages.countP Stage.isGuard

/-- The number of reserved slots among some borrowers. -/
def slots (stages : List (Stage ω)) : Nat := stages.countP Stage.isSlot

theorem guards_middle (before after : List (Stage ω)) (a : Stage ω) :
    guards (before ++ a :: after) = guards (before ++ after) + guards [a] := by
  simp only [guards, List.countP_append, List.countP_cons, List.countP_nil]
  omega

theorem slots_middle (before after : List (Stage ω)) (a : Stage ω) :
    slots (before ++ a :: after) = slots (before ++ after) + slots [a] := by
  simp only [slots, List.countP_append, List.countP_cons, List.countP_nil]
  omega

theorem guards_enter (t : Traffic ω) (manner : Manner) : guards (t.enter manner).stages = guards t.stages := by
  simp only [Traffic.enter]
  rw [guards_middle, List.append_nil]
  rfl

theorem slots_enter (t : Traffic ω) (manner : Manner) : slots (t.enter manner).stages = slots t.stages := by
  simp only [Traffic.enter]
  rw [slots_middle, List.append_nil]
  rfl

/-- A move of one borrower keeps the accounts, whatever guards and slots the others have. -/
theorem accounts_of_move {g s : Nat} (hm : Move p a d p' b) (h : Pool.Accounts policy p (g + guards [a]) (s + slots [a])) :
    Pool.Accounts policy p' (g + guards [b]) (s + slots [b]) := by
  cases hm with
  | reuse hc => exact h.reused hc
  | reserve hc => exact h.reserved hc
  | build o => exact h.fulfil
  | fail cause => exact h.vacate
  | crash => exact h.vacate
  | reset x r => exact h.settle _
  | part => exact h.discard
  | _ => exact h

/-! ## A run -/

theorem accounts_of_step {t t' : Traffic ω} (hs : Step t d t')
    (h : Pool.Accounts policy t.pool (guards t.stages) (slots t.stages)) :
    Pool.Accounts policy t'.pool (guards t'.stages) (slots t'.stages) := by
  cases hs with
  | acquire =>
    rw [guards_enter, slots_enter]
    exact h
  | tryAcquire =>
    rw [guards_enter, slots_enter]
    exact h
  | move before after hm =>
    rw [guards_middle, slots_middle] at h ⊢
    exact accounts_of_move hm h

theorem accounts_of_reaches {history : List (Deed ω)} {t : Traffic ω}
    (hr : Reaches ⟨policy, [], 0, 0, 0⟩ history t) :
    Pool.Accounts policy t.pool (guards t.stages) (slots t.stages) := by
  induction hr with
  | start => exact Pool.Accounts.empty policy
  | step _ hs ih => exact accounts_of_step hs ih

/-- The counts of a pool with this policy, and what the moves that its borrowers may make next have to do with them. -/
structure Balanced (policy : PoolPolicy) (t : Traffic ω) : Prop where
  bounded : ∀ n, policy.maxSize = some n → t.pool.idle.length + t.pool.inUse ≤ n
  in_use : t.pool.inUse = guards t.stages + slots t.stages
  created : t.pool.created = t.pool.idle.length + guards t.stages + t.pool.discarded
  no_underflow : ∀ a ∈ t.stages, ∀ d p b, Move t.pool a d p b →
    p.inUse + (guards [a] + slots [a]) = t.pool.inUse + (guards [b] + slots [b])
  refused : ∀ a ∈ t.stages, ∀ d p, Move t.pool a d p (.ended .refused) →
    ∃ n, policy.maxSize = some n ∧ t.pool.idle = [] ∧ t.pool.inUse = n
  at_rest : guards t.stages = 0 →
    t.pool.idle.length + t.pool.discarded = t.pool.created ∧ (slots t.stages = 0 → t.pool.inUse = 0)

/-- Whatever its borrowers do, the counts of a pool are right, no move takes from a count of zero, and only a borrower who
finds all of the bound in use is refused. -/
theorem pool_keeps_count (hp : Pool.ofPolicy policy = .ok p) {history : List (Deed ω)} {t : Traffic ω}
    (hr : Reaches p history t) : Balanced policy t := by
  rw [Pool.eq_of_ofPolicy hp] at hr
  have h := accounts_of_reaches hr
  refine ⟨h.bounded, h.in_use, h.created, ?_, ?_, ?_⟩
  · intro a ha d p b hm
    obtain ⟨before, after, hsplit⟩ := List.append_of_mem ha
    rw [hsplit, guards_middle, slots_middle] at h
    have hnext := (accounts_of_move hm h).in_use
    have huse := h.in_use
    omega
  · intro a _ d p hm
    cases hm with
    | refuse hc _ => exact h.exhausted hc
  · intro hg
    have huse := h.in_use
    have hcreated := h.created
    exact ⟨by omega, fun hs => by omega⟩

/-- Room for one object. -/
def oneSlot : PoolPolicy := ⟨some 1, none⟩

/-- A borrower has the only object, a second one is refused, the reset of the object crashes, and for a third borrower
another one is being built. -/
theorem one_slot_keeps_count :
    ∃ p : Pool (Item Nat), Pool.ofPolicy oneSlot = .ok p ∧ ∃ history t, Reaches p history t ∧ Balanced oneSlot t ∧
      t.stages = [.ended .returned, .ended .refused, .building] ∧ t.pool.inUse = 1 ∧ t.pool.discarded = 1 := by
  have hp : Pool.ofPolicy oneSlot = .ok (⟨oneSlot, [], 0, 0, 0⟩ : Pool (Item Nat)) := rfl
  have hheld := (Reaches.start.step (Step.tryAcquire ⟨⟨oneSlot, [], 0, 0, 0⟩, []⟩)).moves [] []
    ((Moves.single (Move.reserve rfl)).move (Move.build _ 7))
  have hrefused := (hheld.step (Step.tryAcquire _)).moves [.holding ⟨0, 7⟩] [] (Moves.single (Move.refuse rfl nofun))
  have hreset := hrefused.moves [] [.ended .refused]
    ((Moves.single (Move.giveBack _ ⟨0, 7⟩)).move (Move.reset _ ⟨0, 7⟩ .crashed))
  have hr := (hreset.step (Step.acquire _)).moves [.ended .returned, .ended .refused] []
    (Moves.single (Move.reserve rfl))
  exact ⟨_, hp, _, _, hr, pool_keeps_count hp hr, rfl, rfl, rfl⟩

end Borrowing

end ToleranceClustering
