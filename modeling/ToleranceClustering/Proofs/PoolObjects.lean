import Mathlib.Data.List.Perm.Basic
import ToleranceClustering.Proofs.Borrowing

/-!
# The objects of a pool

Every object that was built is in one place: idle, with one guard, or dropped. What happened to it last tells the place
(`Placed`), and so what may happen next (`Lawful`): the pool hands out an object that is new, or one whose reset succeeded
after it was held last, and never one that was dropped. A move carries one object from one place to another (`Handling`),
which keeps all this (`placed_of_handling`), and so does a run (`placed_of_reaches`, `lawful_of_reaches`).
-/

namespace ToleranceClustering

namespace Borrowing

variable {ω : Type}

/-- The object that a borrower has. -/
def Stage.item? : Stage ω → Option (Item ω)
  | .holding x => some x
  | .resetting x => some x
  | _ => none

/-- The objects that borrowers have. -/
def held (stages : List (Stage ω)) : List (Item ω) := stages.filterMap Stage.item?

/-- The numbers of some objects. -/
def numbers (items : List (Item ω)) : List Nat := items.map Item.number

theorem numbers_append (xs ys : List (Item ω)) : numbers (xs ++ ys) = numbers xs ++ numbers ys := List.map_append

/-- The numbers of the objects that were dropped. -/
def dropped (history : List (Deed ω)) : List Nat := numbers ((history.filter Deed.drops).map Deed.item)

/-- The last thing that happened to an object. -/
def lastDeed? (history : List (Deed ω)) (n : Nat) : Option (Deed ω) :=
  (history.filter fun d => d.item.number == n).getLast?

/-- What a move does with the objects: the idle ones, the one that the borrower has and the number of those built, before it
and after it. -/
inductive Handling : List (Item ω) → Option (Item ω) → Nat → Option (Deed ω) →
    List (Item ω) → Option (Item ω) → Nat → Prop where
  | quiet {idle : List (Item ω)} {x y : Option (Item ω)} {n : Nat} :
      x.map Item.number = y.map Item.number → Handling idle x n none idle y n
  | build {idle : List (Item ω)} {n : Nat} (o : ω) :
      Handling idle none n (some (.built ⟨n, o⟩)) idle (some ⟨n, o⟩) (n + 1)
  | reuse {idle : List (Item ω)} {n : Nat} (x : Item ω) :
      Handling (x :: idle) none n (some (.reused x)) idle (some x) n
  | restore {idle : List (Item ω)} {n : Nat} (x : Item ω) (o : ω) :
      Handling idle (some x) n (some (.restored ⟨x.number, o⟩)) (⟨x.number, o⟩ :: idle) none n
  | drop {idle : List (Item ω)} {n : Nat} {d : Deed ω} :
      d.drops = true → Handling idle (some d.item) n (some d) idle none n

variable {p p' : Pool (Item ω)} {a b : Stage ω} {d : Option (Deed ω)}

theorem handling_of_move (hm : Move p a d p' b) :
    Handling p.idle a.item? p.created d p'.idle b.item? p'.created := by
  cases hm with
  | reuse hc =>
    obtain ⟨rest, hidle, rfl⟩ := Pool.checkout_reused hc
    rw [hidle]
    exact Handling.reuse _
  | reserve hc =>
    obtain ⟨hidle, -, rfl⟩ := Pool.checkout_reserved hc
    exact Handling.quiet rfl
  | build o => exact Handling.build o
  | reset x r =>
    cases r with
    | done o => exact Handling.restore x o
    | failed cause => exact Handling.drop (d := .spoiled x) rfl
    | crashed => exact Handling.drop (d := .spoiled x) rfl
  | giveUp x => exact Handling.drop (d := .givenUp x) rfl
  | _ => exact Handling.quiet rfl

/-! ## The last deed -/

theorem lastDeed?_append_self (history : List (Deed ω)) (d : Deed ω) :
    lastDeed? (history ++ [d]) d.item.number = some d := by
  unfold lastDeed?
  rw [List.filter_append, List.filter_singleton, beq_self_eq_true]
  exact List.getLast?_concat

theorem lastDeed?_append_of_ne (history : List (Deed ω)) {d : Deed ω} {n : Nat} (h : d.item.number ≠ n) :
    lastDeed? (history ++ [d]) n = lastDeed? history n := by
  unfold lastDeed?
  rw [List.filter_append, List.filter_singleton, beq_eq_false_iff_ne.2 h]
  exact congrArg List.getLast? (List.append_nil _)

theorem lastDeed?_eq_none {history : List (Deed ω)} {n : Nat} :
    lastDeed? history n = none ↔ ∀ d ∈ history, d.item.number ≠ n := by
  unfold lastDeed?
  rw [List.getLast?_eq_none_iff, List.filter_eq_nil_iff]
  simp only [beq_iff_eq, ne_eq]

/-- Whether the object was handed out. -/
def Deed.hands : Deed ω → Bool
  | .built _ => true
  | .reused _ => true
  | _ => false

/-- Every object is in one place, and the last thing that happened to it tells which. -/
structure Placed (history : List (Deed ω)) (idle held : List (Item ω)) (created : Nat) : Prop where
  perm : (numbers idle ++ numbers held ++ dropped history).Perm (List.range created)
  idle : ∀ x ∈ idle, lastDeed? history x.number = some (.restored x)
  held : ∀ x ∈ held, ∃ d, lastDeed? history x.number = some d ∧ d.hands = true
  known : ∀ d ∈ history, d.item.number < created

/-- What may happen to an object after all that is recorded: it was not dropped, and if it is handed out, it is new or was
restored since it was handed out last. -/
structure Lawful (history : List (Deed ω)) (d : Deed ω) : Prop where
  not_dropped : d.item.number ∉ dropped history
  built : ∀ x, d = .built x → lastDeed? history x.number = none
  reused : ∀ x, d = .reused x → lastDeed? history x.number = some (.restored x)

namespace Placed

variable {history : List (Deed ω)} {idle others : List (Item ω)} {n : Nat} {x y : Item ω}

theorem nodup {held : List (Item ω)} (h : Placed history idle held n) :
    (numbers idle ++ numbers held ++ dropped history).Nodup :=
  h.perm.nodup_iff.2 List.nodup_range

theorem number_lt {held : List (Item ω)} (h : Placed history idle held n) (hx : x ∈ idle ++ held) : x.number < n := by
  have hmem : x.number ∈ numbers idle ++ numbers held ++ dropped history := by
    rw [← numbers_append]
    exact List.mem_append_left _ (List.mem_map_of_mem hx)
  exact List.mem_range.1 (h.perm.mem_iff.1 hmem)

theorem not_dropped {held : List (Item ω)} (h : Placed history idle held n) (hx : x ∈ idle ++ held) :
    x.number ∉ dropped history := by
  have hnodup := h.nodup
  rw [← numbers_append] at hnodup
  intro hdropped
  exact (List.nodup_append.1 hnodup).2.2 _ (List.mem_map_of_mem hx) _ hdropped rfl

/-- Two objects in different places have different numbers. -/
theorem number_ne {held rest : List (Item ω)} (h : Placed history idle held n) (hp : (idle ++ held).Perm (x :: rest))
    (hy : y ∈ rest) : x.number ≠ y.number := by
  have hnodup := (List.nodup_append.1 h.nodup).1
  rw [← numbers_append, numbers, (hp.map Item.number).nodup_iff, List.map_cons, List.nodup_cons] at hnodup
  intro he
  exact hnodup.1 (he ▸ List.mem_map_of_mem hy)

end Placed

/-! ## One move -/

theorem dropped_append_of_drops (history : List (Deed ω)) {d : Deed ω} (h : d.drops = true) :
    dropped (history ++ [d]) = dropped history ++ [d.item.number] := by
  unfold dropped numbers
  rw [List.filter_append, List.filter_singleton, h, List.map_append, List.map_append]
  rfl

theorem dropped_append_of_not_drops (history : List (Deed ω)) {d : Deed ω} (h : d.drops = false) :
    dropped (history ++ [d]) = dropped history := by
  unfold dropped
  rw [List.filter_append, List.filter_singleton, h]
  exact congrArg (fun deeds => numbers (deeds.map Deed.item)) (List.append_nil _)

variable {history : List (Deed ω)} {idle idle' others : List (Item ω)} {x y : Option (Item ω)} {n n' : Nat}

/-- A move takes an object from one place to another, or puts a new one into its first place. -/
theorem perm_of_handling (hh : Handling idle x n d idle' y n')
    (hp : (numbers idle ++ numbers (x.toList ++ others) ++ dropped history).Perm (List.range n)) :
    (numbers idle' ++ numbers (y.toList ++ others) ++ dropped (history ++ d.toList)).Perm (List.range n') := by
  cases hh with
  | quiet hxy =>
    have hlist : numbers x.toList = numbers y.toList := by
      rw [numbers, numbers, ← Option.toList_map, ← Option.toList_map, hxy]
    rw [numbers_append, hlist, ← numbers_append] at hp
    rw [Option.toList_none, List.append_nil]
    exact hp
  | build o =>
    simp only [Option.toList_some]
    rw [dropped_append_of_not_drops history (d := .built ⟨n, o⟩) rfl, List.range_succ]
    exact (List.perm_middle.append_right _).trans ((hp.cons n).trans (List.perm_append_singleton n _).symm)
  | reuse z =>
    simp only [Option.toList_some]
    rw [dropped_append_of_not_drops history (d := .reused z) rfl]
    exact (List.perm_middle.append_right _).trans hp
  | restore z o =>
    simp only [Option.toList_some]
    rw [dropped_append_of_not_drops history (d := .restored ⟨z.number, o⟩) rfl]
    exact (List.perm_middle.symm.append_right _).trans hp
  | drop hd =>
    simp only [Option.toList_some]
    rw [dropped_append_of_drops history hd, ← List.append_assoc]
    exact (List.perm_append_singleton _ _).trans ((List.perm_middle.symm.append_right _).trans hp)

namespace Placed

/-- What was recorded last of the other objects stays so when something happens to one of them. -/
theorem kept {held : List (Item ω)} (h : Placed history idle held n) (d : Deed ω) {zs ws : List (Item ω)}
    (hzs : ∀ z ∈ zs, z ∈ idle) (hws : ∀ z ∈ ws, z ∈ held) (hne : ∀ z ∈ zs ++ ws, d.item.number ≠ z.number) :
    (∀ z ∈ zs, lastDeed? (history ++ [d]) z.number = some (.restored z)) ∧
      ∀ z ∈ ws, ∃ e, lastDeed? (history ++ [d]) z.number = some e ∧ e.hands = true := by
  constructor
  · intro z hz
    rw [lastDeed?_append_of_ne history (hne z (List.mem_append_left _ hz))]
    exact h.idle z (hzs z hz)
  · intro z hz
    rw [lastDeed?_append_of_ne history (hne z (List.mem_append_right _ hz))]
    exact h.held z (hws z hz)

theorem known_append {held : List (Item ω)} (h : Placed history idle held n) (hn : n ≤ n') {d : Deed ω}
    (hd : d.item.number < n') : ∀ e ∈ history ++ [d], e.item.number < n' := by
  intro e he
  rcases List.mem_append.1 he with he | he
  · exact Nat.lt_of_lt_of_le (h.known e he) hn
  · rw [List.mem_singleton.1 he]
    exact hd

end Placed

/-- A move leaves every object in one place. -/
theorem placed_of_handling (hh : Handling idle x n d idle' y n') (h : Placed history idle (x.toList ++ others) n) :
    Placed (history ++ d.toList) idle' (y.toList ++ others) n' := by
  have hperm := perm_of_handling hh h.perm
  cases hh with
  | quiet hxy =>
    rw [Option.toList_none, List.append_nil] at hperm ⊢
    refine ⟨hperm, h.idle, ?_, h.known⟩
    intro z hz
    rcases List.mem_append.1 hz with hz | hz
    · -- the borrower may have changed the object, but it is the same one
      rw [Option.mem_toList.1 hz, Option.map_some, Option.map_eq_some_iff] at hxy
      obtain ⟨w, rfl, hw⟩ := hxy
      rw [← hw]
      exact h.held w List.mem_cons_self
    · exact h.held z (List.mem_append_right _ hz)
  | build o =>
    have hnew := lastDeed?_append_self history (.built ⟨n, o⟩)
    obtain ⟨hidle, hheld⟩ := h.kept (.built ⟨n, o⟩) (fun _ hz => hz) (fun _ hz => hz)
      fun z hz => Nat.ne_of_gt (h.number_lt hz)
    exact ⟨hperm, hidle, List.forall_mem_cons.2 ⟨⟨_, hnew, rfl⟩, hheld⟩,
      h.known_append (Nat.le_succ n) (Nat.lt_succ_self n)⟩
  | reuse w =>
    have hnew := lastDeed?_append_self history (.reused w)
    obtain ⟨hidle, hheld⟩ := h.kept (.reused w) (fun _ hz => List.mem_cons_of_mem _ hz) (fun _ hz => hz)
      fun z hz => h.number_ne (List.Perm.refl _) hz
    exact ⟨hperm, hidle, List.forall_mem_cons.2 ⟨⟨_, hnew, rfl⟩, hheld⟩,
      h.known_append (Nat.le_refl n) (h.number_lt List.mem_cons_self)⟩
  | restore w o =>
    have hnew := lastDeed?_append_self history (.restored ⟨w.number, o⟩)
    obtain ⟨hidle, hheld⟩ := h.kept (.restored ⟨w.number, o⟩) (fun _ hz => hz) (fun _ hz => List.mem_cons_of_mem _ hz)
      fun z hz => h.number_ne (x := w) List.perm_middle hz
    have hlt : w.number < n := h.number_lt (List.mem_append_right _ List.mem_cons_self)
    exact ⟨hperm, List.forall_mem_cons.2 ⟨hnew, hidle⟩, hheld, h.known_append (Nat.le_refl n) hlt⟩
  | @drop idle n e hd =>
    obtain ⟨hidle, hheld⟩ := h.kept e (fun _ hz => hz) (fun _ hz => List.mem_cons_of_mem _ hz)
      fun z hz => h.number_ne List.perm_middle hz
    have hlt : e.item.number < n := h.number_lt (List.mem_append_right _ List.mem_cons_self)
    exact ⟨hperm, hidle, hheld, h.known_append (Nat.le_refl n) hlt⟩

/-- What happens to an object in a move may happen to it. -/
theorem lawful_of_handling {e : Deed ω} (hh : Handling idle x n (some e) idle' y n')
    (h : Placed history idle (x.toList ++ others) n) : Lawful history e := by
  cases hh with
  | build o =>
    have hnew : ∀ e ∈ history, e.item.number ≠ n := fun e he => Nat.ne_of_lt (h.known e he)
    refine ⟨?_, ?_, nofun⟩
    · intro hdropped
      exact absurd (List.mem_range.1 (h.perm.mem_iff.1 (List.mem_append_right _ hdropped))) (Nat.lt_irrefl n)
    · rintro z hz
      obtain rfl := Deed.built.inj hz
      exact lastDeed?_eq_none.2 hnew
  | reuse w =>
    refine ⟨h.not_dropped List.mem_cons_self, nofun, ?_⟩
    rintro z hz
    obtain rfl := Deed.reused.inj hz
    exact h.idle w List.mem_cons_self
  | restore w o =>
    have hkept : w.number ∉ dropped history := h.not_dropped (List.mem_append_right _ List.mem_cons_self)
    exact ⟨hkept, nofun, nofun⟩
  | drop hd =>
    refine ⟨h.not_dropped (List.mem_append_right _ List.mem_cons_self), ?_, ?_⟩
    · rintro z rfl
      nomatch hd
    · rintro z rfl
      nomatch hd

/-! ## A run -/

theorem Placed.congr {held held' : List (Item ω)} (h : Placed history idle held n) (hp : held.Perm held') :
    Placed history idle held' n := by
  refine ⟨?_, h.idle, fun x hx => h.held x (hp.mem_iff.2 hx), h.known⟩
  exact ((((hp.map Item.number).symm).append_left _).append_right _).trans h.perm

theorem held_middle (before after : List (Stage ω)) (a : Stage ω) :
    (held (before ++ a :: after)).Perm (a.item?.toList ++ held (before ++ after)) := by
  unfold held
  rw [List.filterMap_append, List.filterMap_append]
  cases ha : a.item? with
  | none =>
    rw [List.filterMap_cons_none ha]
    exact List.Perm.refl _
  | some x =>
    rw [List.filterMap_cons_some ha]
    exact List.perm_middle

theorem held_enter (t : Traffic ω) (manner : Manner) : held (t.enter manner).stages = held t.stages := by
  simp only [Traffic.enter, held, List.filterMap_append]
  exact List.append_nil _

/-- A step leaves every object in one place, and what it does to an object may happen to it. -/
theorem placed_of_step {t t' : Traffic ω} (hs : Step t d t')
    (h : Placed history t.pool.idle (held t.stages) t.pool.created) :
    Placed (history ++ d.toList) t'.pool.idle (held t'.stages) t'.pool.created ∧ ∀ e, d = some e → Lawful history e := by
  cases hs with
  | acquire =>
    rw [Option.toList_none, List.append_nil, held_enter]
    exact ⟨h, nofun⟩
  | tryAcquire =>
    rw [Option.toList_none, List.append_nil, held_enter]
    exact ⟨h, nofun⟩
  | move before after hm =>
    have hh := handling_of_move hm
    have hplaced := h.congr (held_middle before after _)
    refine ⟨(placed_of_handling hh hplaced).congr (held_middle before after _).symm, ?_⟩
    rintro e rfl
    exact lawful_of_handling hh hplaced

variable {policy : PoolPolicy} {t : Traffic ω}

theorem placed_of_reaches (hr : Reaches ⟨policy, [], 0, 0, 0⟩ history t) :
    Placed history t.pool.idle (held t.stages) t.pool.created := by
  induction hr with
  | start => exact ⟨List.Perm.refl _, nofun, nofun, nofun⟩
  | step _ hs ih => exact (placed_of_step hs ih).1

/-- All that is recorded happened lawfully. -/
theorem lawful_of_reaches (hr : Reaches ⟨policy, [], 0, 0, 0⟩ history t) {before after : List (Deed ω)} {e : Deed ω}
    (h : history = before ++ e :: after) : Lawful before e := by
  induction hr generalizing after with
  | start => simp at h
  | @step history' t t' d hr hs ih =>
    cases d with
    | none =>
      rw [Option.toList_none, List.append_nil] at h
      exact ih h
    | some last =>
      rw [Option.toList_some] at h
      rcases List.eq_nil_or_concat after with rfl | ⟨after', x, rfl⟩
      · obtain ⟨rfl, hlast⟩ := List.append_inj' h rfl
        exact (placed_of_step hs (placed_of_reaches hr)).2 e (congrArg some (List.cons.inj hlast).1)
      · rw [List.concat_eq_append, ← List.cons_append, ← List.append_assoc] at h
        exact ih (List.append_inj' h rfl).1

/-- Where the objects of a pool are after a run, and what was recorded of them on the way. -/
structure Exclusive (history : List (Deed ω)) (t : Traffic ω) : Prop where
  places : (numbers t.pool.idle ++ numbers (held t.stages) ++ dropped history).Perm (List.range t.pool.created)
  apart : t.stages.Pairwise fun a b => ∀ x y, a.item? = some x → b.item? = some y → x.number ≠ y.number
  idle : ∀ x ∈ t.pool.idle, lastDeed? history x.number = some (.restored x)
  held : ∀ x ∈ held t.stages, ∃ d, lastDeed? history x.number = some d ∧ d.hands = true
  built : ∀ before x after, history = before ++ .built x :: after → ∀ e ∈ before, e.item.number ≠ x.number
  reused : ∀ before x after, history = before ++ .reused x :: after → lastDeed? before x.number = some (.restored x)
  gone : ∀ before d after, history = before ++ d :: after → d.drops = true →
    ∀ e ∈ after, e.item.number ≠ d.item.number

theorem mem_dropped {d : Deed ω} (h : d ∈ history) (hd : d.drops = true) : d.item.number ∈ dropped history :=
  List.mem_map_of_mem (List.mem_map_of_mem (List.mem_filter.2 ⟨h, hd⟩))

/-- Whatever its borrowers do, every object of a pool is in one place, with no two guards at once, and it is handed out only
when it is new or when its reset succeeded after it was held last; one that was dropped never appears again. -/
theorem pool_hands_out_clean_objects (hp : Pool.ofPolicy policy = .ok p) (hr : Reaches p history t) :
    Exclusive history t := by
  rw [Pool.eq_of_ofPolicy hp] at hr
  have h := placed_of_reaches hr
  refine ⟨h.perm, ?_, h.idle, h.held, ?_, ?_, ?_⟩
  · have hnodup : (numbers (held t.stages)).Nodup := (List.nodup_append.1 (List.nodup_append.1 h.nodup).1).2.1
    have hpairs := List.pairwise_filterMap.1 (List.pairwise_map.1 hnodup)
    exact hpairs.imp fun hne x y hx hy => hne x hx y hy
  · intro before x after hsplit
    exact lastDeed?_eq_none.1 ((lawful_of_reaches hr hsplit).built x rfl)
  · intro before x after hsplit
    exact (lawful_of_reaches hr hsplit).reused x rfl
  · intro before d after hsplit hd e he hsame
    obtain ⟨between, rest, rfl⟩ := List.append_of_mem he
    rw [← List.cons_append, ← List.append_assoc] at hsplit
    have hmem : d ∈ before ++ d :: between := List.mem_append_right _ List.mem_cons_self
    exact (lawful_of_reaches hr hsplit).not_dropped (hsame ▸ mem_dropped hmem hd)

/-- An object is handed out again the way its reset left it, and after it was given up another one takes its place. -/
theorem pool_hands_out_second_object :
    ∃ p : Pool (Item Nat), Pool.ofPolicy .unbounded = .ok p ∧ ∃ history t, Reaches p history t ∧ Exclusive history t ∧
      history.getLast? = some (.built ⟨1, 7⟩) ∧ lastDeed? history 0 = some (.givenUp ⟨0, 8⟩) := by
  have hp : Pool.ofPolicy .unbounded = .ok (⟨.unbounded, [], 0, 0, 0⟩ : Pool (Item Nat)) := rfl
  have hreset := (Reaches.start.step (Step.acquire ⟨⟨.unbounded, [], 0, 0, 0⟩, []⟩)).moves [] []
    ((((Moves.single (Move.reserve rfl)).move (Move.build _ 7)).move (Move.giveBack _ _)).move (Move.reset _ _ (.done 8)))
  have hdropped := (hreset.step (Step.acquire _)).moves [.ended .returned] []
    ((Moves.single (Move.reuse rfl)).move (Move.giveUp _ ⟨0, 8⟩))
  have hr := (hdropped.step (Step.acquire _)).moves [.ended .returned, .parting] []
    ((Moves.single (Move.reserve rfl)).move (Move.build _ 7))
  exact ⟨_, hp, _, _, hr, pool_hands_out_clean_objects hp hr, rfl, rfl⟩

end Borrowing

end ToleranceClustering
