import ToleranceClustering.Failure

/-!
# Pools of reusable objects

Objects that are expensive to build are lent out and taken back. A pool counts the objects in use and keeps the idle
ones, the one returned last on top. A bounded pool never holds more objects, idle and in use together, than its
bound.

Borrowing takes an idle object, or else reserves a slot and has an object built for it; a build that fails or
crashes gives the slot back. A returned object is reset first, and dropped if the reset does not succeed.
-/

namespace ToleranceClustering

/-- How many objects a pool may hold, and how long a caller waits for one; without a value there is no bound. The patience is
one that ends at some time: with one for which the clock has no time, asking crashes before the pool is looked at, and that
is not told here. -/
structure PoolPolicy where
  maxSize : Option Nat
  patience : Option Duration
deriving DecidableEq, Repr

namespace PoolPolicy

/-- No bounds. -/
def unbounded : PoolPolicy := ⟨none, none⟩

/-- A pool has room for one object at least. -/
def check (p : PoolPolicy) : Except Failure Unit :=
  Failure.unless (p.maxSize != some 0) "max_size" "must be at least 1"

end PoolPolicy

/-- The state of a pool. -/
structure Pool (ω : Type) where
  policy : PoolPolicy
  /-- The objects that wait for reuse, the one returned last first. -/
  idle : List ω
  /-- The number of objects lent out, with the slots reserved for objects that are being built. -/
  inUse : Nat
  /-- The number of objects built. -/
  created : Nat
  /-- The number of objects dropped. -/
  discarded : Nat

/-- What asking for an object meets: an idle object, a free slot, or neither. -/
inductive Checkout (ω : Type) where
  | reused (object : ω) (pool : Pool ω)
  | reserved (pool : Pool ω)
  | exhausted

/-- Builds an object, and says how that ends and what it leaves behind. -/
abbrev Builder (σ ω : Type) := σ → Outcome ω × σ

namespace Pool

variable {σ ω β : Type}

/-- The empty pool of a policy, refused if the policy leaves no room. -/
def ofPolicy (policy : PoolPolicy) : Except Failure (Pool ω) := do
  policy.check
  return ⟨policy, [], 0, 0, 0⟩

/-- The number of objects idle and in use. -/
def live (p : Pool ω) : Nat := p.inUse + p.idle.length

/-- Whether another object may be built. -/
def hasRoom (p : Pool ω) : Bool :=
  match p.policy.maxSize with
  | none => true
  | some n => decide (p.live < n)

/-- Asks for an object. -/
def checkout (p : Pool ω) : Checkout ω :=
  match p.idle with
  | o :: rest => .reused o { p with idle := rest, inUse := p.inUse + 1 }
  | [] => if p.hasRoom then .reserved { p with inUse := p.inUse + 1 } else .exhausted

/-- The object for a reserved slot was built. -/
def fulfil (p : Pool ω) : Pool ω := { p with created := p.created + 1 }

/-- The object for a reserved slot could not be built. -/
def vacate (p : Pool ω) : Pool ω := { p with inUse := p.inUse - 1 }

/-- Takes an object back whose reset ended like this. -/
def settle (p : Pool ω) : Outcome ω → Pool ω
  | .done o => { p with idle := o :: p.idle, inUse := p.inUse - 1 }
  | _ => { p with inUse := p.inUse - 1, discarded := p.discarded + 1 }

/-- Takes an object back. -/
def release (p : Pool ω) (reset : ω → Outcome ω) (o : ω) : Pool ω := p.settle (reset o)

/-- Drops a lent object. -/
def discard (p : Pool ω) : Pool ω := { p with inUse := p.inUse - 1, discarded := p.discarded + 1 }

/-- Borrows an object, if there is one or room for one. -/
def tryAcquire (p : Pool ω) (build : Builder σ ω) (s : σ) : Outcome (Option ω) × Pool ω × σ :=
  match p.checkout with
  | .reused o p => (.done (some o), p, s)
  | .exhausted => (.done none, p, s)
  | .reserved p =>
    match build s with
    | (.done o, s) => (.done (some o), p.fulfil, s)
    | (.failed f, s) => (.failed f, p.vacate, s)
    | (.crashed, s) => (.crashed, p.vacate, s)

/-- Borrows an object. On an exhausted pool, to which nothing is returned meanwhile, the caller waits in vain. -/
def acquire (p : Pool ω) (build : Builder σ ω) (s : σ) : Outcome ω × Pool ω × σ :=
  match p.tryAcquire build s with
  | (.done (some o), p, s) => (.done o, p, s)
  | (.done none, p, s) => (.failed (.poolExhausted (p.policy.patience.getD ⟨0⟩)), p, s)
  | (.failed f, p, s) => (.failed f, p, s)
  | (.crashed, p, s) => (.crashed, p, s)

/-- Borrows an object, uses it and takes it back, also when the use crashes, which is told by `none`. -/
def lend (p : Pool ω) (build : Builder σ ω) (s : σ) (reset : ω → Outcome ω) (use : ω → Option β × ω) :
    Outcome β × Pool ω × σ :=
  match p.acquire build s with
  | (.failed f, p, s) => (.failed f, p, s)
  | (.crashed, p, s) => (.crashed, p, s)
  | (.done o, p, s) =>
    match use o with
    | (some b, o) => (.done b, p.release reset o, s)
    | (none, o) => (.crashed, p.release reset o, s)

end Pool

end ToleranceClustering
