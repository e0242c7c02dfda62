import ToleranceClustering.Pool

/-!
# Lending

A pool together with the objects that are out, each under the name of its borrower, and the state of the builder.
Handing over serves a borrower who waits on an exhausted pool with what another one gives back.
-/

namespace ToleranceClustering

/-- A pool, the objects lent out, and the builder's state. -/
structure Lending (σ ω : Type) where
  pool : Pool ω
  loans : List (String × ω)
  builder : σ

namespace Lending

variable {σ ω : Type}

/-- Nothing lent yet. -/
def start (pool : Pool ω) (builder : σ) : Lending σ ω := ⟨pool, [], builder⟩

/-- The object that a borrower holds. -/
def held? (l : Lending σ ω) (name : String) : Option ω := l.loans.lookup name

/-- The loans without those of a borrower. -/
def loansWithout (l : Lending σ ω) (name : String) : List (String × ω) := l.loans.filter fun e => e.1 ≠ name

/-- Changes the object that a borrower holds. -/
def update (l : Lending σ ω) (name : String) (f : ω → ω) : Lending σ ω :=
  { l with loans := l.loans.map fun e => if e.1 = name then (e.1, f e.2) else e }

/-- A borrower gives the object back; without one nothing happens, which is told by `none`. -/
def release? (reset : ω → Outcome ω) (l : Lending σ ω) (name : String) : Option (Lending σ ω) :=
  (l.held? name).map fun o => { l with pool := l.pool.release reset o, loans := l.loansWithout name }

/-- A borrower gives the object up for good; without one nothing happens, which is told by `none`. -/
def discard? (l : Lending σ ω) (name : String) : Option (Lending σ ω) :=
  (l.held? name).map fun _ => { l with pool := l.pool.discard, loans := l.loansWithout name }

/-- Lends an object to a borrower. One that the borrower had before goes back. -/
def give (reset : ω → Outcome ω) (l : Lending σ ω) (name : String) (o : ω) : Lending σ ω :=
  let l := (l.release? reset name).getD l
  { l with loans := l.loans ++ [(name, o)] }

/-- A borrower asks for an object, without waiting for one. -/
def tryAcquire (build : Builder σ ω) (reset : ω → Outcome ω) (l : Lending σ ω) (name : String) :
    Outcome (Option ω) × Lending σ ω :=
  match l.pool.tryAcquire build l.builder with
  | (.done (some o), pool, builder) => (.done (some o), give reset { l with pool, builder } name o)
  | (result, pool, builder) => (result, { l with pool, builder })

/-- A borrower asks for an object. -/
def acquire (build : Builder σ ω) (reset : ω → Outcome ω) (l : Lending σ ω) (name : String) :
    Outcome ω × Lending σ ω :=
  match l.pool.acquire build l.builder with
  | (.done o, pool, builder) => (.done o, give reset { l with pool, builder } name o)
  | (result, pool, builder) => (result, { l with pool, builder })

/-- A borrower gives the object back while another one waits for it. -/
def handOver (build : Builder σ ω) (reset : ω → Outcome ω) (l : Lending σ ω) (name waiting : String) :
    Outcome ω × Lending σ ω :=
  acquire build reset ((l.release? reset name).getD l) waiting

/-- A borrower gives the object up for good while another one waits for the slot. -/
def handOverSlot (build : Builder σ ω) (reset : ω → Outcome ω) (l : Lending σ ω) (name waiting : String) :
    Outcome ω × Lending σ ω :=
  acquire build reset ((l.discard? name).getD l) waiting

end Lending

end ToleranceClustering
