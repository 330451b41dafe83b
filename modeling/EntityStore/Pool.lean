import EntityStore.Fault

/-!
The pool of chunk buffers. It counts the buffers in being, and keeps some of the released ones for
reuse. Memory has room for so many more buffers, or for as many as are asked for.
-/
namespace EntityStore

structure Pool where
  chunkSize : Nat
  /-- How many released buffers may be kept. -/
  retain : Nat
  /-- How many more buffers can be obtained before one is refused; without a number all can. -/
  supply : Option Nat := none
  allocated : Nat := 0
  retained : Nat := 0
  deriving DecidableEq, Repr

namespace Pool

/-- Sizes above this one do not describe a block of memory. -/
def sizeLimit : Nat := 1 <<< 63 - 64

/-- What memory has at first if nothing else is known: no block of 2^48 bytes and more, but as many
smaller ones as are asked for. -/
def usualSupply (chunkSize : Nat) : Option Nat := if chunkSize < 1 <<< 48 then none else some 0

def new (chunkSize retain : Nat) (supply : Option Nat := usualSupply chunkSize) :
    Except Fault Pool :=
  if sizeLimit < chunkSize then .error (.invalidArgument (.chunkSize chunkSize))
  else .ok { chunkSize, retain, supply }

/-- A buffer, a kept one if there is any. -/
def take (p : Pool) : Except Fault Pool :=
  if p.retained = 0 then
    match p.supply with
    | some 0 => .error (.allocationFailed p.chunkSize)
    | left => .ok { p with allocated := p.allocated + 1, supply := left.map (· - 1) }
  else .ok { p with retained := p.retained - 1 }

theorem take_eq_ok {p q : Pool} (h : p.take = .ok q) :
    0 < p.retained ∧ q = { p with retained := p.retained - 1 } ∨
      p.retained = 0 ∧ p.supply ≠ some 0 ∧
        q = { p with allocated := p.allocated + 1, supply := p.supply.map (· - 1) } := by
  unfold take at h
  split at h
  next hzero =>
    split at h
    next => cases h
    next hleft => exact .inr ⟨hzero, hleft, (Except.ok.inj h).symm⟩
  next hkept => exact .inl ⟨Nat.pos_of_ne_zero hkept, (Except.ok.inj h).symm⟩

theorem take_eq_error {p : Pool} {f : Fault} (h : p.take = .error f) :
    p.retained = 0 ∧ p.supply = some 0 ∧ f = .allocationFailed p.chunkSize := by
  unfold take at h
  split at h
  next hzero =>
    split at h
    next hnone => exact ⟨hzero, hnone, (Except.error.inj h).symm⟩
    next => cases h
  next => cases h

def give (p : Pool) : Pool :=
  if p.retained < p.retain then { p with retained := p.retained + 1 }
  else { p with allocated := p.allocated - 1 }

theorem retained_give_le {p : Pool} (h : p.retained ≤ p.retain) : p.give.retained ≤ p.retain := by
  unfold give
  split <;> simp <;> omega

def giveMany (p : Pool) : Nat → Pool
  | 0 => p
  | n + 1 => p.give.giveMany n

def flush (p : Pool) : Pool := { p with allocated := p.allocated - p.retained, retained := 0 }

def text (p : Pool) : String :=
  Text.record "ChunkPool" [("chunk_size", Text.number p.chunkSize),
    ("allocated", Text.number p.allocated), ("retained", Text.number p.retained)]

end Pool

end EntityStore
