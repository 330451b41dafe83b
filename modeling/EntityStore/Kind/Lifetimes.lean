import EntityStore.Kind

/-!
The lives of owned values. Whoever makes a default value or gives up a stored one does it here, so
that the record lists every owned value that began or ended, in order. Making a default of a
fallible kind fails once the fuse has burnt down.
-/
namespace EntityStore

inductive Event
  | made (kind : Kind) (value : Value)
  | dropped (kind : Kind) (value : Value)
  deriving DecidableEq, Repr

def Event.isMade : Event → Bool
  | made _ _ => true
  | dropped _ _ => false

structure Lifetimes where
  /-- How many more fallible defaults succeed before one fails; without a fuse all succeed. -/
  fuse : Option Nat := none
  events : List Event := []
  deriving DecidableEq, Repr

namespace Lifetimes

def record (l : Lifetimes) (e : Event) : Lifetimes := { l with events := l.events ++ [e] }

/-- How many owned values were made. The next one gets this number. -/
def count (l : Lifetimes) : Nat := l.events.countP Event.isMade

def made (l : Lifetimes) (k : Kind) (v : Value) : Lifetimes :=
  if k.owned then l.record (.made k v) else l

/-- A default value, or none if it fails, which also puts the fuse out. -/
def make (l : Lifetimes) (k : Kind) : Option Value × Lifetimes :=
  let v := k.default l.count
  if k.fallible then
    match l.fuse with
    | some 0 => (none, { l with fuse := none })
    | some (n + 1) => (some v, { l with fuse := some n }.made k v)
    | none => (some v, l.made k v)
  else (some v, l.made k v)

def drop (l : Lifetimes) (k : Kind) (v : Value) : Lifetimes :=
  if k.owned then l.record (.dropped k v) else l

theorem drop_of_not_owned {k : Kind} (h : k.owned = false) (l : Lifetimes) (v : Value) :
    l.drop k v = l := by
  simp [drop, h]

def dropAll (l : Lifetimes) (vs : List (Kind × Value)) : Lifetimes :=
  vs.foldl (fun l kv => l.drop kv.1 kv.2) l

/-- Makes defaults in order. If one fails, those made before it are dropped again, in the order
they were made, and their number is the answer. -/
def makeAll (l : Lifetimes) (kinds : List Kind) : Except Nat (List Value) × Lifetimes :=
  go l kinds []
where
  /-- `made` holds the defaults made so far. -/
  go (l : Lifetimes) : List Kind → List (Kind × Value) → Except Nat (List Value) × Lifetimes
    | [], made => (.ok (made.map Prod.snd), l)
    | k :: ks, made =>
        match l.make k with
        | (some v, l) => go l ks (made ++ [(k, v)])
        | (none, l) => (.error made.length, l.dropAll made)

end Lifetimes

end EntityStore
