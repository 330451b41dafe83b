import EntityStore.TypeCode.Ascending

/-!
Owned sets of component types, each kept as one ascending list. The handle type belongs to every
archetype and is never named in a signature that went through `ofList` or `insert`.
-/
namespace EntityStore

structure Signature where
  codes : List TypeCode
  deriving DecidableEq, Repr

namespace Signature

def empty : Signature := ⟨[]⟩

/-- Puts a code in front of the first one that is not below it. -/
def place (t : TypeCode) : List TypeCode → List TypeCode
  | [] => [t]
  | a :: as => if a < t then a :: place t as else t :: a :: as

def sort (ts : List TypeCode) : List TypeCode := ts.foldr place []

/-- Takes the codes in any order, but each only once. -/
def ofList (ts : List TypeCode) : Except Fault Signature :=
  (Ascending.validate (sort ts)).map fun _ => ⟨sort ts⟩

def ofAscending (ts : List TypeCode) : Except Fault Signature :=
  (Ascending.validate ts).map fun _ => ⟨ts⟩

/-- The set of one code, whatever it is. -/
def single (t : TypeCode) : Signature := ⟨[t]⟩

def search (s : Signature) (t : TypeCode) : Except Nat Nat := Ascending.search s.codes t

def includes (s : Signature) (t : TypeCode) : Bool := (s.search t).isOk

def includesAll (s : Signature) (ts : List TypeCode) : Bool := Ascending.includesAll s.codes ts

/-- Also answers whether the code was new. -/
def insert (s : Signature) (t : TypeCode) : Except Fault (Bool × Signature) :=
  (Ascending.validate [t]).map fun _ =>
    match s.search t with
    | .ok _ => (false, s)
    | .error i => (true, ⟨s.codes.insertIdx i t⟩)

def erase (s : Signature) (t : TypeCode) : Bool × Signature :=
  match s.search t with
  | .ok i => (true, ⟨s.codes.eraseIdx i⟩)
  | .error _ => (false, s)

def union (a b : Signature) : Signature := ⟨Ascending.union a.codes b.codes⟩

def difference (a b : Signature) : Signature := ⟨Ascending.difference a.codes b.codes⟩

def text (s : Signature) : String := "ComponentSet(" ++ TypeCode.listText s.codes ++ ")"

end Signature

end EntityStore
