import EntityStore.Fault

/-!
Strictly ascending lists of type codes as sets. Each operation is a single pass over both lists
that never goes back; on ascending lists it is the set operation of its name. On other lists it is
defined all the same, and only `validate` tells them apart.
-/
namespace EntityStore.Ascending

/-- The first neighbours that are not in ascending order. -/
def checkOrder : List TypeCode → Except Fault Unit
  | a :: b :: rest =>
      if a = b then .error (.invalidArgument (.duplicate a))
      else if b < a then .error (.invalidArgument (.unsorted a b))
      else checkOrder (b :: rest)
  | _ => .ok ()

def validate (ts : List TypeCode) : Except Fault Unit :=
  if TypeCode.entity ∈ ts then .error (.invalidArgument .handleType) else checkOrder ts

def union : List TypeCode → List TypeCode → List TypeCode
  | [], bs => bs
  | a :: as, [] => a :: as
  | a :: as, b :: bs =>
      if a < b then a :: union as (b :: bs)
      else if b < a then b :: union (a :: as) bs
      else a :: union as bs
  termination_by as bs => as.length + bs.length

def difference : List TypeCode → List TypeCode → List TypeCode
  | [], _ => []
  | a :: as, bs =>
      let rest := bs.dropWhile (· < a)
      if rest.head? = some a then difference as rest else a :: difference as rest

def includesAll : List TypeCode → List TypeCode → Bool
  | _, [] => true
  | as, b :: bs =>
      let rest := as.dropWhile (· < b)
      rest.head? = some b && includesAll rest bs

def intersects : List TypeCode → List TypeCode → Bool
  | [], _ => false
  | _ :: _, [] => false
  | a :: as, b :: bs =>
      if a < b then intersects as (b :: bs)
      else if b < a then intersects (a :: as) bs
      else true
  termination_by as bs => as.length + bs.length

/-- Positions in a list whose head stands at position `i`. -/
def indicesFrom (i : Nat) : List TypeCode → List TypeCode → Option (List Nat)
  | _, [] => some []
  | as, b :: bs =>
      let passed := (as.takeWhile (· < b)).length
      let rest := as.dropWhile (· < b)
      if rest.head? = some b then (indicesFrom (i + passed) rest bs).map ((i + passed) :: ·)
      else none

def indicesOf (as bs : List TypeCode) : Option (List Nat) := indicesFrom 0 as bs

/-- How two lists pair up: where the first has each code of the second, if it does, and where it has
codes that the second lacks. -/
structure Pairing where
  partners : List (Option Nat) := []
  alone : List Nat := []
  deriving DecidableEq, Repr

namespace Pairing

def single (i : Nat) (m : Pairing) : Pairing := { m with alone := i :: m.alone }

def partner (o : Option Nat) (m : Pairing) : Pairing := { m with partners := o :: m.partners }

end Pairing

def pairUpFrom (i : Nat) : List TypeCode → List TypeCode → Pairing
  | [], [] => {}
  | _ :: as, [] => (pairUpFrom (i + 1) as []).single i
  | [], _ :: bs => (pairUpFrom i [] bs).partner none
  | a :: as, b :: bs =>
      if a < b then (pairUpFrom (i + 1) as (b :: bs)).single i
      else if b < a then (pairUpFrom i (a :: as) bs).partner none
      else (pairUpFrom (i + 1) as bs).partner (some i)
  termination_by as bs => as.length + bs.length

def pairUp (as bs : List TypeCode) : Pairing := pairUpFrom 0 as bs

/-- Searches a code by halves among the `n` codes from position `first` on. Answers where it stands,
or else where it would have to be put. -/
def searchFrom (ts : List TypeCode) (t : TypeCode) (first n : Nat) : Except Nat Nat :=
  if n = 0 then .error first
  else
    match ts[first + n / 2]? with
    | none => .error first
    | some a =>
        if a < t then searchFrom ts t (first + n / 2 + 1) (n - n / 2 - 1)
        else if t < a then searchFrom ts t first (n / 2)
        else .ok (first + n / 2)
  termination_by n

def search (ts : List TypeCode) (t : TypeCode) : Except Nat Nat := searchFrom ts t 0 ts.length

end EntityStore.Ascending
