import EntityStore.Fault
import EntityStore.Kind

/-!
The registry of component types. A kind of value is registered once for each set of marks and gets
the next free number. Registrations are never taken back. The first one is the handle column. They
are found in two ways: under the number in a code, and through the memo under kind and marks.
-/
namespace EntityStore

structure Registration where
  code : TypeCode
  kind : Kind
  deriving DecidableEq, Repr

namespace Registration

def text (r : Registration) : String :=
  "<ComponentRegistration " ++ r.kind.name ++ " " ++ r.code.text ++ ">"

end Registration

/-- The strictest alignment a column can offer. -/
def columnAlign : Nat := 64

structure Registry where
  maxTypes : Nat
  entries : Array Registration
  /-- The code of each kind under each set of marks that it is registered under. -/
  memo : List ((Kind × Markers) × TypeCode)
  deriving Repr

namespace Registry

/-- A registry of the handle column alone; the limit counts it too. -/
def new (handleName : String) (maxTypes : Nat := TypeCode.indexLimit) : Registry :=
  { maxTypes := max 1 (min maxTypes TypeCode.indexLimit)
    entries := #[⟨.entity, .handle handleName⟩]
    memo := [((.handle handleName, .none), .entity)] }

def lookup (r : Registry) (k : Kind) (m : Markers) : Option TypeCode := r.memo.lookup (k, m)

/-- Registers a kind under the given marks, or answers the code it has already. -/
def register (r : Registry) (k : Kind) (m : Markers) : Except Fault (TypeCode × Registry) :=
  match r.lookup k m with
  | some t => .ok (t, r)
  | none =>
      if Kind.sizeLimit < k.size then
        .error (.invalidArgument (.tooLarge k.name k.size Kind.sizeLimit))
      else if columnAlign < k.align then
        .error (.invalidArgument (.overaligned k.name k.align columnAlign))
      else if r.maxTypes ≤ r.entries.size then
        .error (.capacityExceeded .registry r.maxTypes)
      else
        let t := TypeCode.ofParts r.entries.size m (k.size = 0)
        .ok (t, { r with entries := r.entries.push ⟨t, k⟩, memo := ((k, m), t) :: r.memo })

def registration (r : Registry) (t : TypeCode) : Except Fault Registration :=
  match r.entries[t.index]? with
  | some e => if e.code = t then .ok e else .error (.invalidArgument (.unknownType t))
  | none => .error (.outOfRange .componentType t.index r.entries.size)

/-- The registrations of several codes, in order; the first unknown code is refused. -/
def registrations (r : Registry) : List TypeCode → Except Fault (List Registration)
  | [] => .ok []
  | t :: ts =>
      match r.registration t with
      | .error f => .error f
      | .ok e => (r.registrations ts).map (e :: ·)

def size (r : Registry) : Nat := r.entries.size

def isEmpty (r : Registry) : Bool := r.size ≤ 1

def text (r : Registry) : String := Text.bracketed (r.entries.toList.map Registration.text)

end Registry

end EntityStore
