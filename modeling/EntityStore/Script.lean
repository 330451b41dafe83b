import EntityStore.TypeCode.Signature
import EntityStore.World.Components

/-!
Scripts: recorded changes of a store, applied later and in order. An entity that a script creates
is named by its number among the creations of the script.
-/
namespace EntityStore

/-- The entity a command applies to. -/
inductive Target
  | existing (handle : Handle)
  | pending (number : Nat)
  deriving DecidableEq, Repr

namespace Target

/-- The same entity after `offset` creations have been put in front. -/
def shift (offset : Nat) : Target → Target
  | existing h => existing h
  | pending n => pending (n + offset)

@[simp] theorem shift_zero (t : Target) : t.shift 0 = t := by
  cases t <;> rfl

theorem shift_shift (m n : Nat) (t : Target) : (t.shift m).shift n = t.shift (m + n) := by
  cases t <;> simp [shift, Nat.add_assoc]

def resolve (created : List Handle) : Target → Except Fault Handle
  | existing h => .ok h
  | pending n =>
      match created[n]? with
      | some h => .ok h
      | none => .error (.outOfRange .pendingEntity n created.length)

def text : Target → String
  | existing h => "Existing(" ++ h.text ++ ")"
  | pending n => "Pending(PendingEntity(" ++ Text.number n ++ "))"

end Target

inductive Command
  | create (types : Signature)
  | destroy (target : Target)
  | add (target : Target) (types : Signature)
  | remove (target : Target) (types : Signature)
  | put (target : Target) (kind : Kind) (value : Value)
  deriving DecidableEq, Repr

namespace Command

def shift (offset : Nat) : Command → Command
  | create s => create s
  | destroy t => destroy (t.shift offset)
  | add t s => add (t.shift offset) s
  | remove t s => remove (t.shift offset) s
  | put t k v => put (t.shift offset) k v

@[simp] theorem shift_zero (c : Command) : c.shift 0 = c := by
  cases c <;> simp [shift]

theorem shift_shift (m n : Nat) (c : Command) : (c.shift m).shift n = c.shift (m + n) := by
  cases c <;> simp [shift, Target.shift_shift]

def held : Command → Option (Kind × Value)
  | put _ k v => some (k, v)
  | _ => none

def text : Command → String
  | create s => "Create(" ++ TypeCode.listText s.codes ++ ")"
  | destroy t => "Destroy(" ++ t.text ++ ")"
  | add t s => "Add(" ++ t.text ++ ", " ++ TypeCode.listText s.codes ++ ")"
  | remove t s => "Remove(" ++ t.text ++ ", " ++ TypeCode.listText s.codes ++ ")"
  | put t k _ => "Set(" ++ t.text ++ ", " ++ k.name ++ ")"

end Command

structure Script where
  commands : List Command := []
  /-- The number of entities that the script creates. -/
  created : Nat := 0
  deriving DecidableEq, Repr

namespace Script

def empty : Script := {}

def length (s : Script) : Nat := s.commands.length

def isEmpty (s : Script) : Bool := s.commands.isEmpty

def push (s : Script) (c : Command) : Script := { s with commands := s.commands ++ [c] }

/-- Records a creation and answers its number. -/
def create (s : Script) (types : Signature) : Nat × Script :=
  (s.created, { commands := s.commands ++ [.create types], created := s.created + 1 })

/-- The commands of `s`, then those of `t`, whose creations are numbered on. -/
def append (s t : Script) : Script :=
  ⟨s.commands ++ t.commands.map (·.shift s.created), s.created + t.created⟩

@[simp] theorem append_empty (s : Script) : s.append empty = s := by
  simp [append, empty]

@[simp] theorem empty_append (s : Script) : empty.append s = s := by
  simp [append, empty]

theorem append_assoc (r s t : Script) : (r.append s).append t = r.append (s.append t) := by
  simp [append, Command.shift_shift, Function.comp_def, Nat.add_comm, Nat.add_left_comm]

def merge (ss : List Script) : Script := ss.foldl append empty

/-- The values held by commands, in order. -/
def held (cs : List Command) : List (Kind × Value) := cs.filterMap Command.held

def discard (s : Script) (l : Lifetimes) : Lifetimes := l.dropAll (held s.commands)

def text (s : Script) : String :=
  Text.record "CommandBuffer" [("commands", Text.bracketed (s.commands.map Command.text)),
    ("created", Text.number s.created)]

end Script

end EntityStore
