import EntityStore.Handle
import EntityStore.TypeCode

/-!
Why the store refuses an operation. `Fault` holds the causes and `Fault.message` their wording.
`Failure` adds the one way in which an operation ends without a refusal: a default value that could
not be made.
-/
namespace EntityStore

/-- What a number that is out of range was meant to count. -/
inductive Subject
  | component | chunkEntity | entity | freeEntity | archetype | freeArchetype | chunk
  | componentType | pendingEntity
  deriving DecidableEq, Repr

namespace Subject

def text : Subject → String
  | component => "component"
  | chunkEntity => "chunk entity"
  | entity => "entity"
  | freeEntity => "free entity"
  | archetype => "archetype"
  | freeArchetype => "free archetype"
  | chunk => "chunk"
  | componentType => "component type"
  | pendingEntity => "pending entity"

end Subject

inductive Resource
  | registry | entityTable | chunkBytes | archetypeTypes | archetypeChunks
  deriving DecidableEq, Repr

namespace Resource

def text : Resource → String
  | registry => "component type registry"
  | entityTable => "entity table"
  | chunkBytes => "chunk component bytes"
  | archetypeTypes => "archetype component types"
  | archetypeChunks => "archetype chunks"

end Resource

inductive Malformed
  | handleType
  | duplicate (code : TypeCode)
  | unsorted (first second : TypeCode)
  | unknownType (code : TypeCode)
  | tooLarge (name : String) (size limit : Nat)
  | overaligned (name : String) (align limit : Nat)
  | noTypes
  | handleNotFirst
  | alreadyIndexed (codes : List TypeCode)
  | readOnlyHandles
  | kindMismatch (code : TypeCode) (name : String)
  | chunkSize (size : Nat)
  deriving DecidableEq, Repr

namespace Malformed

def text : Malformed → String
  | handleType => "the entity handle type cannot be added or removed"
  | duplicate t => "duplicate component type " ++ t.text
  | unsorted a b => "component types " ++ a.text ++ " and " ++ b.text ++ " are not sorted"
  | unknownType t => "unknown component type " ++ t.text
  | tooLarge name size limit =>
      "component " ++ name ++ " is " ++ Text.number size ++ " bytes, the limit is " ++
        Text.number limit
  | overaligned name align limit =>
      "component " ++ name ++ " requires " ++ Text.number align ++
        " byte alignment, the limit is " ++ Text.number limit
  | noTypes => "archetypes need at least one component type"
  | handleNotFirst => "archetypes must start with the entity handle"
  | alreadyIndexed ts => "archetype " ++ TypeCode.listText ts ++ " is already indexed"
  | readOnlyHandles => "entity handles are read-only"
  | kindMismatch t name => t.text ++ " is not a " ++ name
  | chunkSize n => "invalid chunk size " ++ Text.number n

end Malformed

inductive Fault
  | invalidArgument (why : Malformed)
  | invalidHandle (handle : Handle)
  | outOfRange (what : Subject) (index len : Nat)
  | capacityExceeded (what : Resource) (limit : Nat)
  | allocationFailed (size : Nat)
  deriving DecidableEq, Repr

namespace Fault

def message : Fault → String
  | invalidArgument why => "invalid argument: " ++ why.text
  | invalidHandle h => "invalid entity handle " ++ h.text
  | outOfRange what index len =>
      what.text ++ " index " ++ Text.number index ++ " out of range (len " ++ Text.number len ++ ")"
  | capacityExceeded what limit =>
      what.text ++ " capacity exceeded (limit " ++ Text.number limit ++ ")"
  | allocationFailed size => "failed to allocate " ++ Text.number size ++ " bytes"

end Fault

section Results
variable {α β : Type} {g : α → β} {x : Except Fault α}

theorem ok_of_map {b : β} (h : x.map g = .ok b) : ∃ a, x = .ok a ∧ g a = b := by
  cases x with
  | error f => cases h
  | ok a => exact ⟨a, rfl, Except.ok.inj h⟩

theorem error_of_map {f : Fault} (h : x.map g = .error f) : x = .error f := by
  cases x with
  | error e => exact congrArg Except.error (Except.error.inj h)
  | ok a => cases h

end Results

/-- How an operation ends other than by its answer: it is refused, or a default value it needed
could not be made. -/
inductive Failure
  | refused (fault : Fault)
  | aborted
  deriving DecidableEq, Repr

end EntityStore
