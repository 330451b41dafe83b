import Mathlib
import EntityStore.Proofs.Playing

/-!
# Faults of the store

Pending entities are known to scripts alone: no operation on a store is refused for one. Every part
of an operation passes the faults of its own parts on, so each lemma rests on those before it.
-/
namespace EntityStore

/-- The fault is not about a pending entity. -/
def Fault.OfStore (f : Fault) : Prop := ∀ i n, f ≠ .outOfRange .pendingEntity i n

variable {f : Fault}

namespace HandleTable
variable {t : HandleTable} {h : Handle} {l : Option Location}

@[grind →]
lemma ofStore_location (hx : t.location h = .error f) : f.OfStore := by
  unfold location at hx
  grind [Fault.OfStore]

@[grind →]
lemma ofStore_allocate (hx : t.allocate = .error f) : f.OfStore := by
  unfold allocate at hx
  grind [Fault.OfStore]

@[grind →]
lemma ofStore_free (hx : t.free h = .error f) : f.OfStore := by
  unfold free Except.map at hx
  grind

@[grind →]
lemma ofStore_setLocation (hx : t.setLocation h l = .error f) : f.OfStore := by
  unfold setLocation Except.map at hx
  grind

end HandleTable

namespace Ascending
variable {ts : List TypeCode}

lemma ofStore_checkOrder (hx : checkOrder ts = .error f) : f.OfStore := by
  induction ts using checkOrder.induct <;> grind [checkOrder, Fault.OfStore]

@[grind →]
lemma ofStore_validate (hx : validate ts = .error f) : f.OfStore := by
  unfold validate at hx
  grind [Fault.OfStore, ofStore_checkOrder]

end Ascending

namespace Registry
variable {r : Registry} {t : TypeCode} {ts : List TypeCode} {k : Kind} {m : Markers}

@[grind →]
lemma ofStore_registration (hx : r.registration t = .error f) : f.OfStore := by
  unfold registration at hx
  grind [Fault.OfStore]

@[grind →]
lemma ofStore_registrations (hx : r.registrations ts = .error f) : f.OfStore := by
  induction ts with
  | nil => cases hx
  | cons t ts ih =>
    unfold registrations Except.map at hx
    grind

@[grind →]
lemma ofStore_register (hx : r.register k m = .error f) : f.OfStore := by
  unfold register at hx
  grind [Fault.OfStore]

end Registry

namespace Archetype
variable {a : Archetype} {i j : Nat} {p : Pool} {v : UInt32}

@[grind →]
lemma ofStore_new {id : Nat} {cs : List Registration} {s : Settings}
    (hx : Archetype.new id cs s = .error f) : f.OfStore := by
  unfold Archetype.new Layout.new Except.map at hx
  grind [Fault.OfStore]

@[grind →]
lemma ofStore_locate (hx : a.locate i = .error f) : f.OfStore := by
  unfold locate at hx
  grind [Fault.OfStore]

@[grind →]
lemma ofStore_row (hx : a.row i = .error f) : f.OfStore := by
  unfold row at hx
  grind [Fault.OfStore]

@[grind →]
lemma ofStore_reserve (hx : a.reserve p v = .error f) : f.OfStore := by
  unfold reserve Pool.take Except.map at hx
  grind [Fault.OfStore]

@[grind →]
lemma ofStore_handleAt (hx : a.handleAt i = .error f) : f.OfStore := by
  unfold handleAt Except.map at hx
  grind

@[grind →]
lemma ofStore_copyRow (hx : a.copyRow i j v = .error f) : f.OfStore := by
  unfold copyRow at hx
  grind [Fault.OfStore]

@[grind →]
lemma ofStore_remove (hx : a.remove i p v = .error f) : f.OfStore := by
  unfold remove at hx
  grind

@[grind →]
lemma ofStore_cell (hx : a.cell j i = .error f) : f.OfStore := by
  unfold cell at hx
  grind [Fault.OfStore]

@[grind →]
lemma ofStore_modifyCell {g : Value → Value} (hx : a.modifyCell j i g v = .error f) :
    f.OfStore := by
  unfold modifyCell Except.map at hx
  grind

end Archetype

namespace Catalogue
variable {c : Catalogue} {a : Archetype} {id : Nat}

@[grind →]
lemma ofStore_get (hx : c.get id = .error f) : f.OfStore := by
  unfold get at hx
  grind [Fault.OfStore]

@[grind →]
lemma ofStore_add (hx : c.add a = .error f) : f.OfStore := by
  unfold add Directory.insert at hx
  grind [Fault.OfStore]

end Catalogue

namespace World
variable {w w' : World} {h : Handle} {l : Location} {m : Option Location} {id : Nat}
  {ts : List TypeCode} {t : TypeCode} {k : Kind} {x : Value}

@[grind →]
lemma ofStore_draft (hx : w.draft ts = .error f) : f.OfStore := by
  unfold draft at hx
  grind

@[grind →]
lemma ofStore_resolve (hx : resolve ts w = .error (.refused f) w') : f.OfStore := by
  unfold resolve at hx
  grind

@[grind →]
lemma ofStore_setLocation (hx : setLocation h m w = .error (.refused f) w') : f.OfStore := by
  unfold setLocation at hx
  grind

@[grind →]
lemma ofStore_fill (hx : fill h id w = .error (.refused f) w') : f.OfStore := by
  unfold fill at hx
  grind

@[grind →]
lemma ofStore_insert (hx : insert h ts w = .error (.refused f) w') : f.OfStore := by
  unfold insert at hx
  grind

@[grind →]
lemma ofStore_removeRow (hx : removeRow l w = .error (.refused f) w') : f.OfStore := by
  unfold removeRow at hx
  grind

@[grind →]
lemma ofStore_relocate (hx : relocate h l m w = .error (.refused f) w') : f.OfStore := by
  unfold relocate at hx
  grind

@[grind →]
lemma ofStore_vacate (hx : vacate h l w = .error (.refused f) w') : f.OfStore := by
  unfold vacate at hx
  grind

@[grind →]
lemma ofStore_transfer (hx : transfer h l id w = .error (.refused f) w') : f.OfStore := by
  unfold transfer at hx
  split at hx
  next => grind
  next => grind
  next =>
    split at hx
    next => grind
    next =>
      split at hx
      next => grind
      next =>
        extract_lets fresh at hx
        split at hx
        · cases hx
        · exact ofStore_relocate hx

@[grind →]
lemma ofStore_move (hx : move h ts w = .error (.refused f) w') : f.OfStore := by
  unfold move at hx
  grind

@[grind →]
lemma ofStore_retype {g : List TypeCode → List TypeCode → List TypeCode}
    (hx : retype g h ts w = .error (.refused f) w') : f.OfStore := by
  unfold retype typesOf Except.map at hx
  grind

@[grind →]
lemma ofStore_createEntity (hx : createEntity w = .error (.refused f) w') : f.OfStore := by
  unfold createEntity at hx
  grind

@[grind →]
lemma ofStore_createWith (hx : createWith ts w = .error (.refused f) w') : f.OfStore := by
  unfold createWith at hx
  grind

@[grind →]
lemma ofStore_destroy (hx : destroy h w = .error (.refused f) w') : f.OfStore := by
  unfold destroy freeHandle at hx
  grind

@[grind →]
lemma ofStore_modifyComponent {g : Value → Value}
    (hx : modifyComponent h t g w = .error (.refused f) w') : f.OfStore := by
  unfold modifyComponent at hx
  grind [Fault.OfStore]

@[grind →]
lemma ofStore_exchange (hx : exchange h k x w = .error (.refused f) w') : f.OfStore := by
  unfold exchange at hx
  grind

@[grind →]
lemma ofStore_put (hx : put h k x w = .error (.refused f) w') : f.OfStore := by
  unfold put assign addComponents at hx
  grind [Fault.OfStore]

end World

/-- No operation is refused for a pending entity. -/
theorem Operation.ofStore_call {w w' : World} {op : Operation}
    (hx : op.call w = .error (.refused f) w') : f.OfStore := by
  cases op <;>
    simp only [call, Step.map_apply, Step.answering, World.addComponents,
      World.removeComponents] at hx <;>
    grind

end EntityStore
