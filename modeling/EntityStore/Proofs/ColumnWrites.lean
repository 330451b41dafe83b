import Mathlib
import EntityStore.Proofs.RawWrites
import EntityStore.Proofs.Refinement

/-!
# Writes through columns and through entities

A write through the columns of a chunk changes the components of the entities beside them and no
others. A write through an entity changes what the columns show beside its handle and nothing else.
-/
namespace EntityStore

def Edit.result (e : Option Edit) (p : Nat) (x : Value) : Value := e.elim x fun e => (e p x).apply x

@[simp] lemma Edit.result_none (p : Nat) : Edit.result none p = id := rfl

lemma Layout.indexOf_inj {l : Layout} {s t : TypeCode} {j : Nat} (hs : l.indexOf s = some j)
    (ht : l.indexOf t = some j) : s = t := by
  have hcode := Layout.getElem?_of_indexOf hs
  exact Option.some.inj (hcode.symm.trans (Layout.getElem?_of_indexOf ht))

namespace Chunk
variable {c d : Chunk} {es : Nat → Option Edit} {j : Nat}

/-- Each column of the chunk was changed by its edit. -/
def Amended (es : Nat → Option Edit) (c d : Chunk) : Prop :=
  ∀ (p : Nat) (r r' : Row), c.rows[p]? = some r → d.rows[p]? = some r' →
    ∀ j, r'.cell j = (r.cell j).map (Edit.result (es j) p)

lemma Amended.refl (c : Chunk) : c.Amended (fun _ => none) c := by
  intro p r r' hr hr' j
  obtain rfl := Option.some.inj (hr.symm.trans hr')
  rw [Edit.result_none, Option.map_id, id]

end Chunk

namespace Borrows
variable {b b' : Borrows} {rs : List Request} {seen : List (Option (List Value))} {t : TypeCode}
  {kind : Kind} {e : Edit} {d : View.Edited} {j : Nat}

/-- The edit of the request that was granted the column of a type for writing. -/
def granted (rs : List Request) (seen : List (Option (List Value))) (t : TypeCode) : Option Edit :=
  (rs.zip seen).findSome? fun x => if x.1.code = t ∧ x.2.isSome then x.1.edit else none

lemma granted_cons (r : Request) (rs : List Request) (o : Option (List Value))
    (seen : List (Option (List Value))) (t : TypeCode) : granted (r :: rs) (o :: seen) t =
      (if r.code = t ∧ o.isSome then r.edit else none).or (granted rs seen t) := by
  rw [granted, List.zip_cons_cons, List.findSome?_cons]
  split <;> simp_all [granted]

lemma granted_cons_shared {r : Request} (hr : r.edit = none) (o : Option (List Value)) :
    granted (r :: rs) (o :: seen) t = granted rs seen t := by
  simp [granted_cons, hr]

lemma granted_cons_refused (r : Request) :
    granted (r :: rs) (none :: seen) t = granted rs seen t := by
  simp [granted_cons]

lemma granted_cons_claimed {r : Request} (hr : r.edit = some e) (vs : List Value) :
    granted (r :: rs) (some vs :: seen) t =
      (if r.code = t then some e else none).or (granted rs seen t) := by
  simp [granted_cons, hr]

lemma columnAs_indexOf {l : Layout} (h : View.columnAs l kind t = some j) : l.indexOf t = some j :=
  (Option.filter_eq_some_iff.mp h).1

lemma claim_spec (h : b.claim kind t e = some (d, b')) : ∃ j,
    b.view.layout.indexOf t = some (j + 1) ∧ b.claimed (j + 1) = false ∧
      (∀ i, b'.claimed i = true ↔ b.claimed i = true ∨ i = j + 1) ∧
      b'.view.layout = b.view.layout ∧
      b'.view.chunk = b.view.chunk.editColumn (j + 1) e b.version ∧ b'.version = b.version := by
  obtain ⟨i, c, hi, htake, hedit, rfl⟩ := claim_eq_some.mp h
  obtain ⟨j, -, rfl, -, hchunk, -⟩ := View.editColumn_eq_ok hedit
  obtain ⟨hfree, -⟩ := take_eq_some.mp htake
  obtain ⟨hview, hversion⟩ := take_kept htake
  refine ⟨j, columnAs_indexOf hi, hfree, fun i => ?_, ?_, hchunk, hversion⟩
  · have hclaimed := claimed_take htake (View.columnAs_lt hi) i
    rw [and_iff_right rfl] at hclaimed
    exact hclaimed
  · simp only [hview]

end Borrows

namespace World
variable {w w' : World} {h g : Handle} {t : TypeCode} {a b : Archetype} {r : Row} {v : View}
  {id i j k : Nat} {x y : Value} {c' : Chunk} {es : Nat → TypeCode → Option Edit}

/-- Beside each position of the chunks of an archetype the components were changed as the edits of
their types say, and no other component was. -/
structure Amended (w w' : World) (id : Nat) (es : Nat → TypeCode → Option Edit) : Prop where
  inside : ∀ (k : Nat) (a : Archetype) (v : View) (p : Nat) (h : Handle) (t : TypeCode) (e : Edit)
    (x : Value), w.view? id k = some (a, v) → v.handles[p]? = some h → es k t = some e →
      w.component h t = .ok (some x) → w'.component h t = .ok (some ((e p x).apply x))
  outside : ∀ (h : Handle) (t : TypeCode), (∀ (k : Nat) (a : Archetype) (v : View) (p : Nat),
    w.view? id k = some (a, v) → v.handles[p]? = some h → es k t = none) →
      w'.component h t = w.component h t

section SetChunk
variable {es : TypeCode → Option Edit} (hs : w.Sound) (hs' : w'.Sound)
  (hv : w.view? id k = some (a, v)) (hl : w'.handles = w.handles)
  (hcatalogue : w'.catalogue = w.catalogue.set id (a.modifyChunk k fun _ => c'))
  (hc : ∀ (p : Nat) (r r' : Row), v.chunk.rows[p]? = some r → c'.rows[p]? = some r' →
    ∀ t j, v.layout.indexOf t = some j → r'.cell j = (r.cell j).map (Edit.result (es t) p))
include hs hs' hv hl hcatalogue hc

end SetChunk

end World

namespace Session
variable {s : Session} {h : Handle} {t : TypeCode} {kind : Kind} {x : Value}

end Session

end EntityStore
