import Mathlib
import EntityStore.Proofs.Sound

/-!
# What archetypes hold, however they are chunked

The outline of an archetype is its number, its columns and its rows. Catalogues are alike if they
have archetypes of the same outline at the same numbers and the same free slots. What is read from
alike catalogues is the same, and changing both in the same way keeps them alike; but one of them
may run short of room where the other does not.
-/
namespace EntityStore

/-- The fault is that something has run out. -/
def Fault.isShortage : Fault → Bool
  | capacityExceeded _ _ => true
  | allocationFailed _ => true
  | _ => false

/-- What an archetype holds. -/
structure Outline where
  id : Nat
  columns : List Registration
  rows : List Row
  deriving DecidableEq, Repr

def Outline.matching (o : Outline) (all none : List TypeCode) : Bool :=
  let codes := o.columns.map Registration.code
  Ascending.includesAll codes all && !Ascending.intersects codes none

namespace Archetype
variable {a b a' b' : Archetype} {p q : Pool} {i j : Nat} {v : UInt32} {f : Fault}

def outline (a : Archetype) : Outline := ⟨a.id, a.layout.columns, a.rows⟩

lemma matching_outline (a : Archetype) (all none : List TypeCode) :
    a.outline.matching all none = (a.hasAll all && a.lacksAll none) := rfl

section Reading
variable (h : a.outline = b.outline)
include h

lemma id_of_outline : a.id = b.id := congrArg Outline.id h

lemma columns_of_outline : a.layout.columns = b.layout.columns := congrArg Outline.columns h

lemma rows_of_outline : a.rows = b.rows := congrArg Outline.rows h

lemma kinds_of_outline : a.layout.kinds = b.layout.kinds := by
  rw [Layout.kinds, Layout.kinds, columns_of_outline h]

lemma codes_of_outline : a.codes = b.codes := by
  rw [codes, codes, Layout.codes, Layout.codes, columns_of_outline h]

lemma signature_of_outline : a.signature = b.signature := by
  rw [signature, signature, codes_of_outline h]

lemma indexOf_of_outline (t : TypeCode) : a.layout.indexOf t = b.layout.indexOf t := by
  rw [Layout.indexOf, Layout.indexOf, Layout.codes, Layout.codes, columns_of_outline h]

lemma has_of_outline : a.has = b.has := by
  funext t
  rw [has, has, indexOf_of_outline h]

lemma freshColumns_of_outline (m : Ascending.Pairing) :
    World.freshColumns m a = World.freshColumns m b := by
  rw [World.freshColumns, World.freshColumns, columns_of_outline h]

lemma cells_of_outline (r : Row) (js : List Nat) : a.cells r js = b.cells r js := by
  rw [cells, cells, kinds_of_outline h]

/-- Archetypes that get the same rows and are otherwise kept have the same outline again. -/
lemma outline_congr (ha : a'.blank = a.blank) (hb : b'.blank = b.blank) (hr : a'.rows = b'.rows) :
    a'.outline = b'.outline := by
  have hid : a'.id = b'.id :=
    calc a'.blank.id = a.blank.id := by rw [ha]
      _ = b.blank.id := congrArg Outline.id h
      _ = b'.blank.id := by rw [hb]
  have hcolumns : a'.layout.columns = b'.layout.columns := by
    rw [layout_of_blank ha, layout_of_blank hb, columns_of_outline h]
  rw [outline, outline, hid, hcolumns, hr]

end Reading

lemma row_eq (ha : a.Packed) (i : Nat) : a.row i =
    match a.rows[i]? with
    | some r => .ok r
    | none => .error (.outOfRange .entity i a.rows.length) := by
  cases hr : a.rows[i]? with
  | some r => exact (row_eq_ok ha).mpr hr
  | none =>
    have hlt : ¬ i < a.count := by
      rw [ha.counted, not_lt]
      exact List.getElem?_eq_none_iff.mp hr
    simp only [row, locate, if_neg hlt]
    rw [ha.counted]

lemma isShortage_reserve (hr : a.reserve p v = .error f) : f.isShortage = true := by
  rcases reserve_error hr with ⟨-, rfl⟩ | ht
  · rfl
  · obtain ⟨-, -, rfl⟩ := Pool.take_eq_error ht
    rfl

/-- Different settings make the same archetype of the same columns, unless one of them is short of
room for it. -/
lemma new_of_settings (id : Nat) (cs : List Registration) (s s' : Settings) :
    (∃ a b, Archetype.new id cs s = .ok a ∧ Archetype.new id cs s' = .ok b ∧
      a.outline = b.outline) ∨
    (∃ f, Archetype.new id cs s = .error f ∧ Archetype.new id cs s' = .error f) ∨
    ∃ f, f.isShortage = true ∧
      (Archetype.new id cs s = .error f ∨ Archetype.new id cs s' = .error f) := by
  have hlayout : ∀ n, (∃ l, Layout.new cs n = .ok l ∧ l.columns = cs) ∨
      ∃ f, f.isShortage = true ∧ Layout.new cs n = .error f := by
    intro n
    cases hl : Layout.new cs n with
    | ok l => exact .inl ⟨l, rfl, (Layout.new_eq_ok hl).1⟩
    | error f =>
      obtain rfl := Layout.new_eq_error hl
      exact .inr ⟨_, rfl, rfl⟩
  unfold Archetype.new
  cases cs with
  | nil => exact .inr (.inl ⟨_, rfl, rfl⟩)
  | cons first rest =>
    by_cases hs : s.maxTypes < (first :: rest).length
    · exact .inr (.inr ⟨_, rfl, .inl (by simp only [if_pos hs]; rfl)⟩)
    by_cases hs' : s'.maxTypes < (first :: rest).length
    · exact .inr (.inr ⟨_, rfl, .inr (by simp only [if_pos hs']; rfl)⟩)
    simp only [if_neg hs, if_neg hs']
    by_cases hfirst : first.code ≠ TypeCode.entity
    · simp only [if_pos hfirst]
      exact .inr (.inl ⟨_, rfl, rfl⟩)
    simp only [if_neg hfirst]
    cases Ascending.validate (rest.map Registration.code) with
    | error f => exact .inr (.inl ⟨f, rfl, rfl⟩)
    | ok _ =>
      rcases hlayout s.bufferSize with ⟨l, hl, hcolumns⟩ | ⟨f, hf, hl⟩
      · rcases hlayout s'.bufferSize with ⟨l', hl', hcolumns'⟩ | ⟨f, hf, hl'⟩
        · refine .inl ⟨_, _, by simp only [hl]; rfl, by simp only [hl']; rfl, ?_⟩
          simp only [outline, hcolumns, hcolumns', rows, List.flatMap_nil]
        · exact .inr (.inr ⟨f, hf, .inr (by simp only [hl']; rfl)⟩)
      · exact .inr (.inr ⟨f, hf, .inl (by simp only [hl]; rfl)⟩)

section Packed
variable (h : a.outline = b.outline) (ha : a.Packed) (hb : b.Packed)
include h ha hb

lemma count_of_outline : a.count = b.count := by
  rw [ha.counted, hb.counted, rows_of_outline h]

lemma isEmpty_of_outline : a.isEmpty = b.isEmpty := by
  rw [isEmpty, isEmpty, count_of_outline h ha hb]

lemma row_of_outline (i : Nat) : a.row i = b.row i := by
  rw [row_eq ha, row_eq hb, rows_of_outline h]

lemma cell_of_outline (j i : Nat) : a.cell j i = b.cell j i := by
  rw [cell, cell, row_of_outline h ha hb, columns_of_outline h]

/-- A place can be reserved in both, and given up or filled in the same way, unless one of them is
short of room for it. -/
lemma reserve_of_outline (p q : Pool) (v v' : UInt32) :
    (∃ a' p' b' q', a.reserve p v = .ok (a', p') ∧ b.reserve q v' = .ok (b', q') ∧
      a'.outline = b'.outline ∧ a'.count = b'.count ∧
      (∀ js js', (a'.abandon js p' v).1.outline = (b'.abandon js' q' v').1.outline) ∧
      ∀ r, (a'.commit r v).outline = (b'.commit r v').outline) ∨
    ∃ f, f.isShortage = true ∧ (a.reserve p v = .error f ∨ b.reserve q v' = .error f) := by
  cases hra : a.reserve p v with
  | error f => exact .inr ⟨f, isShortage_reserve hra, .inl rfl⟩
  | ok x =>
    cases hrb : b.reserve q v' with
    | error f => exact .inr ⟨f, isShortage_reserve hrb, .inr rfl⟩
    | ok y =>
      obtain ⟨a', p'⟩ := x
      obtain ⟨b', q'⟩ := y
      obtain ⟨hablank, hacount, harows, -⟩ := reserve_spec ha hra
      obtain ⟨hbblank, hbcount, hbrows, -⟩ := reserve_spec hb hrb
      have hrows := rows_of_outline h
      refine .inl ⟨a', p', b', q', rfl, rfl, ?_, ?_, fun js js' => ?_, fun r => ?_⟩
      · exact outline_congr h hablank hbblank (by rw [harows, hbrows, hrows])
      · rw [hacount, hbcount, count_of_outline h ha hb]
      · obtain ⟨-, harows, hablank⟩ := abandon_spec ha hra js
        obtain ⟨-, hbrows, hbblank⟩ := abandon_spec hb hrb js'
        exact outline_congr h hablank hbblank (by rw [harows, hbrows, hrows])
      · obtain ⟨harows, hablank⟩ := rows_commit ha hra r
        obtain ⟨hbrows, hbblank⟩ := rows_commit hb hrb r
        exact outline_congr h hablank hbblank (by rw [harows, hbrows, hrows])

lemma modifyCell_of_outline (j i : Nat) (g : Value → Value) (v v' : UInt32) :
    (∃ a' b', a.modifyCell j i g v = .ok a' ∧ b.modifyCell j i g v' = .ok b' ∧
      a'.outline = b'.outline) ∨
    ∃ f, a.modifyCell j i g v = .error f ∧ b.modifyCell j i g v' = .error f := by
  by_cases hi : i < b.count
  · obtain ⟨a', ha'⟩ : ∃ a', a.modifyCell j i g v = .ok a' := by
      simp [modifyCell, locate, count_of_outline h ha hb, hi, Except.map]
    obtain ⟨b', hb'⟩ : ∃ b', b.modifyCell j i g v' = .ok b' := by
      simp [modifyCell, locate, hi, Except.map]
    obtain ⟨-, harows, hablank⟩ := modifyCell_spec ha ha'
    obtain ⟨-, hbrows, hbblank⟩ := modifyCell_spec hb hb'
    refine .inl ⟨a', b', ha', hb', outline_congr h hablank hbblank ?_⟩
    rw [harows, hbrows, rows_of_outline h]
  · refine .inr ⟨.outOfRange .entity i b.count, ?_, ?_⟩
    · simp [modifyCell, locate, count_of_outline h ha hb, hi, Except.map]
    · simp [modifyCell, locate, hi, Except.map]

/-- A row can be taken out of both or of neither, and the same one is displaced. -/
lemma remove_of_outline (i : Nat) (p q : Pool) (v v' : UInt32) :
    (∃ d a' b' p' q', a.remove i p v = .ok (d, a', p') ∧ b.remove i q v' = .ok (d, b', q') ∧
      a'.Packed ∧ a'.blank = a.blank ∧ b'.Packed ∧ b'.blank = b.blank ∧
      a'.outline = b'.outline) ∨
    ∃ f, a.remove i p v = .error f ∧ b.remove i q v' = .error f := by
  have hrows := rows_of_outline h
  by_cases hi : i < a.rows.length
  · obtain ⟨d, a', p', hra, hpa, harows, hablank, last, hl, rfl⟩ :=
      remove_spec (p := p) (v := v) ha hi
    obtain ⟨d', b', q', hrb, hpb, hbrows, hbblank, last', hl', rfl⟩ :=
      remove_spec (p := q) (v := v') hb (hrows ▸ hi)
    obtain rfl : last' = last := by
      rw [← hrows, hl] at hl'
      exact (Option.some.inj hl').symm
    refine .inl ⟨_, a', b', p', q', hra, hrows ▸ hrb, hpa, hablank, hpb, hbblank,
      outline_congr h hablank hbblank ?_⟩
    rw [harows, hbrows, hrows]
  · have hcount : ¬ i < b.count := by rwa [hb.counted, ← hrows]
    refine .inr ⟨.outOfRange .entity i b.count, ?_, ?_⟩
    · simp [remove, locate, count_of_outline h ha hb, hcount]
    · simp [remove, locate, hcount]

end Packed

end Archetype

namespace Catalogue
variable {c d c' d' : Catalogue} {a b : Archetype} {id : Nat} {ts : List TypeCode}

def Slot.outline : Slot → Outline ⊕ Option Nat
  | used a => .inl a.outline
  | free next => .inr next

/-- The same slots are free, in the same order, and the others hold the same. -/
structure Alike (c d : Catalogue) : Prop where
  slots : c.slots.map Slot.outline = d.slots.map Slot.outline
  freeHead : c.freeHead = d.freeHead

lemma alike_new (m n : Nat) (f g : List TypeCode → Nat) : (new m f).Alike (new n g) := ⟨rfl, rfl⟩

namespace Alike
variable (h : c.Alike d)
include h

lemma size_eq : c.slots.size = d.slots.size := by
  have hsize := congrArg Array.size h.slots
  rwa [Array.size_map, Array.size_map] at hsize

lemma nextId_eq : c.nextId = d.nextId := by
  rw [nextId, nextId, h.freeHead, h.size_eq]

lemma slot_eq (i : Nat) : c.slots[i]?.map Slot.outline = d.slots[i]?.map Slot.outline := by
  rw [← Array.getElem?_map, ← Array.getElem?_map, h.slots]

lemma free_iff (i : Nat) (next : Option Nat) :
    c.slots[i]? = some (.free next) ↔ d.slots[i]? = some (.free next) := by
  have hfree : ∀ s : Slot, s.outline = .inr next ↔ s = .free next := by
    intro s
    cases s <;> simp [Slot.outline]
  have hslot : ∀ o : Option Slot,
      o = some (.free next) ↔ o.map Slot.outline = some (.inr next) := by
    intro o
    cases o <;> simp [hfree]
  rw [hslot, hslot, h.slot_eq]

lemma get?_eq (id : Nat) :
    (c.get? id).map Archetype.outline = (d.get? id).map Archetype.outline := by
  have hread : ∀ o : Option Slot, (o.bind Slot.archetype?).map Archetype.outline =
      (o.map Slot.outline).bind Sum.getLeft? := by
    intro o
    cases o with
    | none => rfl
    | some s => cases s <;> rfl
  rw [get?, get?, hread, hread, h.slot_eq]

lemma get_cases (id : Nat) :
    (∃ a b, c.get? id = some a ∧ d.get? id = some b ∧ a.outline = b.outline) ∨
      c.get? id = none ∧ d.get? id = none ∧ ∃ f, c.get id = .error f ∧ d.get id = .error f := by
  have heq := h.get?_eq id
  cases hc : c.get? id with
  | none =>
    cases hd : d.get? id with
    | some b => simp [hc, hd] at heq
    | none => exact .inr ⟨rfl, rfl, _, by rw [get, hc], by rw [get, hd, h.size_eq]⟩
  | some a =>
    cases hd : d.get? id with
    | none => simp [hc, hd] at heq
    | some b => exact .inl ⟨a, b, rfl, rfl, by simpa [hc, hd] using heq⟩

lemma archetypes_eq :
    c.archetypes.map Archetype.outline = d.archetypes.map Archetype.outline := by
  have hread : ∀ e : Catalogue, e.archetypes.map Archetype.outline =
      (e.slots.map Slot.outline).toList.filterMap Sum.getLeft? := by
    intro e
    rw [archetypes, List.map_filterMap, Array.toList_map, List.filterMap_map]
    refine List.filterMap_congr fun s _ => ?_
    cases s <;> rfl
  rw [hread, hread, h.slots]

lemma set (id : Nat) (hab : a.outline = b.outline) : (c.set id a).Alike (d.set id b) := by
  refine ⟨?_, h.freeHead⟩
  simp only [Catalogue.set, Array.map_setIfInBounds, h.slots, Slot.outline, hab]

lemma recycle (id : Nat)
    (hempty : ∀ a b, c.get? id = some a → d.get? id = some b → a.isEmpty = b.isEmpty) :
    (c.recycle id).Alike (d.recycle id) := by
  rcases h.get_cases id with ⟨a, b, ha, hb, -⟩ | ⟨hc, hd, -⟩
  · have hab := hempty a b ha hb
    cases he : b.isEmpty with
    | false =>
      rwa [recycle_of_not_empty ha (by simp [hab, he]), recycle_of_not_empty hb (by simp [he])]
    | true =>
      rw [recycle_of_empty ha (hab.trans he), recycle_of_empty hb he]
      refine ⟨?_, rfl⟩
      simp only [Array.map_setIfInBounds, h.slots, h.freeHead, Slot.outline]
  · simpa only [Catalogue.recycle, hc, hd] using h

variable (hc : c.Valid) (hd : d.Valid)
include hc hd

lemma find?_eq (ts : List TypeCode) : c.find? ts = d.find? ts := by
  refine Option.ext fun id => ?_
  rw [find_eq_some hc, find_eq_some hd]
  rcases h.get_cases id with ⟨a, b, ha, hb, hab⟩ | ⟨hc, hd, -⟩
  · simp [ha, hb, Archetype.signature_of_outline hab]
  · simp [hc, hd]

lemma insert (ts : List TypeCode) (m n : Nat) :
    (∃ x y, c.directory.insert c.hash ts m = .ok x ∧
      d.directory.insert d.hash ts n = .ok y) ∨
    ∃ f, c.directory.insert c.hash ts m = .error f ∧
      d.directory.insert d.hash ts n = .error f := by
  have hfind := h.find?_eq hc hd ts
  unfold find? Directory.get at hfind
  unfold Directory.insert
  cases hcf : c.directory.find c.hash ts with
  | some x =>
    cases hdf : d.directory.find d.hash ts with
    | none => simp [hcf, hdf] at hfind
    | some y => exact .inr ⟨_, rfl, rfl⟩
  | none =>
    cases hdf : d.directory.find d.hash ts with
    | some y => simp [hcf, hdf] at hfind
    | none => exact .inl ⟨_, _, rfl, rfl⟩

lemma add (hab : a.outline = b.outline) :
    (∃ c' d', c.add a = .ok c' ∧ d.add b = .ok d' ∧ c'.Alike d') ∨
      ∃ f, c.add a = .error f ∧ d.add b = .error f := by
  unfold Catalogue.add
  rw [Archetype.signature_of_outline hab]
  rcases h.insert hc hd b.signature c.nextId d.nextId with ⟨x, y, hx, hy⟩ | ⟨f, hx, hy⟩
  · cases hf : d.freeHead with
    | none =>
      simp only [hx, hy, h.freeHead, hf]
      refine .inl ⟨_, _, rfl, rfl, ⟨?_, rfl⟩⟩
      simp only [Array.map_push, h.slots, Slot.outline, hab]
    | some i =>
      simp only [hx, hy, h.freeHead, hf, h.size_eq]
      by_cases hfree : ∃ next, d.slots[i]? = some (.free next)
      · obtain ⟨next, hd⟩ := hfree
        have hc := (h.free_iff i next).mpr hd
        simp only [hc, hd]
        refine .inl ⟨_, _, rfl, rfl, ⟨?_, rfl⟩⟩
        simp only [Array.map_setIfInBounds, h.slots, Slot.outline, hab]
      · refine .inr ⟨.outOfRange .freeArchetype i d.slots.size, ?_, ?_⟩
        · split
          next next hs => exact absurd ⟨next, (h.free_iff i next).mp hs⟩ hfree
          next => rfl
        · split
          next next hs => exact absurd ⟨next, hs⟩ hfree
          next => rfl
  · exact .inr ⟨f, by simp only [hx], by simp only [hy]⟩

end Alike

end Catalogue

end EntityStore
