import Mathlib
import EntityStore.World.Queries
import EntityStore.Proofs.Issuing
import EntityStore.Proofs.Outline

/-!
# Stores that only differ in their tuning

Two stores are alike if they have the same entities with the same components in the same order,
however their archetypes are chunked and indexed and whatever their pools hold. An operation ends in
the same way on both and leaves them alike, unless it runs short of room on one of them.
-/
namespace EntityStore

namespace World

structure Alike (w v : World) : Prop where
  registry : w.registry = v.registry
  lifetimes : w.lifetimes = v.lifetimes
  handles : w.handles = v.handles
  catalogue : w.catalogue.Alike v.catalogue

/-- Both ends are the same, or one of them is for want of room. -/
inductive Agree {α : Type} :
    EStateM.Result Failure World α → EStateM.Result Failure World α → Prop
  | ok {answer : α} {w v : World} (h : Alike w v) : Agree (.ok answer w) (.ok answer v)
  | error {e : Failure} {w v : World} (h : Alike w v) : Agree (.error e w) (.error e v)
  | short_left {f : Fault} {w : World} {y : EStateM.Result Failure World α}
      (hf : f.isShortage = true) : Agree (.error (.refused f) w) y
  | short_right {f : Fault} {v : World} {x : EStateM.Result Failure World α}
      (hf : f.isShortage = true) : Agree x (.error (.refused f) v)

variable {w v : World} {h : Handle} {l : Location} {m : Option Location} {id : Nat}
  {ts : List TypeCode} {a b : Archetype}

/-- What a step comes to that goes on with the answer of another one. -/
def andThen {α β : Type} (x : EStateM.Result Failure World α)
    (k : α → World → EStateM.Result Failure World β) : EStateM.Result Failure World β :=
  match x with
  | .error e w => .error e w
  | .ok answer w => k answer w

lemma Agree.andThen {α β : Type} {x y : EStateM.Result Failure World α}
    {k k' : α → World → EStateM.Result Failure World β} (hxy : Agree x y)
    (hk : ∀ answer w v, x = .ok answer w → y = .ok answer v → Alike w v →
      Agree (k answer w) (k' answer v)) :
    Agree (World.andThen x k) (World.andThen y k') := by
  cases hxy with
  | ok h => exact hk _ _ _ rfl rfl h
  | error h => exact .error h
  | short_left hf => exact .short_left hf
  | short_right hf => exact .short_right hf

lemma insert_eq_andThen (h : Handle) (ts : List TypeCode) (w : World) :
    insert h ts w = andThen (resolve ts w) (fill h) := by
  unfold insert andThen
  cases resolve ts w <;> rfl

lemma relocate_eq_andThen (h : Handle) (l : Location) (m : Option Location) (w : World) :
    relocate h l m w = andThen (removeRow l w) fun _ w =>
      andThen (setLocation h m w) fun _ w => .ok () (w.recycle l.archetype) := by
  unfold relocate andThen
  cases removeRow l w with
  | error e w => rfl
  | ok _ w =>
    simp only []
    cases setLocation h m w <;> rfl

lemma move_eq_andThen (hl : w.handles.location h = .ok (some l)) (hne : ts ≠ []) :
    move h ts w = andThen (resolve ts w) fun id w =>
      if id = l.archetype then .ok () w else transfer h l id w := by
  have hempty : ts.isEmpty = false := by simpa using hne
  simp only [move, hl, hempty, Bool.false_eq_true, if_false]
  unfold andThen
  cases resolve ts w <;> rfl

lemma destroy_eq_andThen (hl : w.handles.location h = .ok (some l)) :
    destroy h w = andThen (vacate h l w) fun _ w => freeHandle h w := by
  simp only [destroy, hl]
  unfold andThen
  cases vacate h l w <;> rfl

lemma exchange_eq_andThen {k : Kind} {t : TypeCode} (ht : w.registry.lookup k .none = some t)
    (x : Value) : exchange h k x w = andThen (modifyComponent h t (fun _ => x) w) fun old w =>
      .ok old (old.elim w fun y => { w with lifetimes := w.lifetimes.drop k y }) := by
  simp only [exchange, ht]
  unfold andThen
  rcases modifyComponent h t (fun _ => x) w with ⟨_ | _, _⟩ | ⟨_, _⟩ <;> rfl

lemma assign_eq_andThen {k : Kind} {t : TypeCode} {registry : Registry}
    (ht : w.registry.register k .none = .ok (t, registry)) (x : Value) :
    assign h k x w = andThen (addComponents h [t] { w with registry }) fun _ w =>
      andThen (exchange h k x w) fun old w =>
        if old.isSome then .ok () w
        else .error (.refused (.invalidArgument (.kindMismatch t k.name))) w := by
  simp only [assign, ht]
  unfold andThen
  rcases addComponents h [t] { w with registry } with ⟨_, v⟩ | ⟨_, _⟩
  · simp only []
    rcases exchange h k x v with ⟨_ | _, _⟩ | ⟨_, _⟩ <;> rfl
  · rfl

lemma agree_setLocation (hwv : Alike w v) : Agree (setLocation h m w) (setLocation h m v) := by
  unfold setLocation
  rw [hwv.handles]
  cases v.handles.setLocation h m with
  | error f => exact .error hwv
  | ok handles => exact .ok ⟨hwv.registry, hwv.lifetimes, rfl, hwv.catalogue⟩

lemma Alike.recycle (hwv : Alike w v)
    (hempty : ∀ a b, w.catalogue.get? id = some a → v.catalogue.get? id = some b →
      a.isEmpty = b.isEmpty) : Alike (w.recycle id) (v.recycle id) :=
  ⟨hwv.registry, hwv.lifetimes, hwv.handles, hwv.catalogue.recycle id hempty⟩

lemma agree_resolve (hw : w.Sound) (hv : v.Sound) (hwv : Alike w v) :
    Agree (resolve ts w) (resolve ts v) := by
  unfold resolve
  rw [hwv.catalogue.find?_eq hw.catalogue.valid hv.catalogue.valid]
  cases v.catalogue.find? ts with
  | some id => exact .ok hwv
  | none =>
    simp only [draft, hwv.registry, hwv.catalogue.nextId_eq]
    cases v.registry.registrations (TypeCode.entity :: ts) with
    | error f => exact .error hwv
    | ok columns =>
      rcases Archetype.new_of_settings v.catalogue.nextId columns w.settings v.settings with
        ⟨a, b, ha, hb, hab⟩ | ⟨f, ha, hb⟩ | ⟨f, hf, ha | hb⟩
      · simp only [ha, hb]
        rcases hwv.catalogue.add hw.catalogue.valid hv.catalogue.valid hab with
          ⟨c, d, hc, hd, hcd⟩ | ⟨f, hc, hd⟩
        · simp only [hc, hd, Archetype.id_of_outline hab]
          exact .ok ⟨rfl, hwv.lifetimes, hwv.handles, hcd⟩
        · simp only [hc, hd]
          exact .error hwv
      · simp only [ha, hb]
        exact .error hwv
      · simp only [ha]
        exact .short_left hf
      · simp only [hb]
        exact .short_right hf

lemma agree_fill (hw : w.Sound) (hv : v.Sound) (hwv : Alike w v) :
    Agree (fill h id w) (fill h id v) := by
  unfold fill
  rcases hwv.catalogue.get_cases id with ⟨a, b, ha, hb, hab⟩ | ⟨-, -, f, ha, hb⟩
  · simp only [Catalogue.get_eq_ok.mpr ha, Catalogue.get_eq_ok.mpr hb]
    rcases Archetype.reserve_of_outline hab (hw.catalogue.packed id a ha)
        (hv.catalogue.packed id b hb) w.pool v.pool w.version v.version with
      ⟨a', p, b', q, hra, hrb, hab', hcount, hleft, hadded⟩ | ⟨f, hf, hra | hrb⟩
    · simp only [hra, hrb, hwv.lifetimes, Archetype.kinds_of_outline hab']
      cases v.lifetimes.makeAll b'.layout.kinds.tail with
      | mk made lifetimes =>
        cases made with
        | error n =>
          exact .error ⟨hwv.registry, rfl, hwv.handles, hwv.catalogue.set id (hleft _ _)⟩
        | ok values =>
          simp only [hcount]
          exact agree_setLocation
            ⟨hwv.registry, rfl, hwv.handles, hwv.catalogue.set id (hadded _)⟩
    · simp only [hra]
      exact .short_left hf
    · simp only [hrb]
      exact .short_right hf
  · simp only [ha, hb]
    exact .error hwv

lemma agree_insert (hw : w.Sound) (hv : v.Sound) (hne : ts ≠ []) (hwv : Alike w v) :
    Agree (insert h ts w) (insert h ts v) := by
  rw [insert_eq_andThen, insert_eq_andThen]
  refine (agree_resolve hw hv hwv).andThen fun id w' v' hw' hv' hwv' => ?_
  obtain ⟨a, ha, -⟩ := resolve_opened hw hne hw'
  obtain ⟨b, hb, -⟩ := resolve_opened hv hne hv'
  exact agree_fill (ha.sound hw) (hb.sound hv) hwv'

lemma catalogue_setLocation (hr : setLocation h m w = .ok () v) : v.catalogue = w.catalogue := by
  unfold setLocation at hr
  split at hr
  next => cases hr
  next => rw [← (EStateM.Result.ok.inj hr).2]

lemma packed_removeRow (ha : w.catalogue.get? l.archetype = some a) (hpa : a.Packed)
    (hr : removeRow l w = .ok () v) : ∃ b, v.catalogue.get? l.archetype = some b ∧ b.Packed := by
  have hset : ∀ b : Archetype, (w.catalogue.set l.archetype b).get? l.archetype = some b := by
    intro b
    rw [Catalogue.get_set ha, Function.update_self]
  unfold removeRow at hr
  simp only [Catalogue.get_eq_ok.mpr ha] at hr
  rcases Archetype.remove_of_outline rfl hpa hpa l.index w.pool w.pool w.version w.version with
    ⟨d, b, -, p, -, hra, -, hb, -⟩ | ⟨f, hra, -⟩
  · simp only [hra] at hr
    refine ⟨b, ?_, hb⟩
    cases d with
    | none => rw [← (EStateM.Result.ok.inj hr).2, hset]
    | some d => rw [catalogue_setLocation hr, hset]
  · simp [hra] at hr

section Relocate
variable (ha : w.catalogue.get? l.archetype = some a) (hb : v.catalogue.get? l.archetype = some b)
  (hpa : a.Packed) (hpb : b.Packed) (hwv : Alike w v)
include ha hb hpa hpb hwv

/-- A row is taken out of both archetypes, which stay packed, and in both the same handle is told
its new place. -/
lemma agree_removeRow : Agree (removeRow l w) (removeRow l v) := by
  have hab : a.outline = b.outline := by simpa [ha, hb] using hwv.catalogue.get?_eq l.archetype
  unfold removeRow
  simp only [Catalogue.get_eq_ok.mpr ha, Catalogue.get_eq_ok.mpr hb]
  rcases Archetype.remove_of_outline hab hpa hpb l.index w.pool v.pool w.version v.version with
    ⟨d, a', b', p, q, hra, hrb, -, -, -, -, hab'⟩ | ⟨f, hra, hrb⟩
  · simp only [hra, hrb]
    have hleft := hwv.catalogue.set l.archetype hab'
    cases d with
    | none => exact .ok ⟨hwv.registry, hwv.lifetimes, hwv.handles, hleft⟩
    | some d => exact agree_setLocation ⟨hwv.registry, hwv.lifetimes, hwv.handles, hleft⟩
  · simp only [hra, hrb]
    exact .error hwv

lemma agree_relocate : Agree (relocate h l m w) (relocate h l m v) := by
  rw [relocate_eq_andThen, relocate_eq_andThen]
  refine (agree_removeRow ha hb hpa hpb hwv).andThen fun _ w' v' hw' hv' hwv' => ?_
  refine (agree_setLocation hwv').andThen fun _ w'' v'' hw'' hv'' hwv'' => ?_
  -- the row left a packed archetype in both, which is empty in both or in neither
  obtain ⟨x, hx, hpx⟩ := packed_removeRow ha hpa hw'
  obtain ⟨y, hy, hpy⟩ := packed_removeRow hb hpb hv'
  rw [← catalogue_setLocation hw''] at hx
  rw [← catalogue_setLocation hv''] at hy
  have hxy : x.outline = y.outline := by
    simpa [hx, hy] using hwv''.catalogue.get?_eq l.archetype
  refine .ok (hwv''.recycle fun a' b' ha' hb' => ?_)
  obtain rfl := Option.some.inj (ha'.symm.trans hx)
  obtain rfl := Option.some.inj (hb'.symm.trans hy)
  exact Archetype.isEmpty_of_outline hxy hpx hpy

end Relocate

section Placed
variable (hw : w.Sound) (hv : v.Sound) (hwv : Alike w v)
include hw hv hwv

lemma agree_vacate : Agree (vacate h l w) (vacate h l v) := by
  unfold vacate
  rcases hwv.catalogue.get_cases l.archetype with ⟨a, b, ha, hb, hab⟩ | ⟨-, -, f, ha, hb⟩
  · have hpa := hw.catalogue.packed _ a ha
    have hpb := hv.catalogue.packed _ b hb
    simp only [Catalogue.get_eq_ok.mpr ha, Catalogue.get_eq_ok.mpr hb,
      Archetype.row_of_outline hab hpa hpb, Archetype.kinds_of_outline hab, hwv.lifetimes]
    cases b.row l.index with
    | error f => exact .error hwv
    | ok r => exact agree_relocate ha hb hpa hpb ⟨hwv.registry, rfl, hwv.handles, hwv.catalogue⟩
  · simp only [ha, hb]
    exact .error hwv

lemma agree_transfer (hne : l.archetype ≠ id) : Agree (transfer h l id w) (transfer h l id v) := by
  unfold transfer
  rcases hwv.catalogue.get_cases l.archetype with ⟨a, b, ha, hb, hab⟩ | ⟨-, -, f, ha, hb⟩
  · rcases hwv.catalogue.get_cases id with ⟨c, d, hc, hd, hcd⟩ | ⟨-, -, f, hc, hd⟩
    · have hpa := hw.catalogue.packed _ a ha
      have hpb := hv.catalogue.packed _ b hb
      simp only [Catalogue.get_eq_ok.mpr ha, Catalogue.get_eq_ok.mpr hb, Catalogue.get_eq_ok.mpr hc,
        Catalogue.get_eq_ok.mpr hd, Archetype.row_of_outline hab hpa hpb]
      cases b.row l.index with
      | error f => exact .error hwv
      | ok r =>
        simp only []
        rcases Archetype.reserve_of_outline hcd (hw.catalogue.packed _ c hc)
            (hv.catalogue.packed _ d hd) w.pool v.pool w.version v.version with
          ⟨c', p, d', q, hrc, hrd, hcd', hcount, hleft, hadded⟩ | ⟨f, hf, hrc | hrd⟩
        -- the last two are the ones where the memory of one of the stores is short
        · simp only [hrc, hrd, hwv.lifetimes, Archetype.codes_of_outline hab,
            Archetype.codes_of_outline hcd', Archetype.freshColumns_of_outline hcd',
            Archetype.cells_of_outline hab]
          generalize Ascending.pairUp b.codes d'.codes = m
          cases v.lifetimes.makeAll ((freshColumns m d').map fun cj => cj.1.kind) with
          | mk made lifetimes =>
            cases made with
            | error n =>
              exact .error ⟨hwv.registry, rfl, hwv.handles, hwv.catalogue.set id (hleft _ _)⟩
            | ok defaults =>
              simp only [hcount]
              refine agree_relocate (a := a) (b := b) ?_ ?_ hpa hpb
                ⟨hwv.registry, rfl, hwv.handles, hwv.catalogue.set id (hadded _)⟩
              · rw [Catalogue.get_set hc, Function.update_of_ne hne, ha]
              · rw [Catalogue.get_set hd, Function.update_of_ne hne, hb]
        · simp only [hrc]
          exact .short_left hf
        · simp only [hrd]
          exact .short_right hf
    · simp only [Catalogue.get_eq_ok.mpr ha, Catalogue.get_eq_ok.mpr hb, hc, hd]
      exact .error hwv
  · simp only [ha, hb]
    exact .error hwv

lemma agree_move : Agree (move h ts w) (move h ts v) := by
  cases hl : v.handles.location h with
  | error f =>
    simp only [move, hwv.handles, hl]
    exact .error hwv
  | ok m =>
    by_cases hempty : ts = []
    · simp only [move, hwv.handles, hl, hempty, List.isEmpty_nil, if_true]
      cases m with
      | none => exact .ok hwv
      | some l => exact agree_vacate hw hv hwv
    · cases m with
      | none =>
        have hne : ts.isEmpty = false := by simpa using hempty
        simp only [move, hwv.handles, hl, hne, Bool.false_eq_true, if_false]
        exact agree_insert hw hv hempty hwv
      | some l =>
        rw [move_eq_andThen (hwv.handles ▸ hl) hempty, move_eq_andThen hl hempty]
        refine (agree_resolve hw hv hwv).andThen fun id w' v' hw' hv' hwv' => ?_
        by_cases hid : id = l.archetype
        · simp only [if_pos hid]
          exact .ok hwv'
        · simp only [if_neg hid]
          obtain ⟨a, ha, -⟩ := resolve_opened hw hempty hw'
          obtain ⟨b, hb, -⟩ := resolve_opened hv hempty hv'
          exact agree_transfer (ha.sound hw) (hb.sound hv) hwv' (Ne.symm hid)

end Placed

lemma Alike.found (hwv : Alike w v) (h : Handle) :
    (∃ f, w.handles.location h = .error f ∧ v.handles.location h = .error f) ∨
    w.handles.location h = .ok none ∧ v.handles.location h = .ok none ∨
    ∃ l, w.handles.location h = .ok (some l) ∧ v.handles.location h = .ok (some l) ∧
      ((∃ a b, w.catalogue.get? l.archetype = some a ∧ v.catalogue.get? l.archetype = some b ∧
        a.outline = b.outline) ∨
      ∃ f, w.catalogue.get l.archetype = .error f ∧ v.catalogue.get l.archetype = .error f) := by
  rw [hwv.handles]
  cases v.handles.location h with
  | error f => exact .inl ⟨f, rfl, rfl⟩
  | ok m =>
    cases m with
    | none => exact .inr (.inl ⟨rfl, rfl⟩)
    | some l =>
      refine .inr (.inr ⟨l, rfl, rfl, ?_⟩)
      exact (hwv.catalogue.get_cases l.archetype).imp_right fun hnone => hnone.2.2

lemma typesOf_of_alike (hwv : Alike w v) : w.typesOf h = v.typesOf h := by
  unfold typesOf
  rcases hwv.found h with ⟨f, hw, hv⟩ | ⟨hw, hv⟩ |
    ⟨l, hw, hv, ⟨a, b, ha, hb, hab⟩ | ⟨f, ha, hb⟩⟩
  · simp only [hw, hv]
  · simp only [hw, hv]
  · simp only [hw, hv, Catalogue.get_eq_ok.mpr ha, Catalogue.get_eq_ok.mpr hb, Except.map,
      Archetype.signature_of_outline hab]
  · simp only [hw, hv, ha, hb]

lemma agree_createEntity (hwv : Alike w v) : Agree (createEntity w) (createEntity v) := by
  unfold createEntity
  rw [hwv.handles]
  cases v.handles.allocate with
  | error f => exact .error hwv
  | ok ht => exact .ok ⟨hwv.registry, hwv.lifetimes, rfl, hwv.catalogue⟩

lemma agree_freeHandle (hwv : Alike w v) : Agree (freeHandle h w) (freeHandle h v) := by
  unfold freeHandle
  rw [hwv.handles]
  cases v.handles.free h with
  | error f => exact .error hwv
  | ok t => exact .ok ⟨hwv.registry, hwv.lifetimes, rfl, hwv.catalogue⟩

/-- What comes of creating an entity from what came of storing it: a handle that was refused its
place is freed again. -/
def withdraw (h : Handle) : EStateM.Result Failure World Unit → EStateM.Result Failure World Handle
  | .ok () w => .ok h w
  | .error .aborted w => .error .aborted w
  | .error (.refused f) w =>
      match w.handles.free h with
      | .error g => .error (.refused g) w
      | .ok handles => .error (.refused f) { w with handles }

lemma createWith_eq {t : HandleTable} (hts : Ascending.validate ts = .ok ()) (hne : ts ≠ [])
    (ha : w.handles.allocate = .ok (h, t)) :
    createWith ts w = withdraw h (insert h ts { w with handles := t }) := by
  have hempty : ts.isEmpty = false := by simpa using hne
  simp only [createWith, createEntity, hts, ha, hempty, Bool.false_eq_true, if_false]
  rcases insert h ts { w with handles := t } with _ | ⟨e, _⟩
  · rfl
  · cases e <;> rfl

/-- Freeing the handle again does not hide a shortage. -/
lemma Agree.withdraw {x y : EStateM.Result Failure World Unit} (hxy : Agree x y)
    (hx : ∀ f w, x = .error (.refused f) w → ∃ t, w.handles.free h = .ok t)
    (hy : ∀ f v, y = .error (.refused f) v → ∃ t, v.handles.free h = .ok t) :
    Agree (World.withdraw h x) (World.withdraw h y) := by
  cases hxy with
  | ok hwv => exact .ok hwv
  | @error e w v hwv =>
    cases e with
    | aborted => exact .error hwv
    | refused f =>
      obtain ⟨t, hfree⟩ := hx f w rfl
      simp only [World.withdraw, hwv.handles ▸ hfree, hfree]
      exact .error ⟨hwv.registry, hwv.lifetimes, rfl, hwv.catalogue⟩
  | @short_left f w y hf =>
    obtain ⟨t, hfree⟩ := hx f w rfl
    simp only [World.withdraw, hfree]
    exact .short_left hf
  | @short_right f v x hf =>
    obtain ⟨t, hfree⟩ := hy f v rfl
    simp only [World.withdraw, hfree]
    exact .short_right hf

section Sound
variable (hw : w.Sound) (hv : v.Sound) (hwv : Alike w v)
include hw hv hwv

lemma agree_createWith : Agree (createWith ts w) (createWith ts v) := by
  cases hts : Ascending.validate ts with
  | error f =>
    simp only [createWith, hts]
    exact .error hwv
  | ok _ =>
    cases hv' : v.handles.allocate with
    | error f =>
      simp only [createWith, createEntity, hts, hwv.handles, hv']
      exact .error hwv
    | ok ht =>
      obtain ⟨h, t⟩ := ht
      have hw' : w.handles.allocate = .ok (h, t) := hwv.handles ▸ hv'
      have hnew : Alike { w with handles := t } { v with handles := t } :=
        ⟨hwv.registry, hwv.lifetimes, rfl, hwv.catalogue⟩
      by_cases hne : ts = []
      · subst hne
        simp only [createWith, createEntity, hts, hw', hv', List.isEmpty_nil, if_true]
        exact .ok hnew
      · have hfree : ∀ {u u' : World} {f : Fault}, u.handles.allocate = .ok (h, t) →
            insert h ts { u with handles := t } = .error (.refused f) u' →
            ∃ t', u'.handles.free h = .ok t' := by
          intro u u' f ha hi
          obtain ⟨hhandles, hfree⟩ := free_insert_refused ha hi
          rwa [hhandles]
        rw [createWith_eq hts hne hw', createWith_eq hts hne hv']
        have hstored := agree_insert (h := h) ((Transition.allocated hw').sound hw)
          ((Transition.allocated hv').sound hv) hne hnew
        exact hstored.withdraw (fun _ _ => hfree hw') (fun _ _ => hfree hv')

lemma agree_retype (g : List TypeCode → List TypeCode → List TypeCode) :
    Agree (retype g h ts w) (retype g h ts v) := by
  unfold retype
  rw [typesOf_of_alike hwv]
  cases Ascending.validate ts with
  | error f => exact .error hwv
  | ok _ =>
    cases v.typesOf h with
    | error f => exact .error hwv
    | ok current =>
      simp only []
      split_ifs
      · exact .ok hwv
      · exact agree_move hw hv hwv

lemma agree_destroy : Agree (destroy h w) (destroy h v) := by
  cases hl : v.handles.location h with
  | error f =>
    simp only [destroy, hwv.handles, hl]
    exact .error hwv
  | ok m =>
    cases m with
    | none =>
      simp only [destroy, hwv.handles, hl]
      exact agree_freeHandle hwv
    | some l =>
      rw [destroy_eq_andThen (hwv.handles ▸ hl), destroy_eq_andThen hl]
      exact (agree_vacate hw hv hwv).andThen fun _ w' v' _ _ hwv' => agree_freeHandle hwv'

lemma component_of_alike (t : TypeCode) : w.component h t = v.component h t := by
  unfold component
  rcases hwv.found h with ⟨f, hw', hv'⟩ | ⟨hw', hv'⟩ |
    ⟨l, hw', hv', ⟨a, b, ha, hb, hab⟩ | ⟨f, ha, hb⟩⟩
  · simp only [hw', hv']
  · simp only [hw', hv']
  · simp only [hw', hv', Catalogue.get_eq_ok.mpr ha, Catalogue.get_eq_ok.mpr hb,
      Archetype.indexOf_of_outline hab,
      Archetype.cell_of_outline hab (hw.catalogue.packed _ a ha) (hv.catalogue.packed _ b hb)]
  · simp only [hw', hv', ha, hb]

lemma agree_modifyComponent (t : TypeCode) (g : Value → Value) :
    Agree (modifyComponent h t g w) (modifyComponent h t g v) := by
  unfold modifyComponent
  split_ifs
  · exact .error hwv
  rcases hwv.found h with ⟨f, hw', hv'⟩ | ⟨hw', hv'⟩ |
    ⟨l, hw', hv', ⟨a, b, ha, hb, hab⟩ | ⟨f, ha, hb⟩⟩
  · simp only [hw', hv']
    exact .error hwv
  · simp only [hw', hv']
    exact .ok hwv
  · have hpa := hw.catalogue.packed _ a ha
    have hpb := hv.catalogue.packed _ b hb
    simp only [hw', hv', Catalogue.get_eq_ok.mpr ha, Catalogue.get_eq_ok.mpr hb,
      Archetype.indexOf_of_outline hab, Archetype.cell_of_outline hab hpa hpb]
    cases b.layout.indexOf t with
    | none => exact .ok hwv
    | some j =>
      simp only []
      cases b.cell j l.index with
      | error f => exact .error hwv
      | ok x =>
        rcases Archetype.modifyCell_of_outline hab hpa hpb j l.index g w.version v.version
          with ⟨a', b', ha', hb', hab'⟩ | ⟨f, ha', hb'⟩
        · simp only [ha', hb']
          exact .ok ⟨hwv.registry, hwv.lifetimes, hwv.handles, hwv.catalogue.set _ hab'⟩
        · simp only [ha', hb']
          exact .error hwv
  · simp only [hw', hv', ha, hb]
    exact .error hwv

lemma agree_exchange (k : Kind) (x : Value) : Agree (exchange h k x w) (exchange h k x v) := by
  cases ht : v.registry.lookup k .none with
  | none =>
    simp only [exchange, hwv.registry, ht, hwv.handles]
    cases v.handles.location h with
    | error f => exact .error hwv
    | ok m => exact .ok hwv
  | some t =>
    rw [exchange_eq_andThen (hwv.registry ▸ ht), exchange_eq_andThen ht]
    refine (agree_modifyComponent hw hv hwv t _).andThen fun old w' v' _ _ hwv' => ?_
    cases old with
    | none => exact .ok hwv'
    | some y => exact .ok ⟨hwv'.registry, by simp [hwv'.lifetimes], hwv'.handles, hwv'.catalogue⟩

lemma agree_assign (k : Kind) (x : Value) : Agree (assign h k x w) (assign h k x v) := by
  cases ht : v.registry.register k .none with
  | error f =>
    simp only [assign, hwv.registry, ht]
    exact .error hwv
  | ok tr =>
    obtain ⟨t, registry⟩ := tr
    have ht' : w.registry.register k .none = .ok (t, registry) := hwv.registry ▸ ht
    have hw' := (Transition.registered ht').sound hw
    have hv' := (Transition.registered ht).sound hv
    rw [assign_eq_andThen ht', assign_eq_andThen ht]
    refine Agree.andThen (agree_retype hw' hv'
      ⟨rfl, hwv.lifetimes, hwv.handles, hwv.catalogue⟩ _) fun _ w'' v'' hw'' hv'' hwv'' => ?_
    have hws := (retyped hw' Ascending.union h [t]).transitions.sound hw'
    have hvs := (retyped hv' Ascending.union h [t]).transitions.sound hv'
    unfold addComponents at hw'' hv''
    rw [hw''] at hws
    rw [hv''] at hvs
    refine (agree_exchange hws hvs hwv'' k x).andThen fun old _ _ _ _ hstored => ?_
    cases old with
    | none => exact .error hstored
    | some y => exact .ok hstored

lemma agree_put (k : Kind) (u : Value) : Agree (put h k u w) (put h k u v) := by
  unfold put
  have hassign := agree_assign (h := h) hw hv hwv k u
  generalize assign h k u w = x at hassign ⊢
  generalize assign h k u v = y at hassign ⊢
  cases hassign with
  | ok hwv => exact .ok hwv
  | error hwv => exact .error ⟨hwv.registry, by simp [hwv.lifetimes], hwv.handles, hwv.catalogue⟩
  | short_left hf => exact .short_left hf
  | short_right hf => exact .short_right hf

end Sound

lemma archetypeOf_of_alike (hwv : Alike w v) : w.archetypeOf h = v.archetypeOf h := by
  rw [archetypeOf, archetypeOf, hwv.handles]

lemma hasComponent_of_alike (hwv : Alike w v) (t : TypeCode) :
    w.hasComponent h t = v.hasComponent h t := by
  unfold hasComponent
  rcases hwv.found h with ⟨f, hw, hv⟩ | ⟨hw, hv⟩ |
    ⟨l, hw, hv, ⟨a, b, ha, hb, hab⟩ | ⟨f, ha, hb⟩⟩
  · simp only [hw, hv]
  · simp only [hw, hv]
  · simp only [hw, hv, Catalogue.get_eq_ok.mpr ha, Catalogue.get_eq_ok.mpr hb, Except.map,
      Archetype.has_of_outline hab]
  · simp only [hw, hv, ha, hb]

lemma hasComponents_of_alike (hwv : Alike w v) : w.hasComponents h ts = v.hasComponents h ts := by
  unfold hasComponents
  rcases hwv.found h with ⟨f, hw, hv⟩ | ⟨hw, hv⟩ |
    ⟨l, hw, hv, ⟨a, b, ha, hb, hab⟩ | ⟨f, ha, hb⟩⟩
  · simp only [hw, hv]
  · simp only [hw, hv]
  · simp only [hw, hv, Catalogue.get_eq_ok.mpr ha, Catalogue.get_eq_ok.mpr hb, Except.map,
      Archetype.hasAll, Archetype.codes_of_outline hab]
  · simp only [hw, hv, ha, hb]

lemma matching_of_alike (hwv : Alike w v) (all none : List TypeCode) :
    (w.matching all none).map (List.map Archetype.outline) =
      (v.matching all none).map (List.map Archetype.outline) := by
  unfold matching
  cases Ascending.validate all with
  | error f => rfl
  | ok _ =>
    cases Ascending.validate none with
    | error f => rfl
    | ok _ =>
      have hread : ∀ l : List Archetype,
          (l.filter fun a => a.hasAll all && a.lacksAll none).map Archetype.outline =
            (l.map Archetype.outline).filter fun o => o.matching all none := by
        intro l
        rw [List.filter_map]
        exact congrArg _ (List.filter_congr fun a _ => (a.matching_outline all none).symm)
      simp only [Except.map, hread, hwv.catalogue.archetypes_eq]

lemma get_of_alike (hw : w.Sound) (hv : v.Sound) (hwv : Alike w v) (k : Kind) :
    w.get h k = v.get h k := by
  unfold get
  rw [hwv.registry, hwv.handles]
  cases v.registry.lookup k .none with
  | none => rfl
  | some t => exact component_of_alike hw hv hwv t

variable {α β : Type} {s s' : Step α}

lemma Agree.map (g : α → β) (hs : Agree (s w) (s' v)) : Agree ((g <$> s) w) ((g <$> s') v) := by
  have hstep : ∀ (s : Step α) (u : World),
      (g <$> s) u = World.andThen (s u) fun a u => .ok (g a) u := by
    intro s u
    rw [Step.map_apply]
    unfold World.andThen
    cases s u <;> rfl
  rw [hstep, hstep]
  exact hs.andThen fun _ _ _ _ _ hwv => .ok hwv

lemma Agree.answering (b : β) (hs : Agree (s w) (s' v)) :
    Agree (Step.answering b s w) (Step.answering b s' v) := by
  have hstep : ∀ (s : Step α) (u : World),
      Step.answering b s u = World.andThen (s u) fun _ u => .ok b u := by
    intro s u
    unfold Step.answering World.andThen
    cases s u <;> rfl
  rw [hstep, hstep]
  exact hs.andThen fun _ _ _ _ _ hwv => .ok hwv

end World

open World

section
variable {w v : World} (hw : w.Sound) (hv : v.Sound) (hwv : Alike w v)
include hw hv hwv

theorem Operation.agree_call (op : Operation) : Agree (op.call w) (op.call v) := by
  cases op with
  | create => exact (agree_createEntity hwv).map some
  | createWith ts => exact (agree_createWith hw hv hwv).map some
  | add h ts => exact Agree.answering none (agree_retype hw hv hwv Ascending.union)
  | remove h ts => exact Agree.answering none (agree_retype hw hv hwv Ascending.difference)
  | put h k u => exact Agree.answering none (agree_put hw hv hwv k u)
  | destroy h => exact Agree.answering none (agree_destroy hw hv hwv)

theorem Command.agree_run (c : Command) (made : List Handle) :
    Agree (c.run made w) (c.run made v) := by
  cases ho : c.operation made with
  | error f =>
    rw [run_unresolved ho, run_unresolved ho]
    exact .error ⟨hwv.registry, by rw [hwv.lifetimes], hwv.handles, hwv.catalogue⟩
  | ok op =>
    rw [run_call ho, run_call ho]
    exact (op.agree_call hw hv hwv).map _

/-- A script comes to the same on both, command by command. -/
theorem Script.agree_runAll (cs : List Command) (made : List Handle) :
    Agree (runAll cs made w) (runAll cs made v) := by
  induction cs generalizing w v made with
  | nil => exact .ok hwv
  | cons c cs ih =>
    have hws := c.transitions hw made
    have hvs := c.transitions hv made
    have hc := c.agree_run hw hv hwv made
    simp only [runAll]
    generalize c.run made w = x at hws hc ⊢
    generalize c.run made v = y at hvs hc ⊢
    cases hc with
    | ok hnext => exact ih (hws.sound hw) (hvs.sound hv) hnext _
    | error hnext =>
      exact .error ⟨hnext.registry, by rw [hnext.lifetimes], hnext.handles, hnext.catalogue⟩
    | short_left hf => exact .short_left hf
    | short_right hf => exact .short_right hf

end

end EntityStore
