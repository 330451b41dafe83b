import Mathlib
import EntityStore.Proofs.DenseRows
import EntityStore.Proofs.InternalFaults

/-!
# When an entity can have given types

Types are acceptable if they are registered, not too many, and small enough for two entities to
share a chunk. Every archetype in use was accepted once, so that an entity more can only be refused
there for want of room. `Objection` lists all that can be said against an entity of given types, in
the order in which it is said.
-/
namespace EntityStore

namespace Registry
variable {r : Registry} {t : TypeCode} {ts : List TypeCode} {cs : List Registration} {f : Fault}

def Knows (r : Registry) (t : TypeCode) : Prop := ∃ c, r.registration t = .ok c

def bytesOf (r : Registry) (t : TypeCode) : Nat :=
  (r.registration t).toOption.elim 0 fun c => c.kind.size

/-- The first of the types that is not registered is refused with the fault. -/
inductive FirstUnknown (r : Registry) : List TypeCode → Fault → Prop
  | here {t : TypeCode} {ts : List TypeCode} {f : Fault} (ht : r.registration t = .error f) :
      FirstUnknown r (t :: ts) f
  | there {t : TypeCode} {ts : List TypeCode} {f : Fault} (ht : r.Knows t)
      (hts : FirstUnknown r ts f) : FirstUnknown r (t :: ts) f

lemma FirstUnknown.not_knows (h : r.FirstUnknown ts f) : ¬ ∀ t ∈ ts, r.Knows t := by
  induction h with
  | here ht =>
    intro hall
    obtain ⟨c, hc⟩ := hall _ List.mem_cons_self
    rw [ht] at hc
    cases hc
  | there _ _ ih => exact fun hall => ih fun t ht => hall t (List.mem_cons_of_mem _ ht)

lemma registrations_eq_error : r.registrations ts = .error f ↔ r.FirstUnknown ts f := by
  induction ts generalizing f with
  | nil => exact iff_of_false nofun nofun
  | cons t ts ih =>
    rw [registrations]
    cases ht : r.registration t with
    | error g =>
      dsimp only
      constructor
      · rintro ⟨⟩
        exact .here ht
      · rintro (⟨hg⟩ | ⟨⟨c, hc⟩, -⟩)
        · rw [ht] at hg
          obtain rfl := Except.error.inj hg
          rfl
        · rw [ht] at hc
          cases hc
    | ok c =>
      dsimp only
      constructor
      · exact fun h => .there ⟨c, ht⟩ (ih.mp (error_of_map h))
      · rintro (⟨hg⟩ | ⟨-, hts⟩)
        · rw [ht] at hg
          cases hg
        · simp only [ih.mpr hts, Except.map]

lemma exists_registrations : (∃ cs, r.registrations ts = .ok cs) ↔ ∀ t ∈ ts, r.Knows t := by
  simp only [registrations_eq_ok]
  induction ts with
  | nil => simp
  | cons t ts ih =>
    rw [List.forall_mem_cons, ← ih]
    simp only [List.forall₂_cons_left_iff, Knows]
    constructor
    · rintro ⟨_, c, cs, hc, hcs, -⟩
      exact ⟨⟨c, hc⟩, cs, hcs⟩
    · rintro ⟨⟨c, hc⟩, cs, hcs⟩
      exact ⟨_, c, cs, hc, hcs, rfl⟩

lemma bytes_of_registrations (h : r.registrations ts = .ok cs) :
    cs.map (fun c => c.kind.size) = ts.map r.bytesOf := by
  induction registrations_eq_ok.mp h with
  | nil => rfl
  | cons hc hrest ih =>
    rw [List.map_cons, List.map_cons, ih (registrations_eq_ok.mpr hrest), bytesOf, hc]
    rfl

end Registry

namespace Layout
variable {sizes sizes' : List Nat} {columns : List Registration} {buffer n : Nat}

lemma exists_new (htotal : 0 < total (columns.map fun c => c.kind.size)) :
    (∃ l, Layout.new columns buffer = .ok l) ↔
      roomFor (columns.map fun c => c.kind.size) buffer 2 = true := by
  have hfit := le_fit_div_iff htotal buffer
  constructor
  · rintro ⟨l, hl⟩
    obtain ⟨-, hcap, hall⟩ := new_spec.mp hl
    exact (hall 2).mp hcap
  · exact fun htwo => ⟨⟨columns, _⟩, new_spec.mpr ⟨rfl, (hfit 2).mpr htwo, hfit⟩⟩

lemma required_sublist (h : sizes'.Sublist sizes) (n : Nat) :
    required sizes' n ≤ required sizes n := by
  induction h with
  | slnil => exact le_rfl
  | cons size _ ih => exact ih.trans (Nat.le_add_left _ _)
  | cons_cons size _ ih => exact Nat.add_le_add_left ih _

lemma roomFor_sublist (hroom : roomFor sizes buffer n = true) (h : sizes'.Sublist sizes) :
    roomFor sizes' buffer n = true := by
  have hle := required_sublist h n
  rw [roomFor_iff_required] at hroom ⊢
  exact ⟨hle.trans_lt hroom.1, hle.trans hroom.2⟩

end Layout

namespace World
variable {w v w' : World} {h : Handle} {id : Nat} {ts us current : List TypeCode}
  {a b : Archetype} {f g : Fault}

/-- There can be an archetype for the types. Handles take eight bytes. -/
structure Acceptable (w : World) (ts : List TypeCode) : Prop where
  known : ∀ t ∈ ts, w.registry.Knows t
  types : ts.length + 1 ≤ w.settings.maxTypes
  bytes : Layout.roomFor (8 :: ts.map w.registry.bytesOf) w.settings.bufferSize 2 = true

/-- Why there can be no archetype for the types: the first of the conditions that is not met. -/
inductive Unacceptable (w : World) (ts : List TypeCode) : Fault → Prop
  | unknown {f : Fault} (hf : w.registry.FirstUnknown ts f) : Unacceptable w ts f
  | types (hk : ∀ t ∈ ts, w.registry.Knows t) (ht : w.settings.maxTypes < ts.length + 1) :
      Unacceptable w ts (.capacityExceeded .archetypeTypes w.settings.maxTypes)
  | bytes (hk : ∀ t ∈ ts, w.registry.Knows t) (ht : ts.length + 1 ≤ w.settings.maxTypes)
      (hb : Layout.roomFor (8 :: ts.map w.registry.bytesOf) w.settings.bufferSize 2 = false) :
      Unacceptable w ts (.capacityExceeded .chunkBytes w.settings.bufferSize)

theorem Acceptable.sublist (ha : w.Acceptable ts) (h : us.Sublist ts) : w.Acceptable us where
  known t ht := ha.known t (h.subset ht)
  types := (Nat.add_le_add_right h.length_le 1).trans ha.types
  bytes := Layout.roomFor_sublist ha.bytes ((h.map _).cons_cons 8)

lemma Acceptable.subset (ha : w.Acceptable ts) (hts : Ascending.validate ts = .ok ())
    (hus : Ascending.validate us = .ok ()) (h : us ⊆ ts) : w.Acceptable us := by
  have hup := (Ascending.validate_eq_ok.mp hus).2
  have htp := (Ascending.validate_eq_ok.mp hts).2
  have hnodup : us.Nodup := hup.imp TypeCode.ne_of_lt
  exact ha.sublist (List.sublist_of_subperm_of_pairwise (List.subperm_of_subset hnodup h) hup htp)

lemma draft_eq (hr : w.registry.Valid) (hv : Ascending.validate ts = .ok ())
    {cs : List Registration} (hcs : w.registry.registrations ts = .ok cs) :
    ∃ name, w.draft ts =
      if w.settings.maxTypes < ts.length + 1 then
        .error (.capacityExceeded .archetypeTypes w.settings.maxTypes)
      else (Layout.new (⟨.entity, .handle name⟩ :: cs) w.settings.bufferSize).map fun layout =>
        { id := w.catalogue.nextId, layout, maxChunks := w.settings.maxChunks } := by
  obtain ⟨name, hentity⟩ := hr.entity
  have hcodes := Registry.codes_of_registrations hcs
  have hlength : cs.length = ts.length := by rw [← hcodes, List.length_map]
  refine ⟨name, ?_⟩
  simp [draft, Registry.registrations, hentity, hcs, Except.map, Archetype.new, hcodes, hv, hlength]

/-- There is a draft for acceptable types. For others there is none, for the first reason. -/
theorem draft_cases (hr : w.registry.Valid) (hv : Ascending.validate ts = .ok ()) :
    (w.Acceptable ts ∧ ∃ a, w.draft ts = .ok a) ∨
      ∃ f, w.Unacceptable ts f ∧ w.draft ts = .error f := by
  cases hcs : w.registry.registrations ts with
  | error f =>
    obtain ⟨name, hentity⟩ := hr.entity
    refine .inr ⟨f, .unknown (Registry.registrations_eq_error.mp hcs), ?_⟩
    simp [draft, Registry.registrations, hentity, hcs, Except.map]
  | ok cs =>
    obtain ⟨name, hdraft⟩ := draft_eq hr hv hcs
    have hknown := Registry.exists_registrations.mp ⟨cs, hcs⟩
    have hsizes : (⟨.entity, .handle name⟩ :: cs).map (fun c => c.kind.size) =
        8 :: ts.map w.registry.bytesOf := by
      rw [List.map_cons, Registry.bytes_of_registrations hcs]
      rfl
    have hlayout : (∃ l, Layout.new (⟨.entity, .handle name⟩ :: cs) w.settings.bufferSize = .ok l) ↔
        Layout.roomFor ((⟨.entity, .handle name⟩ :: cs).map fun c => c.kind.size)
          w.settings.bufferSize 2 = true :=
      Layout.exists_new (by rw [hsizes]; exact Nat.add_pos_left (by decide) _)
    rw [hsizes] at hlayout
    rw [hdraft]
    by_cases htypes : w.settings.maxTypes < ts.length + 1
    · exact .inr ⟨_, .types hknown htypes, if_pos htypes⟩
    · rw [if_neg htypes]
      cases hl : Layout.new (⟨.entity, .handle name⟩ :: cs) w.settings.bufferSize with
      | ok l => exact .inl ⟨⟨hknown, not_lt.mp htypes, hlayout.mp ⟨l, hl⟩⟩, _, rfl⟩
      | error f =>
        obtain rfl := Layout.new_eq_error hl
        refine .inr ⟨_, .bytes hknown (not_lt.mp htypes) ?_, rfl⟩
        rw [← Bool.not_eq_true, ← hlayout]
        rintro ⟨l, hok⟩
        rw [hl] at hok
        cases hok

lemma Unacceptable.not_acceptable (hf : w.Unacceptable ts f) : ¬ w.Acceptable ts := by
  rintro ⟨hknown, htypes, hbytes⟩
  cases hf with
  | unknown hf => exact hf.not_knows hknown
  | types hk ht => omega
  | bytes hk ht hb => simp [hb] at hbytes

lemma Unacceptable.unique (hf : w.Unacceptable ts f) (hg : w.Unacceptable ts g) : f = g := by
  cases hf with
  | unknown hf =>
    cases hg with
    | unknown hg =>
      rw [← Registry.registrations_eq_error] at hf hg
      exact Except.error.inj (hf.symm.trans hg)
    | types hk | bytes hk => exact absurd hk hf.not_knows
  | types hk ht =>
    cases hg with
    | unknown hg => exact absurd hk hg.not_knows
    | types => rfl
    | bytes hk' ht' => omega
  | bytes hk ht =>
    cases hg with
    | unknown hg => exact absurd hk hg.not_knows
    | types hk' ht' => omega
    | bytes => rfl

end World

lemma Archetype.new_eq_map (id : Nat) (columns : List Registration) (s : Settings) :
    Archetype.new id columns s = (Archetype.new 0 columns s).map ({ · with id }) := by
  cases columns with
  | nil => rfl
  | cons first rest =>
    simp only [Archetype.new]
    split_ifs
    · rfl
    · rfl
    · cases Ascending.validate (rest.map Registration.code) with
      | error f => rfl
      | ok _ => cases Layout.new (first :: rest) s.bufferSize <;> rfl

lemma Archetype.Drafted.acceptable {w : World} {a : Archetype} {id : Nat} (hr : w.registry.Valid)
    (ha : a.Drafted w.registry w.settings id) : w.Acceptable a.signature := by
  obtain ⟨columns, hcolumns, hnew⟩ := ha
  have hv : Ascending.validate a.signature = .ok () := (new_eq_ok hnew).2.2.1
  rcases World.draft_cases hr hv with ⟨haccept, -⟩ | ⟨f, -, hf⟩
  · exact haccept
  · -- the draft would be the same but for its number
    rw [Archetype.new_eq_map] at hnew
    simp only [World.draft, hcolumns] at hf
    rw [Archetype.new_eq_map] at hf
    rw [error_of_map hf] at hnew
    cases hnew

namespace Archetype
variable {a : Archetype} {n : Nat}

lemma Packed.count_le (h : a.Packed) : a.count ≤ a.capacity * a.chunks.length ∧
    (a.capacity ∣ a.count → a.count = a.capacity * a.chunks.length) := by
  rcases h.dense with hnil | ⟨init, c, hb, hpos⟩
  · simp [h.count_eq_zero hnil, hnil]
  · have hlast := hb.last
    have hcount : a.count = a.capacity * init.length + c.rows.length := by
      rw [h.counted, hb.length_rows, Nat.mul_comm]
    have hlength : a.chunks.length = init.length + 1 := by rw [hb.chunks, List.length_append]; rfl
    rw [hlength, hcount, Nat.mul_succ]
    refine ⟨Nat.add_le_add_left hlast _, fun hdvd => ?_⟩
    rw [Nat.dvd_add_right (Nat.dvd_mul_right _ _)] at hdvd
    rw [le_antisymm hlast (Nat.le_of_dvd hpos hdvd)]

/-- As many entities as `n` chunks hold are in the archetype if it has `n` chunks and the last one
is full. -/
lemma Packed.full_iff (h : a.Packed) (hn : a.chunks.length ≤ n) :
    a.capacity * n ≤ a.count ↔ a.capacity ∣ a.count ∧ n ≤ a.chunks.length := by
  obtain ⟨hle, heq⟩ := h.count_le
  constructor
  · intro hfull
    have hsame : a.chunks.length = n := by
      refine le_antisymm hn (Nat.le_of_mul_le_mul_left (hfull.trans hle) ?_)
      have := h.roomy
      omega
    rw [hsame] at hle
    exact ⟨⟨n, le_antisymm hle hfull⟩, hsame.ge⟩
  · rintro ⟨hdvd, hmax⟩
    rw [heq hdvd]
    exact Nat.mul_le_mul_left _ hmax

end Archetype

def Catalogue.Limited (c : Catalogue) : Prop :=
  ∀ id a, c.get? id = some a → a.chunks.length ≤ a.maxChunks

lemma Evolves.limited {v : UInt32} {x y : Catalogue × Pool} (h : Evolves v x y)
    (hx : x.1.Limited) : y.1.Limited := by
  cases h with
  | added ha hchunks hsig =>
    intro i b hb
    rw [(Catalogue.get_add ha).2, Function.update_apply] at hb
    split_ifs at hb with hi
    · rw [← Option.some.inj hb, hchunks]
      exact Nat.zero_le _
    · exact hx i b hb
  | reshaped ha hab =>
    intro i b hb
    rw [Catalogue.get_set ha, Function.update_apply] at hb
    split_ifs at hb with hi
    · rw [← Option.some.inj hb]
      exact hab.limited (hx _ _ ha)
    · exact hx i b hb
  | recycled p id he =>
    intro i b hb
    exact hx i b (Catalogue.get_of_recycle hb)
  | flushed c p => exact hx
  | supplied c p n => exact hx

/-- Whether memory is short or not, no archetype gets more chunks than it may have. -/
theorem Session.Strained.limited {s : Session} (hs : s.Strained) : s.world.catalogue.Limited :=
  hs.stored (P := fun x => x.1.Limited)
    (fun n hash _ _ _ id a ha => by simp [Catalogue.new, Catalogue.get?] at ha)
    fun _ _ _ h => h.limited

namespace World
variable {w v w' : World} {h : Handle} {id i : Nat} {ts current : List TypeCode} {a b : Archetype}
  {f g : Fault} {r : Option Failure}

/-- One more entity can have exactly the given types. -/
structure Admits (w : World) (ts : List TypeCode) : Prop extends Acceptable w ts where
  /-- The archetype of the types, if there is one, may have another entity. -/
  entities : ∀ id a, w.catalogue.get? id = some a → a.signature = ts →
    a.count < a.capacity * w.settings.maxChunks
  /-- If its last chunk is full or absent there is memory for another one. -/
  memory : (∀ id a, w.catalogue.get? id = some a → a.signature = ts → a.hasRoom = false) →
    ∃ q, w.pool.take = .ok q

/-- What stands first against one more entity of the given types. -/
inductive Objection (w : World) (ts : List TypeCode) : Fault → Prop
  | types {f : Fault} (hf : Unacceptable w ts f) : Objection w ts f
  | entities {id : Nat} {a : Archetype} (ht : Acceptable w ts)
      (ha : w.catalogue.get? id = some a) (hsig : a.signature = ts)
      (hfull : a.capacity * w.settings.maxChunks ≤ a.count) :
      Objection w ts (.capacityExceeded .archetypeChunks w.settings.maxChunks)
  | memory (ht : Acceptable w ts)
      (hcount : ∀ id a, w.catalogue.get? id = some a → a.signature = ts →
        a.count < a.capacity * w.settings.maxChunks)
      (hroom : ∀ id a, w.catalogue.get? id = some a → a.signature = ts → a.hasRoom = false)
      (hq : w.pool.take = .error (.allocationFailed w.pool.chunkSize)) :
      Objection w ts (.allocationFailed w.pool.chunkSize)

lemma Objection.not_admits (hf : w.Objection ts f) : ¬ w.Admits ts := by
  intro hadmits
  cases hf with
  | types hf => exact hf.not_acceptable hadmits.toAcceptable
  | entities ht ha hsig hfull => exact absurd (hadmits.entities _ _ ha hsig) (not_lt.mpr hfull)
  | memory ht hcount hroom hq =>
    obtain ⟨q, hok⟩ := hadmits.memory hroom
    rw [hq] at hok
    cases hok

lemma Objection.unique (hf : w.Objection ts f) (hg : w.Objection ts g) : f = g := by
  cases hf with
  | types hf =>
    cases hg with
    | types hg => exact hf.unique hg
    | entities ht | memory ht => exact absurd ht hf.not_acceptable
  | entities ht ha hsig hfull =>
    cases hg with
    | types hg => exact absurd ht hg.not_acceptable
    | entities => rfl
    | memory _ hcount => exact absurd (hcount _ _ ha hsig) (not_lt.mpr hfull)
  | memory ht hcount =>
    cases hg with
    | types hg => exact absurd ht hg.not_acceptable
    | entities _ ha hsig hfull => exact absurd (hcount _ _ ha hsig) (not_lt.mpr hfull)
    | memory => rfl

/-- The outcome of storing one more entity of the given types, unless it is cut short. -/
inductive Judged (w : World) (ts : List TypeCode) : Option Failure → Prop
  | admitted (ha : Admits w ts) : Judged w ts none
  | interrupted : Judged w ts (some .aborted)
  | refused {f : Fault} (hf : Objection w ts f) : Judged w ts (some (.refused f))

lemma Judged.none_iff (hj : w.Judged ts r) (hr : r ≠ some .aborted) : r = none ↔ w.Admits ts := by
  cases hj with
  | admitted ha => exact iff_of_true rfl ha
  | interrupted => exact absurd rfl hr
  | refused hf => exact iff_of_false nofun hf.not_admits

lemma Judged.refused_iff (hj : w.Judged ts r) (hr : r ≠ some .aborted) :
    r = some (.refused f) ↔ w.Objection ts f := by
  cases hj with
  | admitted ha => exact iff_of_false nofun fun hf => hf.not_admits ha
  | interrupted => exact absurd rfl hr
  | refused hg =>
    constructor
    · rintro ⟨⟩
      exact hg
    · exact fun hf => by rw [hg.unique hf]

lemma Opened.eq_of_signature (hs : w.Sound) (ho : Opened w v id a)
    (hb : w.catalogue.get? i = some b) (hsig : b.signature = a.signature) : b = a := by
  cases ho with
  | found ha =>
    obtain rfl := hs.catalogue.valid.unique hb ha hsig
    exact Option.some.inj (hb.symm.trans ha)
  | added ha =>
    obtain ⟨-, -, -, hnew, -⟩ := Catalogue.add_spec hs.catalogue.valid ha.add
    exact absurd hsig (hnew _ _ hb)

lemma Opened.drafted (hs : w.Sound) (ho : Opened w v id a) :
    a.Drafted w.registry w.settings id := by
  cases ho with
  | found ha => exact hs.catalogue.drafted _ _ ha
  | added ha => exact ha.drafted

lemma Opened.limited (hw : w.catalogue.Limited) (ho : Opened w v id a) :
    a.chunks.length ≤ a.maxChunks := by
  cases ho with
  | found ha => exact hw _ _ ha
  | added ha =>
    rw [ha.chunks]
    exact Nat.zero_le _

section
variable (hs : w.Sound) (hw : w.catalogue.Limited) (ho : Opened w v id a)
  (hsig : a.signature = ts)
include hs ho hsig

lemma Opened.acceptable : w.Acceptable ts := by
  rw [← hsig]
  exact (ho.drafted hs).acceptable hs.registry

include hw

lemma Opened.admits {q : Archetype × Pool} (hr : a.reserve v.pool v.version = .ok q) :
    w.Admits ts := by
  have hp := (ho.sound hs).catalogue.packed _ _ ho.get
  have hmax := (ho.drafted hs).maxChunks
  have hpool : v.pool = w.pool := by rw [ho.rest]
  refine ⟨ho.acceptable hs hsig, fun i b hb hsb => ?_, fun hroom => ?_⟩
  · obtain rfl := ho.eq_of_signature hs hb (hsb.trans hsig.symm)
    rw [← not_le, ← hmax, hp.full_iff (ho.limited hw)]
    rintro ⟨hdvd, hfull⟩
    rw [hp.reserve_error_iff.mpr ⟨hdvd, .inl ⟨hfull, rfl⟩⟩] at hr
    cases hr
  · have hfull : a.hasRoom = false := by
      cases ho with
      | found ha => exact hroom _ _ ha hsig
      | added ha => simp [Archetype.hasRoom, ha.chunks]
    rcases Archetype.reserve_eq_ok (b := q.1) (q := q.2) hr with ⟨htrue, -⟩ | ⟨-, -, htake, -⟩
    · rw [hfull] at htrue
      cases htrue
    · exact ⟨q.2, hpool ▸ htake⟩

lemma Opened.objection (hr : a.reserve v.pool v.version = .error f) : w.Objection ts f := by
  have hp := (ho.sound hs).catalogue.packed _ _ ho.get
  have hmax := (ho.drafted hs).maxChunks
  have hpool : v.pool = w.pool := by rw [ho.rest]
  obtain ⟨hdvd, ⟨hfull, rfl⟩ | ⟨hlt, htake⟩⟩ := hp.reserve_error_iff.mp hr
  · rw [hmax]
    have haccept := ho.acceptable hs hsig
    cases ho with
    | found ha =>
      refine .entities haccept ha hsig ?_
      rw [← hmax, hp.full_iff (hw _ _ ha)]
      exact ⟨hdvd, hfull⟩
    | added ha =>
      have hone := hs.chunks
      rw [ha.chunks, List.length_nil] at hfull
      omega
  · rw [hpool] at htake
    obtain ⟨-, -, rfl⟩ := Pool.take_eq_error htake
    refine .memory (ho.acceptable hs hsig) (fun i b hb hsb => ?_) (fun i b hb hsb => ?_) htake
    · obtain rfl := ho.eq_of_signature hs hb (hsb.trans hsig.symm)
      rw [← not_le, ← hmax, hp.full_iff (ho.limited hw)]
      exact fun hfull => absurd hfull.2 (not_le.mpr hlt)
    · obtain rfl := ho.eq_of_signature hs hb (hsb.trans hsig.symm)
      rw [← Bool.not_eq_true, hp.hasRoom_iff]
      exact fun hnot => hnot hdvd

end

section
variable (hw : w.Healthy) (hlim : w.catalogue.Limited) (hv : Ascending.validate ts = .ok ())
  (hne : ts ≠ [])
include hw hv hne

lemma resolve_cases : (∃ id v a, resolve ts w = .ok id v ∧ Opened w v id a ∧ a.signature = ts) ∨
    ∃ f, resolve ts w = .error (.refused f) w ∧ w.Unacceptable ts f := by
  cases hr : resolve ts w with
  | ok id v =>
    obtain ⟨a, ho, hsig⟩ := resolve_opened hw.sound hne hr
    exact .inl ⟨id, v, a, rfl, ho, hsig⟩
  | error e v =>
    obtain ⟨rfl, f, rfl⟩ := resolve_eq_error hr
    refine .inr ⟨f, rfl, ?_⟩
    unfold resolve at hr
    cases hf : v.catalogue.find? ts with
    | some id => simp [hf] at hr
    | none =>
      rcases draft_cases hw.sound.registry hv with ⟨-, a, hd⟩ | ⟨g, hg, hd⟩
      · obtain ⟨-, rfl, -⟩ := draft_eq_ok hd
        obtain ⟨c, hc⟩ := hw.add_ok hf
        simp [hf, hd, hc] at hr
      · simp only [hf, hd, EStateM.Result.error.injEq, Failure.refused.injEq] at hr
        obtain ⟨rfl, -⟩ := hr
        exact hg

include hlim

lemma judged_insert (hl : w.handles.location h = .ok none) :
    w.Judged ts (failure (insert h ts w)) := by
  unfold insert
  rcases resolve_cases hw hv hne with ⟨id, v, a, hr, ho, hsig⟩ | ⟨f, hr, hf⟩
  · rw [hr]
    rcases fill_cases (ho.sound hw.sound) ho.get (by rw [ho.handles, hl]) with
      ⟨f, hf, hfill⟩ | ⟨b, w', -, hfill⟩ | ⟨b, w', hx, hfill⟩
    all_goals simp only [hfill, failure]
    · exact .refused (ho.objection hw.sound hlim hsig hf)
    · exact .interrupted
    · obtain ⟨q, hq⟩ := hx.room
      exact .admitted (ho.admits hw.sound hlim hsig hq)
  · rw [hr]
    exact .refused (.types hf)

/-- An entity that is brought to other types is one more entity of these types. -/
theorem judged_move (hc : w.typesOf h = .ok current) (hdiff : ts ≠ current) :
    w.Judged ts (failure (move h ts w)) := by
  have hempty : ts.isEmpty = false := by simpa using hne
  unfold move
  cases hl : w.handles.location h with
  | error f => simp [typesOf, hl] at hc
  | ok m =>
    cases m with
    | none =>
      simp only [hempty, Bool.false_eq_true, if_false]
      exact judged_insert hw hlim hv hne hl
    | some l =>
      simp only [hempty, Bool.false_eq_true, if_false]
      rcases resolve_cases hw hv hne with ⟨id, v, b, hr, ho, hsig⟩ | ⟨f, hr, hf⟩
      · have hlv : v.handles.location h = .ok (some l) := by rw [ho.handles, hl]
        obtain ⟨a, r, ha, -⟩ := hw.sound.get hl
        have hcurrent : a.signature = current := by
          simpa [typesOf, hl, Catalogue.get_eq_ok.mpr ha, Except.map] using hc
        -- the entity would be in an archetype of the types it is to have
        have hid : id ≠ l.archetype := by
          intro hid
          obtain ⟨rfl, -⟩ := ho.eq_of_get (hid ▸ ha)
          exact hdiff (hsig.symm.trans hcurrent)
        rw [hr]
        simp only [hid, if_false]
        rcases transfer_cases (ho.sound hw.sound) hlv ho.get hid.symm with
          ⟨f, hf, hx⟩ | ⟨-, -, -, w', -, -, -, hx⟩ | ⟨_, _, _, _, _, w', hx', hx⟩
        all_goals rw [hx]
        · exact .refused (ho.objection hw.sound hlim hsig hf)
        · exact .interrupted
        · obtain ⟨q, -, ⟨c, hq, -⟩, -⟩ := hx'.exchanged
          exact .admitted (ho.admits hw.sound hlim hsig hq)
      · rw [hr]
        exact .refused (.types hf)

end

end World

end EntityStore
