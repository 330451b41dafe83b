import Mathlib
import EntityStore.Proofs.Registry

/-!
# Every registration has a number of its own

Requests to register kinds are served one after the other, and each is logged with its answer. What
a registry knows is read off from its log, and the code it gave out once is given again: the code
says where the registration stands, under which marks, and whether its values have a size. A request
that is refused leaves no trace.
-/
namespace EntityStore

namespace TypeCode

lemma zeroSized_ofParts {i : Nat} (hi : i < indexLimit) (m : Markers) (z : Bool) :
    (ofParts i m z).zeroSized = z := by
  unfold indexLimit at hi
  obtain ⟨p, d⟩ := m
  cases p <;> cases d <;> cases z <;> simp [zeroSized, ofParts, Markers.bits] <;> omega

/-- A code is a word, in whose upper half are those of types without a size. -/
lemma raw_ofParts {i : Nat} (hi : i < indexLimit) (m : Markers) (z : Bool) :
    (ofParts i m z).raw < 2 ^ 32 ∧ (z = true ↔ 2 ^ 31 ≤ (ofParts i m z).raw) := by
  unfold indexLimit at hi
  obtain ⟨p, d⟩ := m
  cases p <;> cases d <;> cases z <;> simp [ofParts, Markers.bits] <;> omega

lemma entity_le (t : TypeCode) : .entity ≤ t := Nat.zero_le _

end TypeCode

namespace Registry

abbrev Log := List ((Kind × Markers) × Except Fault TypeCode)

def Log.accepted (log : Log) : Log := log.filter fun e => e.2.isOk

def serve (r : Registry) (q : Kind × Markers) : Except Fault TypeCode × Registry :=
  match r.register q.1 q.2 with
  | .ok (t, r) => (.ok t, r)
  | .error f => (.error f, r)

def serveAll (r : Registry) (qs : List (Kind × Markers)) : Log × Registry :=
  qs.foldl (fun (log, r) q => (log ++ [(q, (r.serve q).1)], (r.serve q).2)) ([], r)

variable {r r' : Registry} {k k' : Kind} {m m' : Markers} {t t' : TypeCode} {e : Registration}
  {qs : List (Kind × Markers)} {q : Kind × Markers} {f : Fault}

lemma serve_of_register (h : r.register k m = .ok (t, r')) : r.serve (k, m) = (.ok t, r') := by
  rw [serve, h]

lemma serve_of_error (h : r.register k m = .error f) : r.serve (k, m) = (.error f, r) := by
  rw [serve, h]

/-- What is known after a request was known before, unless it was asked for and granted. -/
lemma serve_spec (h : r.Valid) (q : Kind × Markers) : (r.serve q).2.Valid ∧
    (r.serve q).2.maxTypes = r.maxTypes ∧
    ∀ k m t, (r.serve q).2.lookup k m = some t ↔
      r.lookup k m = some t ∨ ((k, m), .ok t) = (q, (r.serve q).1) := by
  obtain ⟨k', m'⟩ := q
  cases hr : r.register k' m' with
  | error f =>
    rw [serve_of_error hr]
    exact ⟨h, rfl, by simp⟩
  | ok x =>
    obtain ⟨t', r'⟩ := x
    rw [serve_of_register hr]
    refine ⟨(register_spec h hr).1, ?_⟩
    simp only [Prod.mk.injEq, Except.ok.injEq]
    rcases register_eq_ok.mp hr with ⟨hl, rfl⟩ | ⟨hl, -, -, -, rfl, rfl⟩
    · refine ⟨rfl, fun k m t => (or_iff_left_of_imp ?_).symm⟩
      rintro ⟨⟨rfl, rfl⟩, rfl⟩
      exact hl
    · refine ⟨rfl, fun k m t => ?_⟩
      simp only [lookup_push, Prod.mk.injEq]
      by_cases hkm : k = k' ∧ m = m'
      · obtain ⟨rfl, rfl⟩ := hkm
        simp [hl, eq_comm]
      · simp [hkm]

lemma serveAll_concat (r : Registry) (qs : List (Kind × Markers)) (q : Kind × Markers) :
    r.serveAll (qs ++ [q]) =
      ((r.serveAll qs).1 ++ [(q, ((r.serveAll qs).2.serve q).1)],
        ((r.serveAll qs).2.serve q).2) := by
  rw [serveAll, List.foldl_append]
  rfl

lemma serveAll_spec (h : r.Valid) (qs : List (Kind × Markers)) : (r.serveAll qs).2.Valid ∧
    (r.serveAll qs).2.maxTypes = r.maxTypes ∧
    ∀ k m t, (r.serveAll qs).2.lookup k m = some t ↔
      r.lookup k m = some t ∨ ((k, m), .ok t) ∈ (r.serveAll qs).1 := by
  induction qs using List.reverseRecOn with
  | nil => exact ⟨h, rfl, by simp [serveAll]⟩
  | append_singleton qs q ih =>
    obtain ⟨hvalid, hmax, hknown⟩ := ih
    obtain ⟨hvalid', hmax', hknown'⟩ := serve_spec hvalid q
    rw [serveAll_concat]
    refine ⟨hvalid', hmax'.trans hmax, fun k m t => ?_⟩
    rw [hknown', hknown, List.mem_append, List.mem_singleton, or_assoc]

/-- The same comes about if what is refused is not asked for. -/
lemma serveAll_accepted (r : Registry) (qs : List (Kind × Markers)) :
    r.serveAll ((r.serveAll qs).1.accepted.map Prod.fst) =
      ((r.serveAll qs).1.accepted, (r.serveAll qs).2) := by
  induction qs using List.reverseRecOn with
  | nil => rfl
  | append_singleton qs q ih =>
    rw [serveAll_concat]
    simp only [Log.accepted, List.filter_append, List.map_append] at ih ⊢
    cases hr : (r.serveAll qs).2.register q.1 q.2 with
    | error f => simpa [serve_of_error hr, Except.isOk, Except.toBool] using ih
    | ok x =>
      have hkept : List.filter (fun e => e.2.isOk) [(q, (Except.ok x.1 : Except Fault TypeCode))] =
        [(q, .ok x.1)] := rfl
      rw [serve_of_register hr, hkept, List.map_singleton, serveAll_concat, ih,
        serve_of_register hr]

lemma requests_serveAll (r : Registry) (qs : List (Kind × Markers)) :
    (r.serveAll qs).1.map Prod.fst = qs := by
  induction qs using List.reverseRecOn with
  | nil => rfl
  | append_singleton qs q ih => rw [serveAll_concat, List.map_append, ih, List.map_singleton]

lemma index_of_lookup (h : r.Valid) (hl : r.lookup k m = some t) :
    r.entries[t.index]? = some ⟨t, k⟩ :=
  (registration_eq_ok.mp ((lookup_eq_some h).mp hl).2).1

/-- A code is made of the number, the marks and the size of what it stands for. -/
lemma parts_of_lookup (h : r.Valid) (hl : r.lookup k m = some t) :
    t.markers = m ∧ t.zeroSized = decide (k.size = 0) ∧
      t.raw < 2 ^ 32 ∧ (t.zeroSized = true ↔ 2 ^ 31 ≤ t.raw) := by
  have hentry := index_of_lookup h hl
  have hindex := h.index_lt hentry
  have hcode : t = .ofParts t.index t.markers (k.size = 0) := h.coded _ _ hentry
  have hzero : t.zeroSized = decide (k.size = 0) :=
    (congrArg TypeCode.zeroSized hcode).trans (TypeCode.zeroSized_ofParts hindex _ _)
  obtain ⟨hword, hhalf⟩ := TypeCode.raw_ofParts hindex t.markers (k.size = 0)
  rw [← hcode] at hword hhalf
  exact ⟨((lookup_eq_some h).mp hl).1, hzero, hword, by rw [hzero, hhalf]⟩

lemma index_injective (h : r.Valid) (hl : r.lookup k m = some t) (hl' : r.lookup k' m' = some t')
    (hi : t.index = t'.index) : (k, m) = (k', m') := by
  have hentry := index_of_lookup h hl
  rw [hi, index_of_lookup h hl', Option.some_inj, Registration.mk.injEq] at hentry
  obtain ⟨rfl, rfl⟩ := hentry
  rw [← (parts_of_lookup h hl).1, ← (parts_of_lookup h hl').1]

lemma registration_iff_lookup (h : r.Valid) :
    r.registration t = .ok e ↔ e.code = t ∧ r.lookup e.kind t.markers = some t := by
  constructor
  · intro he
    obtain rfl := code_of_registration he
    exact ⟨rfl, (lookup_eq_some h).mpr ⟨rfl, he⟩⟩
  · rintro ⟨rfl, hl⟩
    exact ((lookup_eq_some h).mp hl).2

lemma exists_registration_iff (h : r.Valid) :
    (∃ e, r.registration t = .ok e) ↔ ∃ k m, r.lookup k m = some t := by
  constructor
  · rintro ⟨e, he⟩
    exact ⟨_, _, ((registration_iff_lookup h).mp he).2⟩
  · rintro ⟨k, m, hl⟩
    exact ⟨_, ((lookup_eq_some h).mp hl).2⟩

lemma lt_of_zeroSized (h : r.Valid) (hl : r.lookup k m = some t) (hl' : r.lookup k' m' = some t')
    (hsized : t.zeroSized = false) (hzero : t'.zeroSized = true) : t < t' := by
  obtain ⟨-, -, -, hlow⟩ := parts_of_lookup h hl
  obtain ⟨-, -, -, hhigh⟩ := parts_of_lookup h hl'
  rw [hsized] at hlow
  have hbelow := mt hlow.mpr Bool.false_ne_true
  have habove := hhigh.mp hzero
  rw [TypeCode.lt_def]
  omega

lemma register_known (hl : r.lookup k m = some t) : r.register k m = .ok (t, r) :=
  register_eq_ok.mpr (.inl ⟨hl, rfl⟩)

lemma register_fresh (h : r.Valid) (hl : r.lookup k m = none)
    (hr : r.register k m = .ok (t, r')) : t.index = r.size ∧ r'.size = r.size + 1 := by
  rcases register_eq_ok.mp hr with ⟨hknown, -⟩ | ⟨-, -, -, hroom, rfl, rfl⟩
  · rw [hl] at hknown
    cases hknown
  · exact ⟨TypeCode.index_ofParts (hroom.trans_le h.limit) _ _, Array.size_push _⟩

lemma lookup_new (name : String) (maxTypes : Nat) : (new name maxTypes).lookup k m = some t ↔
    (k, m) = (.handle name, .none) ∧ t = .entity := by
  rw [lookup, new, lookup_memo_cons]
  split_ifs with hkm <;> simp [hkm, eq_comm]

/-- Whatever is asked of a new registry, granted or refused, the pairs that it knows are those that
were granted and the handle column, each under one code. Codes of different pairs have different
numbers; number, marks and size are read back from the code, and the registration found under it is
the one it was given out for. A pair that is known is found again, also if the registry is full; any
other gets the next number. Requests that are refused might as well not have been made. Codes are
ordered with the handle column first and the types without a size last. -/
theorem gives_out_each_code_once (name : String) (maxTypes : Nat) (qs : List (Kind × Markers))
    (log : Log) (r : Registry) (hrun : (new name maxTypes).serveAll qs = (log, r)) :
    log.map Prod.fst = qs ∧
    (∀ k m t, r.lookup k m = some t ↔
      (k, m) = (.handle name, .none) ∧ t = .entity ∨ ((k, m), .ok t) ∈ log) ∧
    (∀ k m t k' m' t', r.lookup k m = some t → r.lookup k' m' = some t' → (k, m) ≠ (k', m') →
      t ≠ t' ∧ t.index ≠ t'.index) ∧
    (∀ k m t, r.lookup k m = some t → r.entries[t.index]? = some ⟨t, k⟩ ∧ t.markers = m ∧
      t.zeroSized = decide (k.size = 0) ∧ t.raw < 2 ^ 32) ∧
    (∀ t e, r.registration t = .ok e ↔ e.code = t ∧ r.lookup e.kind t.markers = some t) ∧
    (∀ t, (∃ e, r.registration t = .ok e) ↔ t = .entity ∨ ∃ q, (q, .ok t) ∈ log) ∧
    (1 ≤ r.size ∧ r.size ≤ max 1 (min maxTypes 8192)) ∧
    (∀ k m t, r.lookup k m = some t → r.register k m = .ok (t, r)) ∧
    (∀ k m t r', r.lookup k m = none → r.register k m = .ok (t, r') →
      t.index = r.size ∧ r'.size = r.size + 1) ∧
    (new name maxTypes).serveAll (log.accepted.map Prod.fst) = (log.accepted, r) ∧
    (∀ t, TypeCode.entity ≤ t) ∧
    (∀ k m t k' m' t', r.lookup k m = some t → r.lookup k' m' = some t' → t.zeroSized = false →
      t'.zeroSized = true → t < t') := by
  obtain ⟨h, hmax, hknown⟩ := serveAll_spec (valid_new name maxTypes) qs
  have hrequests := requests_serveAll (new name maxTypes) qs
  have haccepted := serveAll_accepted (new name maxTypes) qs
  simp only [hrun, lookup_new] at h hmax hknown hrequests haccepted
  refine ⟨hrequests, hknown, ?_, ?_, fun t e => registration_iff_lookup h, ?_, ⟨?_, ?_⟩,
    fun k m t => register_known, fun k m t r' => register_fresh h, haccepted, TypeCode.entity_le,
    fun k m t k' m' t' => lt_of_zeroSized h⟩
  · intro k m t k' m' t' hl hl' hne
    have hindex : t.index ≠ t'.index := fun hi => hne (index_injective h hl hl' hi)
    exact ⟨fun ht => hindex (by rw [ht]), hindex⟩
  · intro k m t hl
    obtain ⟨hmarkers, hzero, hword, -⟩ := parts_of_lookup h hl
    exact ⟨index_of_lookup h hl, hmarkers, hzero, hword⟩
  · intro t
    simp only [exists_registration_iff h, hknown]
    constructor
    · rintro ⟨k, m, ⟨-, rfl⟩ | hgranted⟩
      · exact .inl rfl
      · exact .inr ⟨_, hgranted⟩
    · rintro (rfl | ⟨⟨k, m⟩, hgranted⟩)
      · exact ⟨_, _, .inl ⟨rfl, rfl⟩⟩
      · exact ⟨k, m, .inr hgranted⟩
  · obtain ⟨name, hname⟩ := h.first
    exact (Array.getElem?_eq_some_iff.mp hname).1
  · exact h.size.trans_eq hmax

/-- A tag, a kind that is aligned too strictly, a marked kind, and no room for the kind without the
mark. The tag is known all the same, and comes behind the marked kind. -/
theorem gives_out_each_code_once_full :
    let tag : Kind := { name := "Tag", size := 0, align := 1, initial := .bytes [] }
    let wide : Kind := { name := "Wide", size := 128, align := 128, initial := .bytes [] }
    let point : Kind := { name := "Point", size := 1, align := 1, initial := .bytes [0] }
    let prefab : Markers := { prefab := true }
    ∃ log r, (new "Entity" 3).serveAll
        [(tag, .none), (wide, .none), (point, prefab), (point, .none)] = (log, r) ∧
      log.map (fun e => e.2.isOk) = [true, false, true, false] ∧
      r.lookup tag .none = some ⟨0x80000001⟩ ∧ r.register tag .none = .ok (⟨0x80000001⟩, r) ∧
      r.registration ⟨0x20000002⟩ = .ok ⟨⟨0x20000002⟩, point⟩ ∧
      (new "Entity" 3).serveAll [(tag, .none), (point, prefab)] =
        ([((tag, .none), .ok ⟨0x80000001⟩), ((point, prefab), .ok ⟨0x20000002⟩)], r) ∧
      (⟨0x20000002⟩ : TypeCode) < ⟨0x80000001⟩ := by
  intro tag wide point prefab
  obtain ⟨log, r, hrun⟩ : ∃ log r, (new "Entity" 3).serveAll
      [(tag, .none), (wide, .none), (point, prefab), (point, .none)] = (log, r) := ⟨_, _, rfl⟩
  have hlog : _ = log := congrArg Prod.fst hrun
  have hgranted : log.map (fun e => e.2.isOk) = [true, false, true, false] := by
    rw [← hlog]
    decide +kernel
  have hkept : log.accepted =
      [((tag, .none), .ok ⟨0x80000001⟩), ((point, prefab), .ok ⟨0x20000002⟩)] := by
    rw [← hlog]
    decide +kernel
  obtain ⟨-, hknown, -, -, hregistration, -, -, hagain, -, haccepted, -, hordered⟩ :=
    gives_out_each_code_once "Entity" 3 _ _ _ hrun
  have hlookup : ∀ k m t, ((k, m), Except.ok t) ∈ log.accepted → r.lookup k m = some t :=
    fun k m t hmem => (hknown k m t).mpr (.inr (List.mem_of_mem_filter hmem))
  rw [hkept] at haccepted hlookup
  have htag := hlookup tag .none ⟨0x80000001⟩ (by simp)
  have hpoint := hlookup point prefab ⟨0x20000002⟩ (by simp)
  exact ⟨log, r, hrun, hgranted, htag, hagain _ _ _ htag, (hregistration _ _).mpr ⟨rfl, hpoint⟩,
    haccepted, hordered _ _ _ _ _ _ hpoint htag (by decide) (by decide)⟩

end Registry

end EntityStore
