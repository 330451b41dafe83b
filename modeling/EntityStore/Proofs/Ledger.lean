import Mathlib
import EntityStore.Proofs.Entry

/-!
# Owned values as a ledger

Owned values are counted with multiplicity, each with its kind: those that began and ended by the
record of lives, and those that a store holds. What a row gains and loses when it is fitted to other
columns is what is made and dropped on the way.
-/
namespace EntityStore

open Lifetimes

/-- The owned ones of some values, or of what is said about values. -/
def owned {α : Type} (vs : List (Kind × α)) : Multiset (Kind × α) :=
  ↑(vs.filter fun kv => kv.1.owned)

section Owned
variable {α β : Type} {vs ws : List (Kind × α)}

@[simp] lemma owned_nil : owned ([] : List (Kind × α)) = 0 := rfl

lemma owned_append (vs ws : List (Kind × α)) : owned (vs ++ ws) = owned vs + owned ws := by
  simp [owned]

lemma owned_cons (v : Kind × α) (vs : List (Kind × α)) :
    owned (v :: vs) = owned [v] + owned vs := owned_append [v] vs

lemma map_owned_singleton (f : α → β) (k : Kind) (v : α) :
    (owned [(k, v)]).map (Prod.map id f) = owned [(k, f v)] := by
  cases h : k.owned <;> simp [owned, h]

lemma owned_perm (h : vs.Perm ws) : owned vs = owned ws := Multiset.coe_eq_coe.mpr (h.filter _)

lemma owned_of_none (h : ∀ v ∈ vs, v.1.owned = false) : owned vs = 0 := by
  rw [owned, List.filter_eq_nil_iff.mpr (by simpa using h)]
  rfl

end Owned

/-- Values that callers hand over, and values that are changed where they stand, each with what it
was and what it contains afterwards. -/
abbrev Traffic := Multiset (Kind × Value) × Multiset (Kind × Value × Content)

namespace Traffic

/-- What comes in other than as a default. -/
def entering (x : Traffic) : Multiset (Kind × Value) :=
  x.1 + x.2.map (Prod.map id fun vc => vc.1.amend vc.2)

/-- What is gone without having been dropped. -/
def leaving (x : Traffic) : Multiset (Kind × Value) := x.2.map (Prod.map id Prod.fst)

@[simp] lemma entering_zero : entering 0 = 0 := by simp [entering]

@[simp] lemma leaving_zero : leaving 0 = 0 := by simp [leaving]

@[simp] lemma entering_add (x y : Traffic) : (x + y).entering = x.entering + y.entering := by
  simp only [entering, Prod.fst_add, Prod.snd_add, Multiset.map_add]
  abel

@[simp] lemma leaving_add (x y : Traffic) : (x + y).leaving = x.leaving + y.leaving := by
  simp [leaving]

end Traffic

namespace Event

def begun : Event → Multiset (Kind × Value)
  | made k v => {(k, v)}
  | dropped _ _ => 0

def ended : Event → Multiset (Kind × Value)
  | made _ _ => 0
  | dropped k v => {(k, v)}

end Event

/-- The values that began in a record. -/
def begun (es : List Event) : Multiset (Kind × Value) := (es.map Event.begun).sum

/-- The values that ended in a record. -/
def ended (es : List Event) : Multiset (Kind × Value) := (es.map Event.ended).sum

section Events
variable {es fs : List Event}

@[simp] lemma begun_nil : begun [] = 0 := rfl

@[simp] lemma ended_nil : ended [] = 0 := rfl

lemma begun_append (es fs : List Event) : begun (es ++ fs) = begun es + begun fs := by
  simp [begun]

lemma ended_append (es fs : List Event) : ended (es ++ fs) = ended es + ended fs := by
  simp [ended]

lemma begun_dropEvents (vs : List (Kind × Value)) : begun (dropEvents vs) = 0 := by
  unfold dropEvents
  induction vs.filter fun kv => kv.1.owned with
  | nil => rfl
  | cons v vs ih => simpa [begun, Event.begun] using ih

lemma ended_dropEvents (vs : List (Kind × Value)) : ended (dropEvents vs) = owned vs := by
  unfold dropEvents owned
  induction vs.filter fun kv => kv.1.owned with
  | nil => rfl
  | cons v vs ih =>
    rw [List.map_cons, ← Multiset.cons_coe, ← ih, ← Multiset.singleton_add]
    rfl

lemma begun_makeEvents (vs : List (Kind × Value)) : begun (makeEvents vs) = owned vs := by
  unfold makeEvents owned
  induction vs.filter fun kv => kv.1.owned with
  | nil => rfl
  | cons v vs ih =>
    rw [List.map_cons, ← Multiset.cons_coe, ← ih, ← Multiset.singleton_add]
    rfl

lemma ended_makeEvents (vs : List (Kind × Value)) : ended (makeEvents vs) = 0 := by
  unfold makeEvents
  induction vs.filter fun kv => kv.1.owned with
  | nil => rfl
  | cons v vs ih => simpa [ended, Event.ended] using ih

end Events

def contents (es : List (Registration × Value)) : List (Kind × Value) :=
  es.map fun e => (e.1.kind, e.2)

def stockOf (xs : Entries (List (Registration × Value))) : Multiset (Kind × Value) :=
  owned (xs.flatMap fun x => contents x.2)

lemma stockOf_append (xs ys : Entries (List (Registration × Value))) :
    stockOf (xs ++ ys) = stockOf xs + stockOf ys := by
  rw [stockOf, List.flatMap_append, owned_append, stockOf, stockOf]

lemma stockOf_cons (h : Handle) (es : List (Registration × Value))
    (xs : Entries (List (Registration × Value))) :
    stockOf ((h, es) :: xs) = owned (contents es) + stockOf xs := by
  rw [stockOf, List.flatMap_cons, owned_append, stockOf]

lemma stockOf_singleton (h : Handle) (es : List (Registration × Value)) :
    stockOf [(h, es)] = owned (contents es) := by
  rw [stockOf_cons]
  exact add_zero _

lemma stockOf_swapRemove {xs : Entries (List (Registration × Value))} {i : Nat} {h : Handle}
    {es : List (Registration × Value)} (hi : xs[i]? = some (h, es)) :
    stockOf (swapRemove xs i) + owned (contents es) = stockOf xs := by
  obtain ⟨hlt, hget⟩ := List.getElem?_eq_some_iff.mp hi
  have hperm := swapRemove_perm hlt
  rw [hget] at hperm
  have h1 : stockOf xs = stockOf ((h, es) :: swapRemove xs i) :=
    owned_perm (hperm.symm.flatMap_right _)
  rw [h1, stockOf_cons, add_comm]

/-- The owned values stored in an archetype. -/
def Archetype.stock (a : Archetype) : Multiset (Kind × Value) := stockOf a.entries

lemma Archetype.stock_of_isEmpty {a : Archetype} (hp : a.Packed) (h : a.isEmpty = true) :
    a.stock = 0 := by
  rw [stock, entries, hp.isEmpty.mp h]
  rfl

/-- The owned values stored in a store. -/
def World.stock (w : World) : Multiset (Kind × Value) := w.catalogue.total Archetype.stock

/-- A list of components that a registry knows, each type once. -/
structure Listed (r : Registry) (es : List (Registration × Value)) : Prop where
  known : ∀ e ∈ es, r.registration e.1.code = .ok e.1
  nodup : (es.map fun e => e.1.code).Nodup

section Fit
variable {r : Registry} {es : List (Registration × Value)} {cs : List Registration}
  {a b : Archetype} {s : Settings} {id : Nat} {row : Row}

lemma pick_eq_some (h : (es.map fun e => e.1.code).Nodup) {t : TypeCode} {v : Value} :
    pick es t = some v ↔ ∃ e ∈ es, e.1.code = t ∧ e.2 = v := by
  induction es with
  | nil => simp
  | cons e es ih =>
    rw [List.map_cons, List.nodup_cons] at h
    rw [pick_cons]
    split_ifs with he
    · simp only [Option.some.injEq, List.exists_mem_cons_iff, he, true_and]
      refine (or_iff_left ?_).symm
      rintro ⟨f, hf, hft, -⟩
      apply h.1
      rw [he, ← hft]
      exact List.mem_map_of_mem (f := fun e => e.1.code) hf
    · simp [ih h.2, he]

lemma codes_nodup (ha : a.Drafted r s id) : a.signature.Nodup :=
  ha.ascending.2.imp TypeCode.ne_of_lt

lemma listed_labelled (ha : a.Drafted r s id)
    (h : row.values.length + 1 = a.layout.columns.length) : Listed r (a.labelled row) := by
  obtain ⟨first, cs, hcols, -, hcs⟩ := ha.columns
  refine ⟨fun e he => ?_, by rw [Archetype.codes_labelled h]; exact codes_nodup ha⟩
  rw [Archetype.labelled, hcols, List.tail_cons] at he
  exact Registry.registration_of_mem hcs (List.of_mem_zip he).1

/-- What is carried over is what the columns have room for. -/
lemma carried_perm {cs : List Registration} (hes : Listed r es)
    (hcs : ∀ c ∈ cs, r.registration c.code = .ok c) (hnodup : (cs.map Registration.code).Nodup) :
    (cs.filterMap fun c => (pick es c.code).map fun v => (c, v)).Perm
      (es.filter fun e => e.1.code ∈ cs.map Registration.code) := by
  have hcs' : cs.Nodup := hnodup.of_map
  have hes' : es.Nodup := hes.nodup.of_map
  rw [List.perm_ext_iff_of_nodup ?_ (hes'.filter _)]
  · rintro ⟨c, v⟩
    simp only [List.mem_filterMap, Option.map_eq_some_iff, pick_eq_some hes.nodup, Prod.mk.injEq,
      List.mem_filter, decide_eq_true_eq]
    constructor
    · rintro ⟨d, hd, u, ⟨e, he, hcode, rfl⟩, rfl, rfl⟩
      have hreg := hes.known e he
      rw [hcode, hcs d hd] at hreg
      have hde : d = e.1 := Except.ok.inj hreg
      subst hde
      exact ⟨he, List.mem_map_of_mem hd⟩
    · rintro ⟨he, hc⟩
      obtain ⟨d, hd, hcode⟩ := List.mem_map.mp hc
      have hreg := hes.known _ he
      rw [← hcode, hcs d hd] at hreg
      have hdc : d = c := Except.ok.inj hreg
      subst hdc
      exact ⟨d, hd, v, ⟨_, he, rfl, rfl⟩, rfl, rfl⟩
  · refine hcs'.filterMap fun c c' x hx hx' => ?_
    obtain ⟨v, -, hv⟩ := Option.mem_map.mp hx
    obtain ⟨v', -, hv'⟩ := Option.mem_map.mp hx'
    exact congrArg Prod.fst (hv.trans hv'.symm)

/-- A fitted row holds what was carried over and the defaults of the rest. -/
lemma contents_fitted_perm (n : Nat) (es : List (Registration × Value)) (cs : List Registration) :
    (contents (fitted n es cs)).Perm
      (contents (cs.filterMap fun c => (pick es c.code).map fun v => (c, v)) ++
        defaults n (World.lacking es cs)) := by
  induction cs generalizing n with
  | nil => rfl
  | cons c cs ih =>
    cases hp : pick es c.code with
    | some v =>
      have h := (ih n).cons (c.kind, v)
      simpa [contents, fitted_cons_some hp, lacking_cons_some hp, hp] using h
    | none =>
      have hrest := ih (n + if c.kind.owned then 1 else 0)
      have h := (hrest.cons (c.kind, c.kind.default n)).trans List.perm_middle.symm
      simpa [contents, fitted_cons_none hp, lacking_cons_none hp, defaults, hp] using h

/-- Fitting a row to other columns makes the defaults that it lacks and gives up the rest. -/
theorem owned_fitted {cs : List Registration} (hes : Listed r es)
    (hcs : ∀ c ∈ cs, r.registration c.code = .ok c) (hnodup : (cs.map Registration.code).Nodup)
    (n : Nat) :
    owned (contents (fitted n es cs)) +
      owned (contents (es.filter fun e => !decide (e.1.code ∈ cs.map Registration.code))) =
      owned (contents es) + owned (defaults n (World.lacking es cs)) := by
  have hsplit := (List.filter_append_perm (fun e => decide (e.1.code ∈ cs.map Registration.code))
    es).map fun e => (e.1.kind, e.2)
  have hcarried := (carried_perm hes hcs hnodup).map fun e => (e.1.kind, e.2)
  rw [List.map_append] at hsplit
  calc owned (contents (fitted n es cs)) +
        owned (contents (es.filter fun e => !decide (e.1.code ∈ cs.map Registration.code)))
      = owned (contents (es.filter fun e => decide (e.1.code ∈ cs.map Registration.code))) +
          owned (defaults n (World.lacking es cs)) +
          owned (contents (es.filter fun e => !decide (e.1.code ∈ cs.map Registration.code))) := by
        rw [owned_perm (contents_fitted_perm n es cs), owned_append]
        exact congrArg (· + _ + _) (owned_perm hcarried)
    _ = owned (contents es) + owned (defaults n (World.lacking es cs)) := by
        rw [contents, contents, contents, ← owned_perm hsplit, owned_append]
        exact add_right_comm _ _ _

lemma surplus_eq {w : World} (ha : a.Drafted w.registry w.settings id) {j : Nat}
    (hb : b.Drafted w.registry w.settings j)
    (h : row.values.length + 1 = a.layout.columns.length) :
    World.surplus (a.labelled row) b = contents ((a.labelled row).filter fun e =>
      !decide (e.1.code ∈ b.layout.columns.tail.map Registration.code)) := by
  have hcodes := hb.codes
  have hsig : b.layout.columns.tail.map Registration.code = b.signature := by
    rw [Archetype.signature, Archetype.codes, Layout.codes, List.map_tail]
  rw [World.surplus, contents, hsig]
  congr 1
  refine List.filter_congr fun e he => ?_
  have hne : e.1.code ≠ .entity := by
    intro hentity
    apply ha.ascending.1
    rw [← hentity, ← Archetype.codes_labelled h]
    exact List.mem_map_of_mem (f := fun e => e.1.code) he
  have hhas : b.has e.1.code = decide (e.1.code ∈ b.signature) := by
    rw [Bool.eq_iff_iff, Archetype.has_iff hb.pairwise_codes, hcodes, List.mem_cons,
      decide_eq_true_iff]
    simp [hne]
  rw [hhas]

end Fit

end EntityStore
