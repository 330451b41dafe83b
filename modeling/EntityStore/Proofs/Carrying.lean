import Mathlib
import EntityStore.Proofs.Components
import EntityStore.Proofs.Draft

/-!
# What one pass over the columns carries over

A row that goes to another archetype is taken apart by one pass over the columns of both. As types
ascend in both, the pass does what looking up every type would do: the new row is the old one
fitted to the new columns, what is made is what the old row lacks, and what is given up is what the
new columns have no room for.
-/
namespace EntityStore

open Lifetimes (defaults)

/-- The components that an archetype has no column for. -/
def World.surplus (es : List (Registration × Value)) (a : Archetype) : List (Kind × Value) :=
  (es.filter fun e => !a.has e.1.code).map fun e => (e.1.kind, e.2)

lemma filterMap_zipIdx {F : Nat → Option (Kind × Value)} {P : TypeCode → Bool} {n : Nat}
    {cs : List Registration} {vs : List Value} (hlen : cs.length = vs.length)
    (hF : ∀ j e, (cs.zip vs)[j]? = some e → F (n + j) = some (e.1.kind, e.2)) :
    ((((cs.map Registration.code).zipIdx n).filter fun x => P x.1).map Prod.snd).filterMap F =
      ((cs.zip vs).filter fun e => P e.1.code).map fun e => (e.1.kind, e.2) := by
  induction cs generalizing vs n with
  | nil => rfl
  | cons c cs ih =>
    cases vs with
    | nil => simp at hlen
    | cons v vs =>
      have hfirst : F n = some (c.kind, v) := hF 0 (c, v) rfl
      have hrest := ih (n := n + 1) (Nat.succ.inj hlen) fun j e he => by
        rw [Nat.add_assoc, Nat.add_comm 1 j]
        exact hF (j + 1) e he
      rw [List.map_cons, List.zipIdx_cons, List.zip_cons_cons, List.filter_cons, List.filter_cons]
      split_ifs
      · rw [List.map_cons, List.filterMap_cons_some hfirst, hrest, List.map_cons]
      · exact hrest

lemma kinds_zip_partners (f : Registration → Option Nat) (cs : List Registration) (n : Nat) :
    ((((cs.zipIdx n).zip (cs.map f)).filter fun x => x.2.isNone).map Prod.fst).map
        (fun cj => cj.1.kind) =
      (cs.filter fun c => (f c).isNone).map Registration.kind := by
  induction cs generalizing n with
  | nil => rfl
  | cons c cs ih =>
    have hrest := ih (n + 1)
    cases hf : f c <;> simp [List.zipIdx_cons, hf, hrest]

namespace Archetype
variable {a b : Archetype} {reg : Registry} {s : Settings} {i k : Nat} {r : Row} {t : TypeCode}

lemma cell_of_lt (hlen : r.values.length + 1 = a.layout.columns.length) {j : Nat}
    (hj : j < a.layout.columns.length) : ∃ v, r.cell j = some v := by
  cases j with
  | zero => exact ⟨_, rfl⟩
  | succ j => exact ⟨_, List.getElem?_eq_getElem (by omega)⟩

lemma pick_labelled (hd : a.Drafted reg s i)
    (hlen : r.values.length + 1 = a.layout.columns.length) (ht : t ≠ .entity) :
    pick (a.labelled r) t = (a.layout.indexOf t).bind r.cell := by
  obtain ⟨first, cs, hcols, hfirst, -⟩ := hd.columns
  have hcode := Registry.code_of_registration hfirst
  rw [pick, find_labelled hd.pairwise_codes hcols (hcode ▸ Ne.symm ht)]
  cases hj : a.layout.indexOf t with
  | none => rfl
  | some j =>
    have hlt := Layout.indexOf_lt hj
    have hpos : j ≠ 0 := by
      rintro rfl
      have hget := Layout.getElem?_of_indexOf hj
      simp [Layout.codes, hcols, hcode, Ne.symm ht] at hget
    obtain ⟨j, rfl⟩ := Nat.exists_eq_succ_of_ne_zero hpos
    have hj' : j < a.layout.columns.tail.length := by
      rw [List.length_tail]
      omega
    have hjv : j < r.values.length := by omega
    have hboth : (a.labelled r)[j]? = some (a.layout.columns.tail[j], r.values[j]) :=
      List.getElem?_zip_eq_some.mpr ⟨List.getElem?_eq_getElem hj', List.getElem?_eq_getElem hjv⟩
    rw [Option.bind_some, Option.bind_some, Nat.succ_sub_one, hboth]
    exact (List.getElem?_eq_getElem hjv).symm

section Pass
variable (ha : a.Drafted reg s i) (hb : b.Drafted reg s k)
include ha hb

lemma partners_eq : (Ascending.pairUp a.codes b.codes).partners =
    b.layout.columns.map fun c => a.layout.indexOf c.code := by
  have hpartners := (Ascending.pairUpFrom_eq ha.pairwise_codes hb.pairwise_codes 0).1
  rw [Ascending.pairUp, hpartners, codes, codes, Layout.codes, Layout.codes, List.map_map]
  refine List.map_congr_left fun c _ => ?_
  rw [Layout.indexOf_eq ha.pairwise_codes]
  simp [Layout.codes]

/-- What the pass makes is what the row lacks. -/
theorem kinds_freshColumns (hlen : r.values.length + 1 = a.layout.columns.length) :
    (World.freshColumns (Ascending.pairUp a.codes b.codes) b).map (fun cj => cj.1.kind) =
      World.lacking (a.labelled r) b.layout.columns.tail := by
  obtain ⟨first, cs, hcols, hfirst, -⟩ := hb.columns
  have hne : ∀ c ∈ cs, c.code ≠ .entity := fun c hc => hb.code_ne (by rwa [hcols])
  -- the handles are in both archetypes, so their column is never fresh
  have hhead : a.layout.indexOf first.code ≠ none := by
    rw [Registry.code_of_registration hfirst, Layout.indexOf_eq ha.pairwise_codes, ne_eq,
      List.idxOf?_eq_none_iff, not_not]
    change _ ∈ a.codes
    rw [ha.codes]
    exact List.mem_cons_self
  rw [World.freshColumns, partners_eq ha hb, kinds_zip_partners, hcols, List.tail_cons,
    World.lacking, List.filter_cons_of_neg (by simpa using hhead)]
  refine congrArg (List.map Registration.kind) (List.filter_congr fun c hc => ?_)
  rw [pick_labelled ha hlen (hne c hc)]
  cases hj : a.layout.indexOf c.code with
  | none => rfl
  | some j =>
    obtain ⟨v, hv⟩ := cell_of_lt hlen (Layout.indexOf_lt hj)
    simp [hv]

/-- The row that the pass puts together is the old one fitted to the new columns. -/
theorem carry_eq (hlen : r.values.length + 1 = a.layout.columns.length) (n : Nat) :
    World.carry r (Ascending.pairUp a.codes b.codes).partners.tail
        ((defaults n (World.lacking (a.labelled r) b.layout.columns.tail)).map Prod.snd) =
      (fitted n (a.labelled r) b.layout.columns.tail).map Prod.snd := by
  have hne : ∀ c ∈ b.layout.columns.tail, c.code ≠ .entity := fun c hc => hb.code_ne hc
  rw [partners_eq ha hb, ← List.map_tail]
  generalize b.layout.columns.tail = cs at hne ⊢
  induction cs generalizing n with
  | nil => rfl
  | cons c cs ih =>
    have hpick := pick_labelled ha hlen (hne c List.mem_cons_self)
    have hrest := fun n => ih n fun c hc => hne c (List.mem_cons_of_mem _ hc)
    cases hj : a.layout.indexOf c.code with
    | none =>
      have hnone : pick (a.labelled r) c.code = none := by rw [hpick, hj]; rfl
      rw [lacking_cons_none hnone, fitted_cons_none hnone, List.map_cons, List.map_cons, hj,
        ← hrest]
      rfl
    | some j =>
      obtain ⟨v, hv⟩ := cell_of_lt hlen (Layout.indexOf_lt hj)
      have hsome : pick (a.labelled r) c.code = some v := by rw [hpick, hj, Option.bind_some, hv]
      rw [lacking_cons_some hsome, fitted_cons_some hsome, List.map_cons, List.map_cons, hj,
        ← hrest]
      simp [World.carry, hv]

/-- What the pass leaves alone is what the new columns have no room for. -/
theorem cells_alone (hlen : r.values.length + 1 = a.layout.columns.length) :
    a.cells r (Ascending.pairUp a.codes b.codes).alone = World.surplus (a.labelled r) b := by
  obtain ⟨first, cs, hcols, hfirst, -⟩ := ha.columns
  have hcodes : a.codes = .entity :: cs.map Registration.code := by
    rw [codes, Layout.codes, hcols, List.map_cons, Registry.code_of_registration hfirst]
  have halone := (Ascending.pairUpFrom_eq ha.pairwise_codes hb.pairwise_codes 0).2
  have hhas : ∀ t, decide (t ∉ b.codes) = !b.has t := fun t => by
    by_cases ht : t ∈ b.codes
    · simp [ht, (has_iff hb.pairwise_codes).mpr ht]
    · simp [ht, mt (has_iff hb.pairwise_codes).mp ht]
  have hvalues : cs.length = r.values.length := by
    rw [hcols, List.length_cons] at hlen
    omega
  rw [cells, Ascending.pairUp, halone, hcodes, List.zipIdx_cons,
    List.filter_cons_of_neg (by simp [hb.codes]), World.surplus, labelled, hcols, List.tail_cons]
  simp only [hhas]
  refine filterMap_zipIdx (P := fun t => !b.has t) hvalues fun j e he => ?_
  obtain ⟨hc, hv⟩ := List.getElem?_zip_eq_some.mp he
  rw [Nat.zero_add, Nat.add_comm, Layout.kinds, hcols, List.map_cons, List.getElem?_cons_succ,
    List.getElem?_map, hc, Row.cell, hv]
  rfl

end Pass

end Archetype

end EntityStore
