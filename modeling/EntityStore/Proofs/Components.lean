import Mathlib
import EntityStore.World.Placement
import EntityStore.Proofs.Archetype
import EntityStore.Proofs.Ascending
import EntityStore.Proofs.Lifetimes
import EntityStore.Proofs.Registry

/-!
# The components of an entity as a map

A row under its columns is a list of components, each with its registration. `pick` reads it by
code. Fitted to other columns, what was there is carried over, and what was not starts with a
default, numbered in the order of the columns.
-/
namespace EntityStore

open Lifetimes (defaults)

def pick (es : List (Registration × Value)) (t : TypeCode) : Option Value :=
  (es.find? fun e => e.1.code = t).map Prod.snd

/-- Each column with what `es` has for it, or else with a default. Owned defaults are numbered from
`n` on. -/
def fitted (n : Nat) (es : List (Registration × Value)) :
    List Registration → List (Registration × Value)
  | [] => []
  | c :: cs =>
      match pick es c.code with
      | some v => (c, v) :: fitted n es cs
      | none => (c, c.kind.default n) :: fitted (n + if c.kind.owned then 1 else 0) es cs

/-- The kinds of the columns that a row has nothing for. -/
def World.lacking (es : List (Registration × Value)) (cs : List Registration) : List Kind :=
  (cs.filter fun c => (pick es c.code).isNone).map Registration.kind

section Pick
variable {es : List (Registration × Value)} {c : Registration} {cs : List Registration}
  {vs : List Value} {v : Value} {n : Nat} {t : TypeCode}

@[simp] lemma pick_nil (t : TypeCode) : pick [] t = none := rfl

lemma pick_cons (e : Registration × Value) (es : List (Registration × Value)) (t : TypeCode) :
    pick (e :: es) t = if e.1.code = t then some e.2 else pick es t := by
  by_cases h : e.1.code = t <;> simp [pick, h]

lemma pick_isSome : (pick es t).isSome ↔ t ∈ es.map fun e => e.1.code := by
  simp [pick]

lemma pick_eq_none (ht : t ∉ es.map fun e => e.1.code) : pick es t = none := by
  rw [← Option.not_isSome_iff_eq_none, pick_isSome]
  exact ht

lemma fitted_cons_some (h : pick es c.code = some v) (n : Nat) (cs : List Registration) :
    fitted n es (c :: cs) = (c, v) :: fitted n es cs := by
  rw [fitted, h]

lemma fitted_cons_none (h : pick es c.code = none) (n : Nat) (cs : List Registration) :
    fitted n es (c :: cs) =
      (c, c.kind.default n) :: fitted (n + if c.kind.owned then 1 else 0) es cs := by
  rw [fitted, h]

lemma lacking_cons_some (h : pick es c.code = some v) (cs : List Registration) :
    World.lacking es (c :: cs) = World.lacking es cs := by
  simp [World.lacking, h]

lemma lacking_cons_none (h : pick es c.code = none) (cs : List Registration) :
    World.lacking es (c :: cs) = c.kind :: World.lacking es cs := by
  simp [World.lacking, h]

/-- What a column list gets for a code does not depend on the columns around it, but for the number
of a default. -/
lemma pick_fitted (n : Nat) (es : List (Registration × Value)) (cs : List Registration)
    (t : TypeCode) : ∃ m, pick (fitted n es cs) t =
      (cs.find? fun c => c.code = t).map fun c => (pick es t).getD (c.kind.default m) := by
  induction cs generalizing n with
  | nil => exact ⟨0, rfl⟩
  | cons c cs ih =>
    cases hp : pick es c.code with
    | some v =>
      obtain ⟨m, hm⟩ := ih n
      refine ⟨m, ?_⟩
      rw [fitted_cons_some hp, pick_cons, hm]
      by_cases hc : c.code = t
      · subst hc
        simp [hp]
      · simp [hc]
    | none =>
      obtain ⟨m, hm⟩ := ih (n + if c.kind.owned then 1 else 0)
      rw [fitted_cons_none hp]
      by_cases hc : c.code = t
      · subst hc
        exact ⟨n, by simp [pick_cons, hp]⟩
      · exact ⟨m, by simp [pick_cons, hc, hm]⟩

lemma fitted_of_known (h : World.lacking es cs = []) (n : Nat) :
    fitted n es cs = cs.filterMap fun c => (pick es c.code).map fun v => (c, v) := by
  induction cs with
  | nil => rfl
  | cons c cs ih =>
    cases hp : pick es c.code with
    | some v =>
      rw [lacking_cons_some hp] at h
      rw [fitted_cons_some hp, ih h, List.filterMap_cons, hp]
      rfl
    | none => simp [lacking_cons_none hp] at h

lemma zip_modify (cs : List Registration) (vs : List Value) (f : Value → Value) (j : Nat) :
    cs.zip (vs.modify j f) = (cs.zip vs).modify j fun x => (x.1, f x.2) := by
  induction cs generalizing vs j with
  | nil => simp
  | cons c cs ih =>
    cases vs with
    | nil => simp
    | cons v vs => cases j <;> simp [ih]

lemma pick_modify {j : Nat} {e : Registration} {u : Value}
    (h : (es.map fun x => x.1.code).Nodup) (hj : es[j]? = some (e, u)) (f : Value → Value) :
    pick (es.modify j fun x => (x.1, f x.2)) = Function.update (pick es) e.code (some (f u)) := by
  funext t
  induction es generalizing j with
  | nil => simp at hj
  | cons x es ih =>
    rw [List.map_cons, List.nodup_cons] at h
    cases j with
    | zero =>
      obtain rfl : x = (e, u) := by simpa using hj
      rw [List.modify_zero_cons, pick_cons]
      by_cases ht : t = e.code
      · rw [ht, Function.update_self]
        exact if_pos rfl
      · rw [Function.update_of_ne ht, pick_cons]
        exact (if_neg (Ne.symm ht)).trans (if_neg (Ne.symm ht)).symm
    | succ j =>
      have hj : es[j]? = some (e, u) := by simpa using hj
      have hne : x.1.code ≠ e.code := by
        intro he
        rw [he] at h
        exact h.1 (List.mem_map_of_mem (f := fun x => x.1.code) (List.mem_of_getElem? hj))
      rw [List.modify_succ_cons, pick_cons, ih h.2 hj]
      by_cases ht : t = e.code
      · rw [ht, Function.update_self, Function.update_self, if_neg hne]
      · rw [Function.update_of_ne ht, Function.update_of_ne ht, pick_cons]

lemma map_fst_fitted (n : Nat) (es : List (Registration × Value)) (cs : List Registration) :
    (fitted n es cs).map Prod.fst = cs := by
  induction cs generalizing n with
  | nil => rfl
  | cons c cs ih =>
    cases hp : pick es c.code with
    | some v => rw [fitted_cons_some hp, List.map_cons, ih]
    | none => rw [fitted_cons_none hp, List.map_cons, ih]

lemma codes_fitted (n : Nat) (es : List (Registration × Value)) (cs : List Registration) :
    (fitted n es cs).map (fun e => e.1.code) = cs.map Registration.code := by
  rw [← map_fst_fitted n es cs, List.map_map, map_fst_fitted]
  rfl

lemma length_fitted (n : Nat) (es : List (Registration × Value)) (cs : List Registration) :
    (fitted n es cs).length = cs.length := by
  rw [← List.length_map (f := Prod.fst), map_fst_fitted]

lemma find_zip (cs : List Registration) (vs : List Value) (t : TypeCode) :
    (cs.zip vs).find? (fun e => e.1.code = t) =
      ((cs.map Registration.code).idxOf? t).bind fun j => (cs.zip vs)[j]? := by
  induction cs generalizing vs with
  | nil => rfl
  | cons c cs ih =>
    cases vs with
    | nil => simp
    | cons v vs =>
      rw [List.zip_cons_cons, List.map_cons, List.idxOf?_cons]
      by_cases hc : c.code = t
      · simp [hc]
      · simp [hc, ih, Option.bind_map]

lemma zip_fitted (n : Nat) (es : List (Registration × Value)) (cs : List Registration) :
    cs.zip ((fitted n es cs).map Prod.snd) = fitted n es cs := by
  have hzip := List.zip_map' (f := Prod.fst) (g := Prod.snd) (l := fitted n es cs)
  rwa [map_fst_fitted, List.map_id'] at hzip

lemma fitted_nil (n : Nat) (cs : List Registration) :
    (fitted n [] cs).map (fun e => (e.1.kind, e.2)) = defaults n (cs.map Registration.kind) := by
  induction cs generalizing n with
  | nil => rfl
  | cons c cs ih =>
    rw [fitted_cons_none (pick_nil c.code), List.map_cons, ih, List.map_cons, defaults]

end Pick

namespace Layout
variable {l : Layout} {t : TypeCode} {j : Nat}

lemma getElem?_of_indexOf (h : l.indexOf t = some j) : l.codes[j]? = some t := by
  rw [indexOf] at h
  cases hs : Ascending.search l.codes t with
  | error p => simp [hs, Except.toOption] at h
  | ok p =>
    obtain rfl : p = j := by simpa [hs, Except.toOption] using h
    exact Ascending.getElem?_of_search hs

lemma indexOf_lt (h : l.indexOf t = some j) : j < l.columns.length := by
  have hlt := (List.getElem?_eq_some_iff.mp (getElem?_of_indexOf h)).1
  simpa [codes] using hlt

lemma mem_of_indexOf (h : l.indexOf t = some j) : t ∈ l.codes :=
  List.mem_of_getElem? (getElem?_of_indexOf h)

lemma indexOf_eq (h : l.codes.Pairwise (· < ·)) (t : TypeCode) :
    l.indexOf t = l.codes.idxOf? t := Ascending.toOption_search h t

end Layout

namespace Archetype
variable {a b : Archetype} {r : Row} {t : TypeCode}

lemma labelled_of_layout (h : b.layout = a.layout) (r : Row) : b.labelled r = a.labelled r := by
  rw [labelled, labelled, h]

lemma labelled_modify (a : Archetype) (r : Row) (f : Value → Value) (j : Nat) :
    a.labelled (r.modify f (j + 1)) = (a.labelled r).modify j fun x => (x.1, f x.2) :=
  zip_modify a.layout.columns.tail r.values f j

lemma labelled_defaults (a : Archetype) (h : Handle) (n : Nat) :
    a.labelled ⟨h, (defaults n a.layout.kinds.tail).map Prod.snd⟩ =
      fitted n [] a.layout.columns.tail := by
  have hvalues : (defaults n a.layout.kinds.tail).map Prod.snd =
      (fitted n [] a.layout.columns.tail).map Prod.snd := by
    rw [Layout.kinds, ← List.map_tail, ← fitted_nil, List.map_map]
    rfl
  rw [labelled, hvalues, zip_fitted]

lemma codes_labelled (h : r.values.length + 1 = a.layout.columns.length) :
    (a.labelled r).map (fun e => e.1.code) = a.signature := by
  have hlen : a.layout.columns.tail.length = r.values.length := by simp; omega
  have hfst : (a.labelled r).map Prod.fst = a.layout.columns.tail := by
    rw [labelled, List.map_fst_zip hlen.le]
  calc (a.labelled r).map (fun e => e.1.code)
      = ((a.labelled r).map Prod.fst).map Registration.code := by simp
    _ = a.signature := by
      rw [hfst, signature, codes, Layout.codes, List.map_tail]

lemma kinds_labelled (r : Row) :
    (a.labelled r).map (fun e => (e.1.kind, e.2)) = a.layout.kinds.tail.zip r.values := by
  rw [labelled, Layout.kinds, ← List.map_tail, List.zip_map_left]
  rfl

lemma find_labelled {first : Registration} {cs : List Registration}
    (hasc : a.codes.Pairwise (· < ·)) (hcols : a.layout.columns = first :: cs)
    (ht : first.code ≠ t) (r : Row) :
    (a.labelled r).find? (fun e => e.1.code = t) =
      (a.layout.indexOf t).bind fun j => (a.labelled r)[j - 1]? := by
  rw [labelled, hcols, List.tail_cons, find_zip, Layout.indexOf_eq hasc, Layout.codes, hcols,
    List.map_cons, List.idxOf?_cons]
  simp [ht, Option.bind_map]

lemma has_iff (hasc : a.codes.Pairwise (· < ·)) : a.has t = true ↔ t ∈ a.codes := by
  rw [has, Layout.indexOf_eq hasc, List.isSome_idxOf?]
  rfl

end Archetype

end EntityStore
