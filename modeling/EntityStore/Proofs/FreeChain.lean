import Mathlib

/-!
# Chains of free slots

A table of slots keeps its free ones in a chain: each free slot holds the number of the next, and
the table that of the first. `links` tells for each slot whether it is free and, if so, what comes
behind it. Slots are taken from the front of the chain and given back there.
-/
namespace EntityStore

section Table
variable {α β : Type} {f : α → Option β} {slots : Array α} {s : α}

lemma getElem?_update {i : Nat} (hi : i < slots.size) :
    (fun j : Nat => (slots.setIfInBounds i s)[j]?.bind f) =
      Function.update (fun j : Nat => slots[j]?.bind f) i (f s) := by
  funext j
  rw [Array.getElem?_setIfInBounds]
  by_cases hj : j = i
  · subst hj
    simp [hi]
  · rw [if_neg (Ne.symm hj), Function.update_of_ne hj]

lemma getElem?_push :
    (fun j : Nat => (slots.push s)[j]?.bind f) =
      Function.update (fun j : Nat => slots[j]?.bind f) slots.size (f s) := by
  funext j
  by_cases hj : j = slots.size
  · simp [hj]
  · rw [Function.update_of_ne hj, Array.getElem?_push, if_neg hj]

end Table

/-- Following the links from `head` visits the slots of the list, one after the other, and ends. -/
inductive Linked (links : Nat → Option (Option Nat)) : Option Nat → List Nat → Prop
  | nil : Linked links none []
  | cons {i : Nat} {next : Option Nat} {is : List Nat} (hi : links i = some next)
      (ht : Linked links next is) : Linked links (some i) (i :: is)

/-- The chain visits every free slot, and none twice. -/
structure FreeChain (links : Nat → Option (Option Nat)) (head : Option Nat) (is : List Nat) :
    Prop where
  linked : Linked links head is
  nodup : is.Nodup
  complete : ∀ i next, links i = some next → i ∈ is

variable {links links' : Nat → Option (Option Nat)} {head next : Option Nat} {is : List Nat}
  {i : Nat}

lemma Linked.isSome (h : Linked links head is) (hi : i ∈ is) : (links i).isSome := by
  induction h with
  | nil => simp at hi
  | cons hj _ ih =>
    rcases List.mem_cons.mp hi with rfl | hi
    · rw [hj]
      rfl
    · exact ih hi

lemma Linked.congr (h : Linked links head is) (heq : ∀ i ∈ is, links' i = links i) :
    Linked links' head is := by
  induction h with
  | nil => exact .nil
  | cons hj _ ih =>
    refine .cons ((heq _ List.mem_cons_self).trans hj) (ih fun i hi => ?_)
    exact heq i (List.mem_cons_of_mem _ hi)

namespace FreeChain

lemma mem_iff (h : FreeChain links head is) : i ∈ is ↔ ∃ next, links i = some next :=
  ⟨fun hi => Option.isSome_iff_exists.mp (h.linked.isSome hi),
    fun ⟨next, hi⟩ => h.complete i next hi⟩

lemma nil (h : ∀ i, links i = none) : FreeChain links none [] :=
  ⟨.nil, List.nodup_nil, fun i next hi => by simp [h i] at hi⟩

/-- A chain takes no notice of slots that are not free. -/
lemma update (h : FreeChain links head is) (hi : links i = none) :
    FreeChain (Function.update links i none) head is := by
  rwa [← hi, Function.update_eq_self]

lemma take (h : FreeChain links (some i) is) (hi : links i = some next) :
    ∃ js, is = i :: js ∧ FreeChain (Function.update links i none) next js := by
  obtain ⟨hlinked, hnodup, hcomplete⟩ := h
  cases hlinked with
  | @cons _ next' js hi' ht =>
    obtain rfl : next' = next := Option.some.inj (hi'.symm.trans hi)
    obtain ⟨hfirst, hnodup⟩ := List.nodup_cons.mp hnodup
    refine ⟨js, rfl, ht.congr fun j hj => ?_, hnodup, fun j n hj => ?_⟩
    · exact Function.update_of_ne (ne_of_mem_of_not_mem hj hfirst) _ _
    · by_cases hji : j = i
      · rw [hji, Function.update_self] at hj
        cases hj
      · rw [Function.update_of_ne hji] at hj
        exact (List.mem_cons.mp (hcomplete j n hj)).resolve_left hji

lemma give (h : FreeChain links head is) (hi : links i = none) :
    FreeChain (Function.update links i (some head)) (some i) (i :: is) := by
  have hnew : i ∉ is := fun hmem => by
    have hsome := h.linked.isSome hmem
    simp [hi] at hsome
  refine ⟨.cons (Function.update_self ..) (h.linked.congr fun j hj => ?_),
    List.nodup_cons.mpr ⟨hnew, h.nodup⟩, fun j n hj => ?_⟩
  · exact Function.update_of_ne (ne_of_mem_of_not_mem hj hnew) _ _
  · by_cases hji : j = i
    · exact hji ▸ List.mem_cons_self
    · rw [Function.update_of_ne hji] at hj
      exact List.mem_cons_of_mem _ (h.complete j n hj)

end FreeChain

end EntityStore
