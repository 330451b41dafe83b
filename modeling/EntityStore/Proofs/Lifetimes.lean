import Mathlib
import EntityStore.Kind.Lifetimes

/-!
# What the record of lives gains

Dropping values adds an event for each owned one, in order. Making defaults adds one for each owned
default, and each of these has a number of its own; if a default fails, which the fuse decides,
those made before it are dropped again.
-/
namespace EntityStore.Lifetimes

variable {l l' : Lifetimes} {ks : List Kind} {vs : List Value}

def dropEvents (vs : List (Kind × Value)) : List Event :=
  (vs.filter fun kv => kv.1.owned).map fun kv => .dropped kv.1 kv.2

def makeEvents (vs : List (Kind × Value)) : List Event :=
  (vs.filter fun kv => kv.1.owned).map fun kv => .made kv.1 kv.2

/-- Default values, each with its kind. Those that are owned are numbered from `n` on. -/
def defaults (n : Nat) : List Kind → List (Kind × Value)
  | [] => []
  | k :: ks => (k, k.default n) :: defaults (n + if k.owned then 1 else 0) ks

lemma length_defaults (n : Nat) (ks : List Kind) : (defaults n ks).length = ks.length := by
  induction ks generalizing n with
  | nil => rfl
  | cons k ks ih => rw [defaults, List.length_cons, ih, List.length_cons]

/-- The `n`-th default is the one that fails: the fuse has just burnt down. -/
structure Failing (l : Lifetimes) (ks : List Kind) (n : Nat) : Prop where
  fallible : ∃ k, ks[n]? = some k ∧ k.fallible = true
  fuse : l.fuse = some ((ks.take n).countP Kind.fallible)

lemma dropEvents_append (vs ws : List (Kind × Value)) :
    dropEvents (vs ++ ws) = dropEvents vs ++ dropEvents ws := by
  simp [dropEvents]

lemma makeEvents_append (vs ws : List (Kind × Value)) :
    makeEvents (vs ++ ws) = makeEvents vs ++ makeEvents ws := by
  simp [makeEvents]

lemma drop_eq (l : Lifetimes) (k : Kind) (v : Value) :
    l.drop k v = { l with events := l.events ++ dropEvents [(k, v)] } := by
  by_cases h : k.owned = true <;> simp [drop, dropEvents, record, h]

theorem dropAll_eq (l : Lifetimes) (vs : List (Kind × Value)) :
    l.dropAll vs = { l with events := l.events ++ dropEvents vs } := by
  induction vs generalizing l with
  | nil => simp [dropAll, dropEvents]
  | cons kv vs ih =>
    have h := ih (l.drop kv.1 kv.2)
    rw [drop_eq, List.append_assoc, ← dropEvents_append] at h
    simpa [dropAll, drop_eq] using h

lemma made_eq (l : Lifetimes) (k : Kind) (v : Value) :
    l.made k v = { l with events := l.events ++ makeEvents [(k, v)] } := by
  by_cases h : k.owned = true <;> simp [made, makeEvents, record, h]

lemma make_eq_some {k : Kind} {v : Value} (h : l.make k = (some v, l')) :
    v = k.default l.count ∧ l'.events = l.events ++ makeEvents [(k, v)] ∧
      ∀ n, l'.fuse = some n → l.fuse = some (n + if k.fallible then 1 else 0) := by
  unfold make at h
  repeat' split at h
  all_goals
    obtain ⟨hv, rfl⟩ := Prod.mk.inj h
    simp_all [made_eq]

lemma make_eq_none {k : Kind} (h : l.make k = (none, l')) :
    k.fallible = true ∧ l.fuse = some 0 ∧ l'.events = l.events := by
  unfold make at h
  repeat' split at h
  all_goals
    obtain ⟨hv, rfl⟩ := Prod.mk.inj h
    simp_all

lemma count_of_made {k : Kind} {v : Value} (h : l'.events = l.events ++ makeEvents [(k, v)]) :
    l'.count = l.count + if k.owned then 1 else 0 := by
  rw [count, h, List.countP_append, count]
  cases hk : k.owned <;> simp [makeEvents, hk, Event.isMade]

lemma go_eq_ok {made : List (Kind × Value)} (h : makeAll.go l ks made = (.ok vs, l')) :
    vs = (made ++ defaults l.count ks).map Prod.snd ∧
      l'.events = l.events ++ makeEvents (defaults l.count ks) := by
  induction ks generalizing l made with
  | nil =>
    obtain ⟨hv, rfl⟩ := Prod.mk.inj h
    simp [Except.ok.inj hv.symm, makeEvents, defaults]
  | cons k ks ih =>
    unfold makeAll.go at h
    cases hm : l.make k with
    | mk v lk =>
      cases v with
      | none => simp [hm] at h
      | some v =>
        obtain ⟨rfl, hevents, -⟩ := make_eq_some hm
        obtain ⟨hvs, hl⟩ := ih (by simpa [hm] using h)
        rw [count_of_made hevents] at hvs hl
        rw [List.append_assoc] at hvs
        refine ⟨hvs, ?_⟩
        rw [hl, hevents, List.append_assoc, ← makeEvents_append]
        rfl

lemma go_eq_error {made : List (Kind × Value)} {n : Nat}
    (h : makeAll.go l ks made = (.error n, l')) :
    ∃ j, l.Failing ks j ∧ n = made.length + j ∧
      l'.events = l.events ++ makeEvents (defaults l.count (ks.take j)) ++
        dropEvents (made ++ defaults l.count (ks.take j)) := by
  induction ks generalizing l made with
  | nil =>
    obtain ⟨hv, -⟩ := Prod.mk.inj h
    simp at hv
  | cons k ks ih =>
    unfold makeAll.go at h
    cases hm : l.make k with
    | mk v lk =>
      cases v with
      | none =>
        rw [hm] at h
        obtain ⟨hn, rfl⟩ := Prod.mk.inj h
        obtain ⟨hfallible, hfuse, hevents⟩ := make_eq_none hm
        refine ⟨0, ⟨⟨k, rfl, hfallible⟩, hfuse⟩, (Except.error.inj hn).symm, ?_⟩
        simp [dropAll_eq, hevents, makeEvents, defaults]
      | some v =>
        obtain ⟨rfl, hevents, hfuse⟩ := make_eq_some hm
        obtain ⟨j, ⟨hj, hleft⟩, hn, hl⟩ := ih (by simpa [hm] using h)
        have hburnt : l.fuse = some (((k :: ks).take (j + 1)).countP Kind.fallible) := by
          rw [hfuse _ hleft, List.take_succ_cons, List.countP_cons]
        refine ⟨j + 1, ⟨by simpa using hj, hburnt⟩,
          by rw [hn, List.length_append]; simp; omega, ?_⟩
        rw [hl, count_of_made hevents, hevents, List.take_succ_cons, defaults,
          List.append_assoc made, List.append_assoc l.events, ← makeEvents_append]
        rfl

theorem makeAll_eq_ok (h : l.makeAll ks = (.ok vs, l')) :
    vs = (defaults l.count ks).map Prod.snd ∧
      l'.events = l.events ++ makeEvents (defaults l.count ks) := by
  have hgo := go_eq_ok h
  simpa using hgo

/-- The defaults made before the one that failed were dropped again. -/
theorem makeAll_eq_error {n : Nat} (h : l.makeAll ks = (.error n, l')) :
    l.Failing ks n ∧ l'.events = l.events ++ makeEvents (defaults l.count (ks.take n)) ++
      dropEvents (defaults l.count (ks.take n)) := by
  obtain ⟨j, hj, hn, hl⟩ := go_eq_error h
  obtain rfl : n = j := by simpa using hn
  exact ⟨hj, by simpa using hl⟩

end EntityStore.Lifetimes
