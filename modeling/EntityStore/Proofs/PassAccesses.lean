import Mathlib
import EntityStore.Proofs.Accesses

/-!
# What the passes over lists of types touch

A pass keeps a position in each list that it goes through by numbers, and looks at the codes there
as long as there are any. Nothing else decides its course: on lists that have the same codes at
these positions it goes the same way.
-/
namespace EntityStore.Ascending

open Access

lemma drop_of_getElem? {ts : List TypeCode} {i : Nat} {t : TypeCode} (h : ts[i]? = some t) :
    ts.drop i = t :: ts.drop (i + 1) := by
  rw [List.drop_eq_getElem?_toList_append, h]
  rfl

lemma drop_of_getElem?_none {ts : List TypeCode} {i : Nat} (h : ts[i]? = none) : ts.drop i = [] :=
  List.drop_eq_nil_of_le (List.getElem?_eq_none_iff.mp h)

/-- The positions that a merge of two lists goes through from `i` and `j` on. At a code that both
lists have it goes on in both, or else stops. -/
def trail (onward : Bool) (xs ys : List TypeCode) (i j : Nat) : List (Nat × Nat) :=
  (i, j) ::
    match hx : xs[i]?, hy : ys[j]? with
    | some a, some b =>
        if a < b then trail onward xs ys (i + 1) j
        else if b < a then trail onward xs ys i (j + 1)
        else if onward then trail onward xs ys (i + 1) (j + 1)
        else []
    | _, _ => []
  termination_by (xs.length - i) + (ys.length - j)
  decreasing_by
    all_goals
      have hi := (List.getElem?_eq_some_iff.mp hx).1
      have hj := (List.getElem?_eq_some_iff.mp hy).1
      omega

/-- The positions that are looked at in a list while the codes of another are searched there one by
one. Where a code is missing the search goes on for the next, or else stops. -/
def scan (onward : Bool) (xs : List TypeCode) : List TypeCode → Nat → List Nat
  | [], _ => []
  | t :: ts, i =>
      i ::
        match hx : xs[i]? with
        | none => if onward then scan onward xs ts i else []
        | some a =>
            if a < t then scan onward xs (t :: ts) (i + 1)
            else if a = t || onward then scan onward xs ts i
            else []
  termination_by ts i => ts.length + (xs.length - i)
  decreasing_by
    all_goals simp only [List.length_cons]
    all_goals try have hi := (List.getElem?_eq_some_iff.mp hx).1
    all_goals omega

section Trail
variable {onward : Bool} {xs ys : List TypeCode} {i j : Nat} {a b : TypeCode}

lemma end_or_codes (xs ys : List TypeCode) (i j : Nat) :
    (xs[i]? = none ∨ ys[j]? = none) ∨ ∃ a b, xs[i]? = some a ∧ ys[j]? = some b := by
  cases xs[i]? <;> cases ys[j]? <;> simp

lemma trail_of_end (h : xs[i]? = none ∨ ys[j]? = none) : trail onward xs ys i j = [(i, j)] := by
  rw [trail]
  split
  next a b ha hb => simp [ha, hb] at h
  next => rfl

lemma trail_of_codes (ha : xs[i]? = some a) (hb : ys[j]? = some b) :
    trail onward xs ys i j = (i, j) ::
      if a < b then trail onward xs ys (i + 1) j
      else if b < a then trail onward xs ys i (j + 1)
      else if onward then trail onward xs ys (i + 1) (j + 1)
      else [] := by
  rw [trail]
  split
  next a' b' ha' hb' =>
    obtain rfl := Option.some.inj (ha.symm.trans ha')
    obtain rfl := Option.some.inj (hb.symm.trans hb')
    rfl
  next hnone => exact (hnone a b ha hb).elim

lemma getLast?_cons_trail (p : Nat × Nat) :
    (p :: trail onward xs ys i j).getLast? = (trail onward xs ys i j).getLast? := by
  rw [trail, List.getLast?_cons_cons]

end Trail

/-- Neighbours are compared two by two. -/
def orderAccesses (ts : List TypeCode) : List Access :=
  (List.range (ts.length - 1)).flatMap fun i => [range i (i + 2) ts.length, item 0 2, item 1 2]

def mergeAccesses (onward : Bool) (xs ys : List TypeCode) : List Access :=
  (trail onward xs ys 0 0).flatMap fun p =>
    if p.1 < xs.length ∧ p.2 < ys.length then [item p.1 xs.length, item p.2 ys.length] else []

def scanAccesses (onward : Bool) (xs ts : List TypeCode) : List Access :=
  (scan onward xs ts 0).flatMap fun i => if i < xs.length then [item i xs.length] else []

def unionAccesses (xs ys : List TypeCode) : List Access :=
  mergeAccesses true xs ys ++
    (trail true xs ys 0 0).getLast?.toList.flatMap fun p =>
      [range p.1 xs.length xs.length, range p.2 ys.length ys.length]

def differenceAccesses (xs ys : List TypeCode) : List Access := scanAccesses true ys xs

section Safe
variable (onward : Bool) (xs ys : List TypeCode)

lemma safe_order : Safe (orderAccesses xs) := by
  refine safe_flatMap.mpr fun i hi => ?_
  have hlt := List.mem_range.mp hi
  simp only [safe_cons, within_range, within_item, safe_nil, and_true]
  omega

lemma safe_merge : Safe (mergeAccesses onward xs ys) := by
  refine safe_flatMap.mpr fun p _ => ?_
  split_ifs with hp
  · simpa using hp
  · exact safe_nil

lemma safe_scan : Safe (scanAccesses onward xs ys) := by
  refine safe_flatMap.mpr fun i _ => ?_
  split_ifs with hi
  · simpa using hi
  · exact safe_nil

lemma trail_le {i j : Nat} (hi : i ≤ xs.length) (hj : j ≤ ys.length) :
    ∀ p ∈ trail onward xs ys i j, p.1 ≤ xs.length ∧ p.2 ≤ ys.length := by
  induction i, j using trail.induct xs ys with
  | case1 i j hleft hright hboth =>
    rcases end_or_codes xs ys i j with hend | ⟨a, b, ha, hb⟩
    · simpa [trail_of_end hend] using ⟨hi, hj⟩
    · have hi' := (List.getElem?_eq_some_iff.mp ha).1
      have hj' := (List.getElem?_eq_some_iff.mp hb).1
      rw [trail_of_codes ha hb, List.forall_mem_cons]
      refine ⟨⟨hi, hj⟩, ?_⟩
      split_ifs
      · exact hleft a b ha hb hi' hj
      · exact hright a b ha hb hi hj'
      · exact hboth a b ha hb hi' hj'
      · simp

lemma safe_union : Safe (unionAccesses xs ys) := by
  refine safe_append.mpr ⟨safe_merge true xs ys, safe_flatMap.mpr fun p hp => ?_⟩
  have hlast := List.mem_of_mem_getLast? (Option.mem_toList.mp hp)
  have hle := trail_le true xs ys (Nat.zero_le _) (Nat.zero_le _) p hlast
  simp only [safe_cons, within_range, le_refl, and_true, safe_nil]
  exact hle

end Safe

section Merge
variable {xs ys xs' ys' : List TypeCode} {i j : Nat} {a b : TypeCode}

lemma intersects_drop (ha : xs[i]? = some a) (hb : ys[j]? = some b) :
    intersects (xs.drop i) (ys.drop j) =
      if a < b then intersects (xs.drop (i + 1)) (ys.drop j)
      else if b < a then intersects (xs.drop i) (ys.drop (j + 1))
      else true := by
  rw [drop_of_getElem? ha, drop_of_getElem? hb, intersects]

lemma union_drop (ha : xs[i]? = some a) (hb : ys[j]? = some b) :
    union (xs.drop i) (ys.drop j) =
      if a < b then a :: union (xs.drop (i + 1)) (ys.drop j)
      else if b < a then b :: union (xs.drop i) (ys.drop (j + 1))
      else a :: union (xs.drop (i + 1)) (ys.drop (j + 1)) := by
  rw [drop_of_getElem? ha, drop_of_getElem? hb, union]

lemma pairUpFrom_drop (ha : xs[i]? = some a) (hb : ys[j]? = some b) :
    pairUpFrom i (xs.drop i) (ys.drop j) =
      if a < b then (pairUpFrom (i + 1) (xs.drop (i + 1)) (ys.drop j)).single i
      else if b < a then (pairUpFrom i (xs.drop i) (ys.drop (j + 1))).partner none
      else (pairUpFrom (i + 1) (xs.drop (i + 1)) (ys.drop (j + 1))).partner (some i) := by
  rw [drop_of_getElem? ha, drop_of_getElem? hb, pairUpFrom]

lemma pairUpFrom_nil_left {xs ys : List TypeCode} (h : xs.length = ys.length) (i : Nat) :
    pairUpFrom i [] xs = pairUpFrom i [] ys := by
  induction xs generalizing ys with
  | nil => rw [List.eq_nil_of_length_eq_zero h.symm]
  | cons x xs ih =>
    cases ys with
    | nil => simp at h
    | cons y ys => rw [pairUpFrom, pairUpFrom, ih (Nat.succ.inj h)]

lemma pairUpFrom_nil_right {xs ys : List TypeCode} (h : xs.length = ys.length) (i : Nat) :
    pairUpFrom i xs [] = pairUpFrom i ys [] := by
  induction xs generalizing ys i with
  | nil => rw [List.eq_nil_of_length_eq_zero h.symm]
  | cons x xs ih =>
    cases ys with
    | nil => simp at h
    | cons y ys => rw [pairUpFrom, pairUpFrom, ih (Nat.succ.inj h)]

/-- Lists that agree where a merge looks at them end there both, or have the same codes, and then
they agree on the rest of its way. -/
lemma trail_cases {onward : Bool}
    (h : ∀ p ∈ trail onward xs ys i j, xs'[p.1]? = xs[p.1]? ∧ ys'[p.2]? = ys[p.2]?) :
    (xs.drop i = [] ∧ xs'.drop i = []) ∨ (ys.drop j = [] ∧ ys'.drop j = []) ∨
      ∃ a b, xs[i]? = some a ∧ ys[j]? = some b ∧ xs'[i]? = some a ∧ ys'[j]? = some b ∧
        ∀ p ∈ (if a < b then trail onward xs ys (i + 1) j
            else if b < a then trail onward xs ys i (j + 1)
            else if onward then trail onward xs ys (i + 1) (j + 1)
            else []), xs'[p.1]? = xs[p.1]? ∧ ys'[p.2]? = ys[p.2]? := by
  rcases end_or_codes xs ys i j with hend | ⟨a, b, ha, hb⟩
  · obtain ⟨hx, hy⟩ := h (i, j) (by simp [trail_of_end hend])
    rcases hend with hnone | hnone
    · exact .inl ⟨drop_of_getElem?_none hnone, drop_of_getElem?_none (hx.trans hnone)⟩
    · exact .inr (.inl ⟨drop_of_getElem?_none hnone, drop_of_getElem?_none (hy.trans hnone)⟩)
  · rw [trail_of_codes ha hb, List.forall_mem_cons] at h
    obtain ⟨⟨hx, hy⟩, hrest⟩ := h
    exact .inr (.inr ⟨a, b, ha, hb, hx.trans ha, hy.trans hb, hrest⟩)

lemma intersects_nil_right (as : List TypeCode) : intersects as [] = false := by
  cases as <;> rw [intersects]

/-- Whether two lists have a code in common is decided by the codes that are compared. -/
theorem intersects_congr (h : ∀ p ∈ trail false xs ys i j,
    xs'[p.1]? = xs[p.1]? ∧ ys'[p.2]? = ys[p.2]?) :
    intersects (xs'.drop i) (ys'.drop j) = intersects (xs.drop i) (ys.drop j) := by
  induction i, j using trail.induct xs ys with
  | case1 i j hleft hright hboth =>
    rcases trail_cases h with ⟨hx, hx'⟩ | ⟨hy, hy'⟩ | ⟨a, b, ha, hb, ha', hb', hrest⟩
    · rw [hx, hx', intersects, intersects]
    · rw [hy, hy', intersects_nil_right, intersects_nil_right]
    · rw [intersects_drop ha hb, intersects_drop ha' hb']
      by_cases hab : a < b
      · rw [if_pos hab] at hrest
        rw [if_pos hab, if_pos hab, hleft a b ha hb hrest]
      by_cases hba : b < a
      · rw [if_neg hab, if_pos hba] at hrest
        rw [if_neg hab, if_neg hab, if_pos hba, if_pos hba, hright a b ha hb hrest]
      · simp only [if_neg hab, if_neg hba]

/-- So is how they pair up, but for how many codes are left at the end. -/
theorem pairUpFrom_congr (hxs : xs'.length = xs.length) (hys : ys'.length = ys.length)
    (h : ∀ p ∈ trail true xs ys i j, xs'[p.1]? = xs[p.1]? ∧ ys'[p.2]? = ys[p.2]?) :
    pairUpFrom i (xs'.drop i) (ys'.drop j) = pairUpFrom i (xs.drop i) (ys.drop j) := by
  induction i, j using trail.induct xs ys with
  | case1 i j hleft hright hboth =>
    rcases trail_cases h with ⟨hx, hx'⟩ | ⟨hy, hy'⟩ | ⟨a, b, ha, hb, ha', hb', hrest⟩
    · rw [hx, hx']
      exact pairUpFrom_nil_left (by simp [hys]) i
    · rw [hy, hy']
      exact pairUpFrom_nil_right (by simp [hxs]) i
    · rw [pairUpFrom_drop ha hb, pairUpFrom_drop ha' hb']
      split_ifs with hab hba
      · rw [if_pos hab] at hrest
        rw [hleft a b ha hb hrest]
      · rw [if_neg hab, if_pos hba] at hrest
        rw [hright a b ha hb hrest]
      · rw [if_neg hab, if_neg hba, if_pos rfl] at hrest
        rw [hboth a b ha hb hrest]

/-- Their union has in addition what is left of them at the end. -/
theorem union_congr (h : ∀ p ∈ trail true xs ys i j, xs'[p.1]? = xs[p.1]? ∧ ys'[p.2]? = ys[p.2]?)
    (hrest : ∀ p ∈ (trail true xs ys i j).getLast?,
      xs'.drop p.1 = xs.drop p.1 ∧ ys'.drop p.2 = ys.drop p.2) :
    union (xs'.drop i) (ys'.drop j) = union (xs.drop i) (ys.drop j) := by
  induction i, j using trail.induct xs ys with
  | case1 i j hleft hright hboth =>
    rcases end_or_codes xs ys i j with hend | ⟨a, b, ha, hb⟩
    · obtain ⟨hx, hy⟩ := hrest (i, j) (by simp [trail_of_end hend])
      rw [hx, hy]
    · rw [trail_of_codes ha hb] at h hrest
      obtain ⟨⟨hx, hy⟩, htail⟩ := List.forall_mem_cons.mp h
      rw [union_drop ha hb, union_drop (hx.trans ha) (hy.trans hb)]
      split_ifs with hab hba
      · rw [if_pos hab] at htail hrest
        rw [getLast?_cons_trail] at hrest
        rw [hleft a b ha hb htail hrest]
      · rw [if_neg hab, if_pos hba] at htail hrest
        rw [getLast?_cons_trail] at hrest
        rw [hright a b ha hb htail hrest]
      · rw [if_neg hab, if_neg hba, if_pos rfl] at htail hrest
        rw [getLast?_cons_trail] at hrest
        rw [hboth a b ha hb htail hrest]

end Merge

section Search
variable {onward : Bool} {xs xs' ts : List TypeCode} {t a : TypeCode} {i : Nat}

lemma scan_of_end (h : xs[i]? = none) :
    scan onward xs (t :: ts) i = i :: if onward then scan onward xs ts i else [] := by
  rw [scan]
  split
  next => rfl
  next a ha => simp [h] at ha

lemma scan_of_code (h : xs[i]? = some a) : scan onward xs (t :: ts) i = i ::
    if a < t then scan onward xs (t :: ts) (i + 1)
    else if a = t || onward then scan onward xs ts i
    else [] := by
  rw [scan]
  split
  next hnone => simp [h] at hnone
  next a' ha =>
    obtain rfl := Option.some.inj (h.symm.trans ha)
    rfl

/-- Lists that agree where a search looks at them end there both, or have the same code, and then
they agree on the rest of its way. -/
lemma scan_cases (h : ∀ p ∈ scan onward xs (t :: ts) i, xs'[p]? = xs[p]?) :
    (xs.drop i = [] ∧ xs'.drop i = []) ∨ ∃ a, xs[i]? = some a ∧ xs'[i]? = some a ∧
      ∀ p ∈ (if a < t then scan onward xs (t :: ts) (i + 1)
          else if a = t || onward then scan onward xs ts i
          else []), xs'[p]? = xs[p]? := by
  cases ha : xs[i]? with
  | none =>
    have hx := h i (by simp [scan_of_end ha])
    exact .inl ⟨drop_of_getElem?_none ha, drop_of_getElem?_none (hx.trans ha)⟩
  | some a =>
    rw [scan_of_code ha] at h
    obtain ⟨hx, hrest⟩ := List.forall_mem_cons.mp h
    exact .inr ⟨a, rfl, hx.trans ha, hrest⟩

lemma includesAll_drop (h : xs[i]? = some a) : includesAll (xs.drop i) (t :: ts) =
    if a < t then includesAll (xs.drop (i + 1)) (t :: ts)
    else decide (a = t) && includesAll (xs.drop i) ts := by
  rw [drop_of_getElem? h]
  by_cases hat : a < t
  · simp [includesAll, hat]
  · simp [includesAll, hat]

lemma difference_drop (h : xs[i]? = some a) : difference (t :: ts) (xs.drop i) =
    if a < t then difference (t :: ts) (xs.drop (i + 1))
    else if a = t then difference ts (xs.drop i)
    else t :: difference ts (xs.drop i) := by
  rw [drop_of_getElem? h]
  by_cases hat : a < t
  · simp [difference, hat]
  · simp [difference, hat]

lemma indicesFrom_drop (h : xs[i]? = some a) : indicesFrom i (xs.drop i) (t :: ts) =
    if a < t then indicesFrom (i + 1) (xs.drop (i + 1)) (t :: ts)
    else if a = t then (indicesFrom i (xs.drop i) ts).map (i :: ·)
    else none := by
  rw [drop_of_getElem? h]
  by_cases hat : a < t
  · simp [indicesFrom, hat, Nat.add_assoc, Nat.add_comm 1]
  · simp [indicesFrom, hat]

/-- Whether a list has all codes of another is decided by the codes that are looked at. -/
theorem includesAll_congr (h : ∀ p ∈ scan false xs ts i, xs'[p]? = xs[p]?) :
    includesAll (xs'.drop i) ts = includesAll (xs.drop i) ts := by
  induction ts, i using scan.induct xs with
  | case1 i => rw [includesAll, includesAll]
  | case2 t ts i _ hpass hfound =>
    rcases scan_cases h with ⟨hx, hx'⟩ | ⟨a, ha, ha', htail⟩
    · rw [hx, hx']
    · rw [includesAll_drop ha, includesAll_drop ha']
      split_ifs with hat
      · rw [if_pos hat] at htail
        exact hpass a ha htail
      · by_cases heq : a = t
        · rw [if_neg hat, if_pos (by simp [heq])] at htail
          rw [hfound a ha htail]
        · simp [heq]

theorem difference_congr (h : ∀ p ∈ scan true xs ts i, xs'[p]? = xs[p]?) :
    difference ts (xs'.drop i) = difference ts (xs.drop i) := by
  induction ts, i using scan.induct xs with
  | case1 i => rw [difference, difference]
  | case2 t ts i _ hpass hfound =>
    rcases scan_cases h with ⟨hx, hx'⟩ | ⟨a, ha, ha', htail⟩
    · rw [hx, hx']
    · rw [difference_drop ha, difference_drop ha']
      by_cases hat : a < t
      · rw [if_pos hat] at htail
        rw [if_pos hat, if_pos hat, hpass a ha htail]
      · rw [if_neg hat, if_pos (by simp)] at htail
        rw [if_neg hat, if_neg hat, hfound a ha htail]

theorem indicesFrom_congr (h : ∀ p ∈ scan false xs ts i, xs'[p]? = xs[p]?) :
    indicesFrom i (xs'.drop i) ts = indicesFrom i (xs.drop i) ts := by
  induction ts, i using scan.induct xs with
  | case1 i => rw [indicesFrom, indicesFrom]
  | case2 t ts i _ hpass hfound =>
    rcases scan_cases h with ⟨hx, hx'⟩ | ⟨a, ha, ha', htail⟩
    · rw [hx, hx']
    · rw [indicesFrom_drop ha, indicesFrom_drop ha']
      split_ifs with hat heq
      · rw [if_pos hat] at htail
        exact hpass a ha htail
      · rw [if_neg hat, if_pos (by simp [heq])] at htail
        rw [hfound a ha htail]
      · rfl

end Search

end EntityStore.Ascending
