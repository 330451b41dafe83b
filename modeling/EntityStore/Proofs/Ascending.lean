import Mathlib
import EntityStore.TypeCode.Ascending

/-!
# Ascending lists are sets

`validate` accepts exactly the strictly ascending lists without the handle type. On such lists the
single-pass `union` and `difference` are the set operations of their names, and their lengths tell
whether they changed anything. A search by halves keeps the codes on its left below the one it looks
for and those on its right above, so it ends where the code stands or where it can be put.
-/
namespace EntityStore

namespace TypeCode

lemma lt_irrefl (a : TypeCode) : ¬ a < a := Nat.lt_irrefl a.raw

lemma lt_trans {a b c : TypeCode} (h : a < b) (g : b < c) : a < c := Nat.lt_trans h g

lemma ne_of_lt {a b : TypeCode} (h : a < b) : a ≠ b := fun e => lt_irrefl b (e ▸ h)

lemma eq_of_not_lt {a b : TypeCode} (h : ¬ a < b) (g : ¬ b < a) : a = b := by
  rw [lt_def] at h g
  exact ext_raw (by omega)

instance : Std.Irrefl fun a b : TypeCode => a < b := ⟨lt_irrefl⟩

instance : Std.Antisymm fun a b : TypeCode => a < b :=
  ⟨fun a _ h g => absurd (lt_trans h g) (lt_irrefl a)⟩

end TypeCode

namespace Ascending
open TypeCode

lemma checkOrder_eq_ok {ts : List TypeCode} : checkOrder ts = .ok () ↔ ts.Pairwise (· < ·) := by
  fun_induction checkOrder ts with
  | case1 a rest => simp [TypeCode.lt_irrefl]
  | case2 a b rest hne hlt =>
    simp only [List.pairwise_cons, reduceCtorEq, false_iff]
    intro h
    exact TypeCode.lt_irrefl a (TypeCode.lt_trans (h.1 b (by simp)) hlt)
  | case3 a b rest hne hlt ih =>
    rw [ih, List.pairwise_cons (a := a)]
    have hab : a < b := by
      by_contra hab
      exact hne (eq_of_not_lt hab hlt)
    constructor
    · intro h
      refine ⟨fun c hc => ?_, h⟩
      rcases List.mem_cons.mp hc with rfl | hc
      · exact hab
      · exact TypeCode.lt_trans hab ((List.pairwise_cons.mp h).1 c hc)
    · exact fun h => h.2
  | case4 ts hts =>
    match ts, hts with
    | [], _ => simp
    | [a], _ => simp
    | a :: b :: rest, hts => exact (hts a b rest rfl).elim

lemma checkOrder_eq_error {ts : List TypeCode} {f : Fault} (h : checkOrder ts = .error f) :
    ∃ a b, f = .invalidArgument (.duplicate a) ∨ f = .invalidArgument (.unsorted a b) := by
  induction ts using checkOrder.induct with
  | case1 a rest =>
    rw [checkOrder, if_pos rfl] at h
    exact ⟨a, a, .inl (Except.error.inj h).symm⟩
  | case2 a b rest hne hlt =>
    rw [checkOrder, if_neg hne, if_pos hlt] at h
    exact ⟨a, b, .inr (Except.error.inj h).symm⟩
  | case3 a b rest hne hlt ih =>
    rw [checkOrder, if_neg hne, if_neg hlt] at h
    exact ih h
  | case4 ts hts =>
    rw [checkOrder.eq_2 _ hts] at h
    cases h

theorem validate_eq_ok {ts : List TypeCode} :
    validate ts = .ok () ↔ TypeCode.entity ∉ ts ∧ ts.Pairwise (· < ·) := by
  unfold validate
  split_ifs with h
  · simp [h]
  · simp [h, checkOrder_eq_ok]

lemma pairwise_cons_entity {ts : List TypeCode} (he : TypeCode.entity ∉ ts)
    (hts : ts.Pairwise (· < ·)) : (TypeCode.entity :: ts).Pairwise (· < ·) := by
  refine List.pairwise_cons.mpr ⟨fun t ht => Nat.pos_of_ne_zero fun hzero => he ?_, hts⟩
  rwa [← TypeCode.ext_raw (a := t) (b := .entity) hzero]

lemma validate_eq_error {ts : List TypeCode} {f : Fault} (h : validate ts = .error f) :
    f = .invalidArgument .handleType ∨
      ∃ a b, f = .invalidArgument (.duplicate a) ∨ f = .invalidArgument (.unsorted a b) := by
  unfold validate at h
  split_ifs at h
  · exact .inl (Except.error.inj h).symm
  · exact .inr (checkOrder_eq_error h)

/-- Whatever the order of the lists, their union has the codes of both. -/
theorem mem_union {as bs : List TypeCode} {t : TypeCode} :
    t ∈ union as bs ↔ t ∈ as ∨ t ∈ bs := by
  fun_induction union as bs with
  | case1 bs => simp
  | case2 a as => simp
  | case3 a as b bs hab ih => simp [ih, or_assoc]
  | case4 a as b bs hab hba ih => simp [ih]; tauto
  | case5 a as b bs hab hba ih =>
    have he := eq_of_not_lt hab hba
    subst he
    simp [ih]
    tauto

theorem pairwise_union {as bs : List TypeCode} (ha : as.Pairwise (· < ·))
    (hb : bs.Pairwise (· < ·)) : (union as bs).Pairwise (· < ·) := by
  fun_induction union as bs with
  | case1 bs => exact hb
  | case2 a as => exact ha
  | case3 a as b bs hab ih =>
    have ha' := List.pairwise_cons.mp ha
    refine List.pairwise_cons.mpr ⟨fun c hc => ?_, ih ha'.2 hb⟩
    rcases mem_union.mp hc with hc | hc
    · exact ha'.1 c hc
    · rcases List.mem_cons.mp hc with rfl | hc
      · exact hab
      · exact TypeCode.lt_trans hab ((List.pairwise_cons.mp hb).1 c hc)
  | case4 a as b bs hab hba ih =>
    have hb' := List.pairwise_cons.mp hb
    refine List.pairwise_cons.mpr ⟨fun c hc => ?_, ih ha hb'.2⟩
    rcases mem_union.mp hc with hc | hc
    · rcases List.mem_cons.mp hc with rfl | hc
      · exact hba
      · exact TypeCode.lt_trans hba ((List.pairwise_cons.mp ha).1 c hc)
    · exact hb'.1 c hc
  | case5 a as b bs hab hba ih =>
    have he := eq_of_not_lt hab hba
    subst he
    have ha' := List.pairwise_cons.mp ha
    have hb' := List.pairwise_cons.mp hb
    refine List.pairwise_cons.mpr ⟨fun c hc => ?_, ih ha'.2 hb'.2⟩
    exact (mem_union.mp hc).elim (ha'.1 c) (hb'.1 c)

lemma sublist_union (as bs : List TypeCode) : as.Sublist (union as bs) := by
  fun_induction union as bs with
  | case1 bs => simp
  | case2 a as => simp
  | case3 a as b bs hab ih => exact ih.cons_cons a
  | case4 a as b bs hab hba ih => exact ih.cons b
  | case5 a as b bs hab hba ih => exact ih.cons_cons a

/-- A union no longer than its first part is that part. -/
theorem union_of_length (as bs : List TypeCode) (h : (union as bs).length = as.length) :
    union as bs = as :=
  ((sublist_union as bs).eq_of_length h.symm).symm

lemma union_of_subset {as bs : List TypeCode} (ha : as.Pairwise (· < ·))
    (hb : bs.Pairwise (· < ·)) (h : bs ⊆ as) : union as bs = as :=
  (pairwise_union ha hb).eq_of_mem_iff ha fun t => by
    rw [mem_union, or_iff_left_of_imp (@h t)]

lemma dropWhile_lt_eq {a : TypeCode} {bs : List TypeCode} (hb : bs.Pairwise (· < ·)) :
    bs.dropWhile (· < a) = bs.filter (¬ · < a) := by
  induction bs with
  | nil => simp
  | cons b bs ih =>
    have hb' := List.pairwise_cons.mp hb
    by_cases hba : b < a
    · simp [hba, ih hb'.2]
    · have hall : ∀ c ∈ bs, ¬ c < a := fun c hc hca => hba (TypeCode.lt_trans (hb'.1 c hc) hca)
      have hself : bs.filter (¬ · < a) = bs :=
        List.filter_eq_self.mpr fun c hc => by simpa using hall c hc
      simpa [hba] using hself.symm

/-- On an ascending list the code looked for is first behind those below it, or nowhere. -/
lemma head_dropWhile_lt {a : TypeCode} {bs : List TypeCode} (hb : bs.Pairwise (· < ·)) :
    (bs.dropWhile (· < a)).head? = some a ↔ a ∈ bs := by
  rw [dropWhile_lt_eq hb]
  constructor
  · intro h
    exact (List.mem_filter.mp (List.mem_of_mem_head? h)).1
  · intro h
    have hm : a ∈ bs.filter (¬ · < a) := by simp [h, TypeCode.lt_irrefl]
    have hp : (bs.filter (¬ · < a)).Pairwise (· < ·) := hb.filter _
    have hge : ∀ c ∈ bs.filter (¬ · < a), ¬ c < a := fun c hc => by
      simpa using (List.mem_filter.mp hc).2
    generalize bs.filter (¬ · < a) = cs at hm hp hge ⊢
    cases cs with
    | nil => simp at hm
    | cons c cs =>
      have hc := hge c (by simp)
      rcases List.mem_cons.mp hm with rfl | hm
      · rfl
      · exact (hc ((List.pairwise_cons.mp hp).1 a hm)).elim

lemma mem_dropWhile_lt {a t : TypeCode} {bs : List TypeCode} (hb : bs.Pairwise (· < ·)) :
    t ∈ bs.dropWhile (· < a) ↔ t ∈ bs ∧ ¬ t < a := by
  rw [dropWhile_lt_eq hb]
  simp

theorem includesAll_iff {as bs : List TypeCode} (ha : as.Pairwise (· < ·))
    (hb : bs.Pairwise (· < ·)) : includesAll as bs = true ↔ ∀ t ∈ bs, t ∈ as := by
  induction bs generalizing as with
  | nil => simp [includesAll]
  | cons b bs ih =>
    obtain ⟨hlt, hbs⟩ := List.pairwise_cons.mp hb
    have hrest : (as.dropWhile (· < b)).Pairwise (· < ·) := ha.sublist (List.dropWhile_sublist _)
    have hlater : (∀ t ∈ bs, t ∈ as.dropWhile (· < b)) ↔ ∀ t ∈ bs, t ∈ as :=
      forall₂_congr fun t ht => by
        rw [mem_dropWhile_lt ha]
        exact and_iff_left fun h => TypeCode.lt_irrefl t (TypeCode.lt_trans h (hlt t ht))
    simp only [includesAll, Bool.and_eq_true, decide_eq_true_eq, head_dropWhile_lt ha,
      ih hrest hbs, hlater, List.forall_mem_cons]

lemma not_mem_of_lt {a b : TypeCode} {bs : List TypeCode} (hb : (b :: bs).Pairwise (· < ·))
    (hab : a < b) : a ∉ b :: bs := by
  intro hmem
  rcases List.mem_cons.mp hmem with rfl | hmem
  · exact TypeCode.lt_irrefl a hab
  · exact TypeCode.lt_irrefl a (TypeCode.lt_trans hab ((List.pairwise_cons.mp hb).1 a hmem))

theorem intersects_iff {as bs : List TypeCode} (ha : as.Pairwise (· < ·))
    (hb : bs.Pairwise (· < ·)) : intersects as bs = true ↔ ∃ t ∈ as, t ∈ bs := by
  fun_induction intersects as bs with
  | case1 => simp
  | case2 => simp
  | case3 a as b bs hab ih =>
    rw [ih (List.pairwise_cons.mp ha).2 hb, List.exists_mem_cons_iff,
      or_iff_right (not_mem_of_lt hb hab)]
  | case4 a as b bs hab hba ih =>
    rw [ih ha (List.pairwise_cons.mp hb).2]
    refine exists_congr fun t => and_congr_right fun ht => ?_
    rw [List.mem_cons, or_iff_right]
    rintro rfl
    exact not_mem_of_lt ha hba ht
  | case5 a as b bs hab hba =>
    obtain rfl := TypeCode.eq_of_not_lt hab hba
    simp

theorem mem_difference {as bs : List TypeCode} {t : TypeCode} (ha : as.Pairwise (· < ·))
    (hb : bs.Pairwise (· < ·)) : t ∈ difference as bs ↔ t ∈ as ∧ t ∉ bs := by
  induction as generalizing bs with
  | nil => simp [difference]
  | cons a as ih =>
    have ha' := List.pairwise_cons.mp ha
    have hr : (bs.dropWhile (· < a)).Pairwise (· < ·) := by
      rw [dropWhile_lt_eq hb]
      exact hb.filter _
    -- behind `a` only codes above `a` are looked for
    have hmem : ∀ c, a < c → (c ∈ bs.dropWhile (· < a) ↔ c ∈ bs) := by
      intro c hc
      rw [dropWhile_lt_eq hb]
      have : ¬ c < a := fun h => TypeCode.lt_irrefl a (TypeCode.lt_trans hc h)
      simp [this]
    simp only [difference, head_dropWhile_lt hb]
    split_ifs with h
    · rw [ih ha'.2 hr]
      constructor
      · rintro ⟨h1, h2⟩
        exact ⟨List.mem_cons_of_mem a h1, (hmem t (ha'.1 t h1)).not.mp h2⟩
      · rintro ⟨h1, h2⟩
        rcases List.mem_cons.mp h1 with rfl | h1
        · exact (h2 h).elim
        · exact ⟨h1, (hmem t (ha'.1 t h1)).not.mpr h2⟩
    · rw [List.mem_cons, ih ha'.2 hr]
      constructor
      · rintro (rfl | ⟨h1, h2⟩)
        · exact ⟨by simp, h⟩
        · exact ⟨List.mem_cons_of_mem a h1, (hmem t (ha'.1 t h1)).not.mp h2⟩
      · rintro ⟨h1, h2⟩
        rcases List.mem_cons.mp h1 with rfl | h1
        · exact Or.inl rfl
        · exact Or.inr ⟨h1, (hmem t (ha'.1 t h1)).not.mpr h2⟩

lemma difference_sublist (as bs : List TypeCode) : (difference as bs).Sublist as := by
  induction as generalizing bs with
  | nil => simp [difference]
  | cons a as ih =>
    simp only [difference]
    split_ifs
    · exact (ih _).cons a
    · exact (ih _).cons_cons a

theorem pairwise_difference {as : List TypeCode} (bs : List TypeCode)
    (ha : as.Pairwise (· < ·)) : (difference as bs).Pairwise (· < ·) :=
  ha.sublist (difference_sublist as bs)

theorem difference_of_length (as bs : List TypeCode)
    (h : (difference as bs).length = as.length) : difference as bs = as :=
  (difference_sublist as bs).eq_of_length h

lemma difference_of_disjoint {as bs : List TypeCode} (ha : as.Pairwise (· < ·))
    (hb : bs.Pairwise (· < ·)) (h : ∀ t ∈ bs, t ∉ as) : difference as bs = as :=
  (pairwise_difference bs ha).eq_of_mem_iff ha fun t => by
    rw [mem_difference ha hb, and_iff_left_of_imp fun hmem ht => h t ht hmem]

theorem length_union_iff {as bs : List TypeCode} (ha : as.Pairwise (· < ·))
    (hb : bs.Pairwise (· < ·)) : (union as bs).length = as.length ↔ bs ⊆ as := by
  constructor
  · intro h t ht
    rw [← union_of_length as bs h, mem_union]
    exact .inr ht
  · intro h
    rw [union_of_subset ha hb h]

theorem length_difference_iff {as bs : List TypeCode} (ha : as.Pairwise (· < ·))
    (hb : bs.Pairwise (· < ·)) : (difference as bs).length = as.length ↔ as.Disjoint bs := by
  rw [List.disjoint_left]
  constructor
  · intro h t ht
    rw [← difference_of_length as bs h, mem_difference ha hb] at ht
    exact ht.2
  · intro h
    rw [difference_of_disjoint ha hb fun t ht hmem => h hmem ht]

lemma isSome_indicesFrom (i : Nat) (as bs : List TypeCode) :
    (indicesFrom i as bs).isSome = includesAll as bs := by
  induction bs generalizing i as with
  | nil => rfl
  | cons b bs ih =>
    simp only [indicesFrom, includesAll]
    split_ifs with h
    · simp [h, ih]
    · simp [h]

/-- In the list whose part from position `i` on is searched, the positions are those of the
codes. -/
lemma indicesFrom_spec {full as bs : List TypeCode} {i : Nat} {is : List Nat}
    (has : full.drop i = as) (his : indicesFrom i as bs = some is) :
    is.map (full[·]?) = bs.map some := by
  induction bs generalizing i as is with
  | nil =>
    obtain rfl : [] = is := Option.some.inj his
    rfl
  | cons b bs ih =>
    have hrest : full.drop (i + (as.takeWhile (· < b)).length) = as.dropWhile (· < b) := by
      rw [← List.drop_drop, has]
      calc as.drop (as.takeWhile (· < b)).length
          = (as.takeWhile (· < b) ++ as.dropWhile (· < b)).drop (as.takeWhile (· < b)).length := by
            rw [List.takeWhile_append_dropWhile]
        _ = as.dropWhile (· < b) := List.drop_left
    simp only [indicesFrom] at his
    split_ifs at his with h
    obtain ⟨js, hjs, rfl⟩ := Option.map_eq_some_iff.mp his
    rw [List.map_cons, List.map_cons, ih hrest hjs, ← List.head?_drop, hrest, h]

/-- The codes in front of position `i` are below a code, those from position `j` on above it. -/
def Between (ts : List TypeCode) (t : TypeCode) (i j : Nat) : Prop :=
  ∀ p a, ts[p]? = some a → (p < i → a < t) ∧ (j ≤ p → t < a)

section Search
variable {ts : List TypeCode} {t : TypeCode} {i n p : Nat}

lemma lt_of_lt (h : ts.Pairwise (· < ·)) {p q : Nat} {a b : TypeCode} (ha : ts[p]? = some a)
    (hb : ts[q]? = some b) (hpq : p < q) : a < b := by
  obtain ⟨hp, rfl⟩ := List.getElem?_eq_some_iff.mp ha
  obtain ⟨hq, rfl⟩ := List.getElem?_eq_some_iff.mp hb
  exact List.pairwise_iff_getElem.mp h p q hp hq hpq

lemma getElem?_of_searchFrom (h : searchFrom ts t i n = .ok p) : ts[p]? = some t := by
  fun_induction searchFrom ts t i n with
  | case1 i => cases h
  | case2 i n hpos hnone => cases h
  | case3 i n hpos a ha hlt ih => exact ih h
  | case4 i n hpos a ha hnot hlt ih => exact ih h
  | case5 i n hpos a ha hnot hnot' =>
    rw [← Except.ok.inj h, ha, TypeCode.eq_of_not_lt hnot hnot']

/-- What is found stands there, whether or not the list ascends. -/
lemma getElem?_of_search (h : search ts t = .ok p) : ts[p]? = some t := getElem?_of_searchFrom h

/-- The part that is searched shrinks around the place of the code. -/
lemma between_of_searchFrom (h : ts.Pairwise (· < ·)) (hn : i + n ≤ ts.length)
    (hb : Between ts t i (i + n)) (hs : searchFrom ts t i n = .error p) :
    p ≤ ts.length ∧ Between ts t p p := by
  fun_induction searchFrom ts t i n with
  | case1 i =>
    obtain rfl := Except.error.inj hs
    exact ⟨hn, hb⟩
  | case2 i n hpos hnone =>
    have := List.getElem?_eq_none_iff.mp hnone
    omega
  | case3 i n hpos a ha hlt ih =>
    have hmid : i + n / 2 + 1 + (n - n / 2 - 1) = i + n := by omega
    rw [hmid] at ih
    refine ih hn (fun p b hp => ⟨fun hle => ?_, (hb p b hp).2⟩) hs
    rcases Nat.lt_succ_iff_lt_or_eq.mp hle with hpi | rfl
    · exact TypeCode.lt_trans (lt_of_lt h hp ha hpi) hlt
    · rwa [Option.some.inj (hp.symm.trans ha)]
  | case4 i n hpos a ha hnot hlt ih =>
    refine ih (by omega) (fun p b hp => ⟨(hb p b hp).1, fun hle => ?_⟩) hs
    rcases Nat.eq_or_lt_of_le hle with rfl | hip
    · rwa [Option.some.inj (hp.symm.trans ha)]
    · exact TypeCode.lt_trans hlt (lt_of_lt h ha hp hip)
  | case5 i n hpos a ha hnot hnot' => cases hs

/-- What is not found would have to be put where the search ends. -/
lemma between_of_search (h : ts.Pairwise (· < ·)) (hs : search ts t = .error p) :
    p ≤ ts.length ∧ Between ts t p p := by
  refine between_of_searchFrom h (by omega) (fun p a hp => ?_) hs
  have hlt := (List.getElem?_eq_some_iff.mp hp).1
  exact ⟨fun hneg => by omega, fun hle => by omega⟩

lemma Between.not_mem (h : Between ts t i i) : t ∉ ts := by
  intro hmem
  obtain ⟨p, hp⟩ := List.mem_iff_getElem?.mp hmem
  rcases Nat.lt_or_ge p i with hlt | hle
  · exact TypeCode.lt_irrefl t ((h p t hp).1 hlt)
  · exact TypeCode.lt_irrefl t ((h p t hp).2 hle)

/-- In an ascending list a search by halves finds what a look at every code finds. -/
theorem toOption_search (h : ts.Pairwise (· < ·)) (t : TypeCode) :
    (search ts t).toOption = ts.idxOf? t := by
  cases hs : search ts t with
  | ok p =>
    obtain ⟨hlt, hp⟩ := List.getElem?_eq_some_iff.mp (getElem?_of_search hs)
    refine (List.idxOf?_eq_some_iff.mpr ⟨hlt, hp, fun q hq heq => ?_⟩).symm
    exact TypeCode.ne_of_lt (List.pairwise_iff_getElem.mp h q p _ hlt hq) (heq.trans hp.symm)
  | error p => exact (List.idxOf?_eq_none_iff.mpr (between_of_search h hs).2.not_mem).symm

end Search

lemma idxOf?_cons_of_ne {a t : TypeCode} (h : a ≠ t) (as : List TypeCode) :
    (a :: as).idxOf? t = (as.idxOf? t).map (· + 1) := by
  simp [List.idxOf?_cons, h]

lemma map_idxOf?_cons {a : TypeCode} {cs : List TypeCode} (h : ∀ c ∈ cs, a < c)
    (as : List TypeCode) (i : Nat) :
    cs.map (fun t => ((a :: as).idxOf? t).map (i + ·)) =
      cs.map fun t => (as.idxOf? t).map (i + 1 + ·) := by
  refine List.map_congr_left fun c hc => ?_
  rw [idxOf?_cons_of_ne (TypeCode.ne_of_lt (h c hc)), Option.map_map]
  exact congrArg (as.idxOf? c).map (funext fun n => by simp only [Function.comp_apply]; omega)

lemma filter_not_mem_cons {as : List TypeCode} {b : TypeCode} (h : b ∉ as) (bs : List TypeCode)
    (i : Nat) : ((as.zipIdx i).filter fun x => x.1 ∉ b :: bs) =
      (as.zipIdx i).filter fun x => x.1 ∉ bs := by
  refine List.filter_congr fun x hx => ?_
  have hne : x.1 ≠ b := by
    rintro rfl
    exact h (List.fst_mem_of_mem_zipIdx hx)
  simp [hne]

/-- One pass over ascending lists pairs up what a look at every code does. -/
theorem pairUpFrom_eq {as bs : List TypeCode} (ha : as.Pairwise (· < ·))
    (hb : bs.Pairwise (· < ·)) (i : Nat) :
    (pairUpFrom i as bs).partners = bs.map (fun t => (as.idxOf? t).map (i + ·)) ∧
      (pairUpFrom i as bs).alone = ((as.zipIdx i).filter fun x => x.1 ∉ bs).map Prod.snd := by
  fun_induction pairUpFrom i as bs with
  | case1 i => exact ⟨rfl, rfl⟩
  | case2 i a as ih =>
    obtain ⟨hpartners, halone⟩ := ih (List.pairwise_cons.mp ha).2 hb
    refine ⟨hpartners, ?_⟩
    rw [Pairing.single, halone]
    simp
  | case3 i b bs ih =>
    obtain ⟨hpartners, halone⟩ := ih ha (List.pairwise_cons.mp hb).2
    refine ⟨?_, halone⟩
    rw [Pairing.partner, hpartners]
    rfl
  | case4 i a as b bs hab ih =>
    -- `a` is below all of the second list, so none of these stands where `a` does
    have hall : ∀ c ∈ b :: bs, a < c := by
      intro c hc
      rcases List.mem_cons.mp hc with rfl | hc
      · exact hab
      · exact TypeCode.lt_trans hab ((List.pairwise_cons.mp hb).1 c hc)
    obtain ⟨hpartners, halone⟩ := ih (List.pairwise_cons.mp ha).2 hb
    refine ⟨hpartners.trans (map_idxOf?_cons hall as i).symm, ?_⟩
    have hnot : a ∉ b :: bs := not_mem_of_lt hb hab
    rw [Pairing.single, halone, List.zipIdx_cons, List.filter_cons_of_pos (by simpa using hnot)]
    rfl
  | case5 i a as b bs hab hba ih =>
    obtain ⟨hpartners, halone⟩ := ih ha (List.pairwise_cons.mp hb).2
    have hnot : b ∉ a :: as := not_mem_of_lt ha hba
    refine ⟨?_, ?_⟩
    · rw [Pairing.partner, hpartners, List.map_cons, List.idxOf?_eq_none_iff.mpr hnot]
      rfl
    · rw [Pairing.partner, halone, filter_not_mem_cons hnot]
  | case6 i a as b bs hab hba ih =>
    obtain rfl := TypeCode.eq_of_not_lt hab hba
    have ha' := List.pairwise_cons.mp ha
    have hb' := List.pairwise_cons.mp hb
    have hnot : a ∉ as := fun hmem => TypeCode.lt_irrefl a (ha'.1 a hmem)
    obtain ⟨hpartners, halone⟩ := ih ha'.2 hb'.2
    refine ⟨?_, ?_⟩
    · rw [Pairing.partner, hpartners, List.map_cons, map_idxOf?_cons hb'.1]
      simp [List.idxOf?_cons]
    · rw [Pairing.partner, halone, List.zipIdx_cons, List.filter_cons_of_neg (by simp),
        filter_not_mem_cons hnot]

lemma difference_union {as bs : List TypeCode} (ha : as.Pairwise (· < ·))
    (hb : bs.Pairwise (· < ·)) (h : ∀ t ∈ bs, t ∉ as) : difference (union as bs) bs = as := by
  have hunion := pairwise_union ha hb
  refine (pairwise_difference bs hunion).eq_of_mem_iff ha fun t => ?_
  rw [mem_difference hunion hb, mem_union]
  constructor
  · rintro ⟨hmem | hmem, hnot⟩
    · exact hmem
    · exact absurd hmem hnot
  · exact fun hmem => ⟨.inl hmem, fun ht => h t ht hmem⟩

end Ascending

end EntityStore
