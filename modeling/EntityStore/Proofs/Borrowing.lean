import Mathlib
import EntityStore.Proofs.ColumnWrites
import EntityStore.Proofs.DenseRows
import EntityStore.Proofs.Ranges

/-!
# Borrowed columns do not overlap

Requests for the columns of a chunk are answered one after the other. The marks say at any time what
was granted so far, so that a column is granted exactly if the archetype has it, as what it is asked
for, and nothing granted stands against it. A request that is refused leaves no trace. What was
granted for writing has no byte in common with anything else that was granted.
-/
namespace EntityStore

structure Layout.Headed (l : Layout) : Prop where
  first : l.codes[0]? = some .entity
  ascending : l.codes.Pairwise (· < ·)

namespace Layout.Headed
variable {l : Layout} {t : TypeCode} {k : Kind} {j : Nat}

lemma indexOf_eq_some (h : l.Headed) : l.indexOf t = some j ↔ l.codes[j]? = some t :=
  Layout.indexOf_eq_some h.ascending

lemma columnAs_eq_some (h : l.Headed) :
    View.columnAs l k t = some j ↔ l.columns[j]? = some ⟨t, k⟩ := by
  rw [View.columnAs, Option.filter_eq_some_iff, decide_eq_true_iff, h.indexOf_eq_some, Layout.codes,
    Layout.kinds, List.getElem?_map, List.getElem?_map]
  cases l.columns[j]? with
  | none => simp
  | some c =>
    obtain ⟨code, kind⟩ := c
    simp

lemma index_eq_zero (h : l.Headed) (hj : l.indexOf t = some j) : j = 0 ↔ t = .entity := by
  have hfirst := h.indexOf_eq_some.mpr h.first
  constructor
  · rintro rfl
    exact Layout.indexOf_inj hj hfirst
  · rintro rfl
    exact Option.some.inj (hj.symm.trans hfirst)

end Layout.Headed

namespace Archetype
variable {a : Archetype}

lemma headed_of_new {id : Nat} {columns : List Registration} {settings : Settings}
    (h : Archetype.new id columns settings = .ok a) : a.layout.Headed := by
  obtain ⟨-, -, hvalid, -⟩ := new_eq_ok h
  obtain ⟨hentity, hsignature⟩ := Ascending.validate_eq_ok.mp hvalid
  have hcodes : a.layout.codes = .entity :: a.signature := codes_of_new h
  refine ⟨by rw [hcodes, List.getElem?_cons_zero], ?_⟩
  rw [hcodes]
  exact Ascending.pairwise_cons_entity hentity hsignature

theorem Reached.headed (ha : a.Reached) : a.layout.Headed := by
  induction ha with
  | new h => exact headed_of_new h
  | @stored s id a hs ha =>
    obtain ⟨columns, -, hn⟩ := hs.healthy.sound.catalogue.drafted id a ha
    exact headed_of_new (a := a.blank) hn
  | served ha p version hr ih =>
    rw [(ha.packed.serve hr).2.2]
    exact ih
  | modified ha hb ih =>
    rw [layout_of_blank (modifyCell_spec ha.packed hb).2.2]
    exact ih
  | edited _ _ _ ih => exact ih
  | borrowed _ _ _ _ ih => exact ih

end Archetype

def View.afterEdit (v : View) (j : Nat) (e : Option Edit) (version : UInt32) : View :=
  ⟨v.layout, e.elim v.chunk fun e => v.chunk.editColumn j e version⟩

namespace View
variable {v : View} {j : Nat} {k : Kind} {t : TypeCode} {e : Option Edit}

lemma Fits.afterEdit (h : v.Fits) (hk : v.layout.kinds[j]? = some k) (hj : e.isSome = true → j ≠ 0)
    (version : UInt32) : (v.afterEdit j e version).Fits := by
  cases e with
  | none => exact h
  | some e =>
    obtain ⟨i, rfl⟩ := Nat.exists_eq_succ_of_ne_zero (hj rfl)
    have hrewritten := Chunk.rewritten_editColumn h.shaped hk e version
    exact ⟨hrewritten.shaped h.shaped, hrewritten.length.trans_le h.room⟩

lemma Fits.version_afterEdit (h : v.Fits) (hj : v.layout.indexOf t = some j) (version : UInt32)
    (s : TypeCode) : (v.afterEdit j e version).version s =
      if e.isSome = true ∧ t = s then some version else v.version s := by
  cases e with
  | none => simp [View.afterEdit]
  | some e =>
    have hstamp : j < v.chunk.stamps.length := by
      rw [h.shaped.stamps]
      exact Layout.indexOf_lt hj
    simp only [View.version, View.afterEdit, Option.elim_some, Chunk.editColumn, Chunk.stamp,
      Option.isSome_some, true_and]
    by_cases ht : t = s
    · subst ht
      rw [if_pos rfl, hj, Option.bind_some, List.getElem?_set_self hstamp]
    · rw [if_neg ht]
      refine Option.bind_congr fun i hi => List.getElem?_set_ne fun hij => ht ?_
      exact Layout.indexOf_inj (hij ▸ hj) hi

end View

namespace Borrows

abbrev Log := List (Request × Option (List Value))

/-- The column of a type was granted, for writing or for reading. -/
def Log.Held (log : Log) (writing : Bool) (t : TypeCode) : Prop :=
  ∃ q vs, (q, some vs) ∈ log ∧ q.code = t ∧ q.edit.isSome = writing

/-- What one request comes to: the values that it sees if it is granted, those that it replaces, and
what is borrowed then. -/
def answer (b : Borrows) (q : Request) : Option (List Value) × List (Kind × Value) × Borrows :=
  match q.edit with
  | none =>
      match b.share q.kind q.code with
      | none => (none, [], b)
      | some (vs, b) => (some vs, [], b)
  | some e =>
      match b.claim q.kind q.code e with
      | none => (none, [], b)
      | some (d, b) => (some d.values, d.replaced.map (q.kind, ·), b)

/-- The layout has the column that is asked for, and nothing granted before stands against it. -/
structure Request.Permitted (l : Layout) (before : Log) (q : Request) : Prop where
  column : ⟨q.code, q.kind⟩ ∈ l.columns
  unclaimed : ¬ before.Held true q.code
  claimable : q.edit.isSome = true → q.code ≠ .entity ∧ ¬ before.Held false q.code

variable {b b' c : Borrows} {q : Request} {past : Log} {writing : Bool} {t : TypeCode} {j : Nat}

lemma Log.held_concat (past : Log) (q : Request) (o : Option (List Value)) :
    Log.Held (past ++ [(q, o)]) writing t ↔
      past.Held writing t ∨ o.isSome = true ∧ q.code = t ∧ q.edit.isSome = writing := by
  unfold Held
  constructor
  · rintro ⟨p, vs, hmem, hcode, hwriting⟩
    rcases List.mem_append.mp hmem with hmem | hmem
    · exact .inl ⟨p, vs, hmem, hcode, hwriting⟩
    · obtain ⟨rfl, rfl⟩ := Prod.mk.inj (List.mem_singleton.mp hmem)
      exact .inr ⟨rfl, hcode, hwriting⟩
  · rintro (⟨p, vs, hmem, hp⟩ | ⟨ho, hq⟩)
    · exact ⟨p, vs, List.mem_append_left _ hmem, hp⟩
    · obtain ⟨vs, rfl⟩ := Option.isSome_iff_exists.mp ho
      exact ⟨q, vs, List.mem_append_right _ (List.mem_singleton.mpr rfl), hq⟩

lemma answer_of_take (h : b.view.Fits) (hj : View.columnAs b.view.layout q.kind q.code = some j)
    (hc : b.take j q.edit.isSome = some c) : ∃ vs, (b.answer q).1 = some vs ∧
      (∀ i, (b.answer q).2.2.claimed i = c.claimed i ∧ (b.answer q).2.2.shared i = c.shared i) ∧
      (b.answer q).2.2.version = b.version ∧
      (b.answer q).2.2.view = b.view.afterEdit j q.edit b.version := by
  have hcolumn := h.column_eq (View.columnAs_eq_some hj)
  obtain ⟨hview, hversion⟩ := take_kept hc
  cases he : q.edit with
  | none =>
    rw [he] at hc
    have hshare : b.share q.kind q.code = some (b.view.chunk.column j, c) :=
      share_eq_some.mpr ⟨j, hj, hc, hcolumn⟩
    have hanswer : b.answer q = (some (b.view.chunk.column j), [], c) := by
      simp only [answer, he, hshare]
    rw [hanswer]
    exact ⟨_, rfl, fun i => ⟨rfl, rfl⟩, hversion, hview⟩
  | some e =>
    rw [he] at hc
    obtain ⟨-, hwriting, -⟩ := take_eq_some.mp hc
    have hedit : b.view.editColumn j e b.version =
        .ok ⟨b.view.chunk.editColumn j e b.version, b.view.chunk.replaced j e,
          (b.view.chunk.editColumn j e b.version).column j⟩ := by
      simp only [View.editColumn, View.writeColumn, hcolumn, if_neg (hwriting rfl).1]
    simp only [answer, he, claim_eq_some.mpr ⟨j, c, hj, hc, hedit, rfl⟩]
    exact ⟨_, rfl, fun i => ⟨rfl, rfl⟩, hversion, by rw [hview]; rfl⟩

lemma answer_of_not_take (h : ∀ j, View.columnAs b.view.layout q.kind q.code = some j →
    b.take j q.edit.isSome = none) : b.answer q = (none, [], b) := by
  unfold answer
  cases he : q.edit with
  | none =>
    cases hshare : b.share q.kind q.code with
    | none => rfl
    | some vb =>
      obtain ⟨j, hj, hc, -⟩ := share_eq_some.mp hshare
      have hnone := h j hj
      rw [he, Option.isSome_none, hc] at hnone
      cases hnone
  | some e =>
    cases hclaim : b.claim q.kind q.code e with
    | none => simp only [hclaim]
    | some db =>
      obtain ⟨j, c, hj, hc, -⟩ := claim_eq_some.mp hclaim
      have hnone := h j hj
      rw [he, Option.isSome_some, hc] at hnone
      cases hnone

/-- What was granted is what the marks and the stamps say. -/
structure Reflects (b : Borrows) (past : Log) (b' : Borrows) : Prop where
  layout : b'.view.layout = b.view.layout
  version : b'.version = b.version
  fits : b'.view.Fits
  claimed : ∀ t j, b.view.layout.indexOf t = some j → (b'.claimed j = true ↔ past.Held true t)
  shared : ∀ t j, b.view.layout.indexOf t = some j → (b'.shared j = true ↔ past.Held false t)
  restamped : ∀ t, past.Held true t → b'.view.version t = some b.version
  kept : ∀ t, ¬ past.Held true t → b'.view.version t = b.view.version t

lemma unmarked (v : View) (version : UInt32) (i : Nat) :
    ({ view := v, version } : Borrows).marks[i]?.getD false = false := by
  rw [Vector.getElem?_replicate]
  split_ifs <;> rfl

lemma reflects_start (v : View) (hv : v.Fits) (version : UInt32) :
    Reflects { view := v, version } [] { view := v, version } where
  layout := rfl
  version := rfl
  fits := hv
  claimed t j _ := by
    rw [Borrows.claimed, unmarked]
    simp [Log.Held]
  shared t j _ := by
    rw [Borrows.shared, unmarked]
    simp [Log.Held]
  restamped t h := by simp [Log.Held] at h
  kept t _ := rfl

namespace Reflects

lemma claimed_eq_false (h : Reflects b past b') (hj : b.view.layout.indexOf t = some j) :
    b'.claimed j = false ↔ ¬ past.Held true t := by
  rw [← h.claimed t j hj, Bool.not_eq_true]

lemma shared_eq_false (h : Reflects b past b') (hj : b.view.layout.indexOf t = some j) :
    b'.shared j = false ↔ ¬ past.Held false t := by
  rw [← h.shared t j hj, Bool.not_eq_true]

lemma exists_take (h : Reflects b past b') (hl : b.view.layout.Headed) :
    (∃ j c, View.columnAs b'.view.layout q.kind q.code = some j ∧
      b'.take j q.edit.isSome = some c) ↔ q.Permitted b.view.layout past := by
  constructor
  · rintro ⟨j, c, hj, hc⟩
    rw [h.layout] at hj
    have hindex := columnAs_indexOf hj
    obtain ⟨hclaimed, hwriting, -⟩ := take_eq_some.mp hc
    refine ⟨List.mem_of_getElem? (hl.columnAs_eq_some.mp hj),
      (h.claimed_eq_false hindex).mp hclaimed, fun hedit => ?_⟩
    obtain ⟨hne, hshared⟩ := hwriting hedit
    exact ⟨mt (hl.index_eq_zero hindex).mpr hne, (h.shared_eq_false hindex).mp hshared⟩
  · rintro ⟨hmem, hclaimed, hwriting⟩
    obtain ⟨j, hcolumn⟩ := List.mem_iff_getElem?.mp hmem
    have hj := hl.columnAs_eq_some.mpr hcolumn
    have hindex := columnAs_indexOf hj
    refine ⟨j, _, by rw [h.layout, hj], take_eq_some.mpr ⟨?_, fun hedit => ?_, rfl⟩⟩
    · exact (h.claimed_eq_false hindex).mpr hclaimed
    · obtain ⟨hne, hshared⟩ := hwriting hedit
      exact ⟨mt (hl.index_eq_zero hindex).mp hne, (h.shared_eq_false hindex).mpr hshared⟩

lemma refused (h : Reflects b past b') (hl : b.view.layout.Headed)
    (hq : ¬ q.Permitted b.view.layout past) : b'.answer q = (none, [], b') := by
  refine answer_of_not_take fun j hj => ?_
  by_contra htake
  obtain ⟨c, hc⟩ := Option.ne_none_iff_exists'.mp htake
  exact hq ((h.exists_take hl).mp ⟨j, c, hj, hc⟩)

lemma concat_refused (h : Reflects b past b') (q : Request) :
    Reflects b (past ++ [(q, none)]) b' := by
  have hheld : ∀ writing t, Log.Held (past ++ [(q, none)]) writing t ↔ past.Held writing t :=
    fun writing t => by simp [Log.held_concat]
  refine ⟨h.layout, h.version, h.fits, ?_, ?_, ?_, ?_⟩ <;> simp only [hheld]
  · exact h.claimed
  · exact h.shared
  · exact h.restamped
  · exact h.kept

lemma granted (h : Reflects b past b') (hl : b.view.layout.Headed)
    (hq : q.Permitted b.view.layout past) :
    ∃ vs, (b'.answer q).1 = some vs ∧ Reflects b (past ++ [(q, some vs)]) (b'.answer q).2.2 := by
  obtain ⟨j, c, hj, hc⟩ := (h.exists_take hl).mpr hq
  obtain ⟨vs, hvs, hmarks, hversion, hview⟩ := answer_of_take h.fits hj hc
  obtain ⟨-, hwriting, -⟩ := take_eq_some.mp hc
  have hlt := View.columnAs_lt hj
  have hindex : b'.view.layout.indexOf q.code = some j := columnAs_indexOf hj
  -- the marks and the stamp of one column change, which is that of one type
  have hsame : ∀ {t i}, b.view.layout.indexOf t = some i → (i = j ↔ q.code = t) := by
    intro t i hi
    rw [← h.layout] at hi
    constructor
    · rintro rfl
      exact Layout.indexOf_inj hindex hi
    · rintro rfl
      exact Option.some.inj (hi.symm.trans hindex)
  refine ⟨vs, hvs, ?_, hversion.trans h.version, ?_, fun t i hi => ?_, fun t i hi => ?_,
    fun t ht => ?_, fun t ht => ?_⟩
  · rw [hview]
    exact h.layout
  · rw [hview]
    exact h.fits.afterEdit (View.columnAs_eq_some hj) (fun hedit => (hwriting hedit).1) _
  · rw [(hmarks i).1, claimed_take hc hlt, h.claimed t i hi, Log.held_concat, hsame hi]
    simp [and_comm]
  · rw [(hmarks i).2, shared_take hc hlt, h.shared t i hi, Log.held_concat, hsame hi]
    simp [and_comm]
  · rw [hview, h.fits.version_afterEdit hindex, h.version]
    split_ifs with hedited
    · rfl
    · refine h.restamped t (((Log.held_concat _ _ _).mp ht).resolve_right fun hnow => hedited ?_)
      exact ⟨hnow.2.2, hnow.2.1⟩
  · rw [Log.held_concat, not_or] at ht
    rw [hview, h.fits.version_afterEdit hindex,
      if_neg fun hedited => ht.2 ⟨rfl, hedited.2, hedited.1⟩]
    exact h.kept t ht.1

theorem answer (h : Reflects b past b') (hl : b.view.layout.Headed) (q : Request) :
    ((b'.answer q).1.isSome = true ↔ q.Permitted b.view.layout past) ∧
      Reflects b (past ++ [(q, (b'.answer q).1)]) (b'.answer q).2.2 := by
  by_cases hq : q.Permitted b.view.layout past
  · obtain ⟨vs, hvs, hreflects⟩ := h.granted hl hq
    rw [hvs]
    exact ⟨iff_of_true rfl hq, hreflects⟩
  · rw [h.refused hl hq]
    exact ⟨iff_of_false Bool.false_ne_true hq, h.concat_refused q⟩

end Reflects

lemma serve_cons (b : Borrows) (q : Request) (rs : List Request) : b.serve (q :: rs) =
    ((b.answer q).1 :: ((b.answer q).2.2.serve rs).1,
      (b.answer q).2.1 ++ ((b.answer q).2.2.serve rs).2.1,
      ((b.answer q).2.2.serve rs).2.2) := by
  rw [serve, answer]
  cases q.edit with
  | none => cases b.share q.kind q.code <;> simp only [List.nil_append]
  | some e => cases hclaim : b.claim q.kind q.code e <;> simp only [hclaim, List.nil_append]

lemma serve_append (b : Borrows) (xs ys : List Request) : b.serve (xs ++ ys) =
    ((b.serve xs).1 ++ ((b.serve xs).2.2.serve ys).1,
      (b.serve xs).2.1 ++ ((b.serve xs).2.2.serve ys).2.1,
      ((b.serve xs).2.2.serve ys).2.2) := by
  induction xs generalizing b with
  | nil => rfl
  | cons q xs ih => rw [List.cons_append, serve_cons, ih, serve_cons b q xs, List.cons_append,
      List.append_assoc]

lemma length_serve (b : Borrows) (rs : List Request) : (b.serve rs).1.length = rs.length := by
  induction rs generalizing b with
  | nil => rfl
  | cons q rs ih => rw [serve_cons, List.length_cons, ih, List.length_cons]

/-- The requests that were served, with their answers. -/
def log (b : Borrows) (rs : List Request) : Log := rs.zip (b.serve rs).1

lemma requests_log (b : Borrows) (rs : List Request) : (b.log rs).map Prod.fst = rs :=
  List.map_fst_zip (b.length_serve rs).ge

lemma answers_log (b : Borrows) (rs : List Request) : (b.log rs).map Prod.snd = (b.serve rs).1 :=
  List.map_snd_zip (b.length_serve rs).le

lemma log_append (b : Borrows) (xs ys : List Request) :
    b.log (xs ++ ys) = b.log xs ++ (b.serve xs).2.2.log ys := by
  rw [log, serve_append]
  exact List.zip_append (b.length_serve xs).symm

lemma log_cons (b : Borrows) (q : Request) (rs : List Request) :
    b.log (q :: rs) = (q, (b.answer q).1) :: (b.answer q).2.2.log rs := by
  rw [log, serve_cons, List.zip_cons_cons, log]

lemma length_log (b : Borrows) (rs : List Request) : (b.log rs).length = rs.length := by
  rw [← List.length_map Prod.fst, requests_log]

lemma log_split {rs : List Request} {i : Nat} {o : Option (List Value)}
    (h : (b.log rs)[i]? = some (q, o)) : ∃ xs ys, rs = xs ++ q :: ys ∧ xs.length = i ∧
      (b.log rs).take i = b.log xs ∧ ((b.serve xs).2.2.answer q).1 = o := by
  have hq : rs[i]? = some q := by rw [← requests_log b rs, List.getElem?_map, h]; rfl
  obtain ⟨xs, ys, rfl, rfl⟩ : ∃ xs ys, rs = xs ++ q :: ys ∧ xs.length = i := by
    obtain ⟨hlt, rfl⟩ := List.getElem?_eq_some_iff.mp hq
    refine ⟨rs.take i, rs.drop (i + 1), ?_, List.length_take_of_le hlt.le⟩
    rw [← List.drop_eq_getElem_cons, List.take_append_drop]
  refine ⟨xs, ys, rfl, rfl, ?_, ?_⟩
  · rw [log_append, List.take_left' (b.length_log xs)]
  · rw [log_append, log_cons, List.getElem?_append_right (b.length_log xs).le, b.length_log,
      Nat.sub_self, List.getElem?_cons_zero, Option.some_inj] at h
    exact congrArg Prod.snd h

/-- A request that changes nothing need not have been made. -/
lemma serve_erase {xs ys : List Request}
    (h : (b.serve xs).2.2.answer q = (none, [], (b.serve xs).2.2)) : b.serve (xs ++ ys) =
      ((b.serve (xs ++ q :: ys)).1.eraseIdx xs.length, (b.serve (xs ++ q :: ys)).2) := by
  have hlength := b.length_serve xs
  rw [serve_append, serve_append, serve_cons, h,
    List.eraseIdx_append_of_length_le hlength.le, hlength, Nat.sub_self, List.eraseIdx_cons_zero,
    List.nil_append]

/-- Over any run, the marks and the stamps say what was granted. -/
theorem reflects_serve (hb : Reflects b [] b) (hl : b.view.layout.Headed) (rs : List Request) :
    Reflects b (b.log rs) (b.serve rs).2.2 := by
  induction rs using List.reverseRecOn with
  | nil => exact hb
  | append_singleton rs q ih =>
    rw [log_append, log_cons, serve_append, serve_cons]
    exact (ih.answer hl q).2

/-- What was granted before a request that is permitted, and is not for reading as that is, has
another column. -/
lemma Request.Permitted.code_ne {l : Layout} {p : Request} {vs : List Value}
    (h : q.Permitted l past) (hp : (p, some vs) ∈ past)
    (hwriting : p.edit.isSome = true ∨ q.edit.isSome = true) : p.code ≠ q.code := by
  intro hcode
  cases hedit : p.edit.isSome with
  | true => exact h.unclaimed ⟨p, vs, hp, hcode, hedit⟩
  | false =>
    have hq : q.edit.isSome = true := by simpa [hedit] using hwriting
    exact (h.claimable hq).2 ⟨p, vs, hp, hcode, hedit⟩

lemma Request.Permitted.disjoint {v : View} {p : Request} {before : Log} (hv : v.Fits)
    (hl : v.layout.Headed) (hp : p.Permitted v.layout before) (hq : q.Permitted v.layout past)
    (hne : p.code ≠ q.code) : ∃ i j r s, v.layout.indexOf p.code = some i ∧
      v.layout.indexOf q.code = some j ∧ v.layout.columnRange i v.length = .ok r ∧
      v.layout.columnRange j v.length = .ok s ∧ (Layout.bytes r).Disjoint (Layout.bytes s) := by
  have hfound : ∀ {x : Request} {log : Log}, x.Permitted v.layout log →
      ∃ i r, v.layout.indexOf x.code = some i ∧ v.layout.columnRange i v.length = .ok r := by
    intro x log hx
    obtain ⟨i, hi⟩ := List.mem_iff_getElem?.mp hx.column
    have hkind : v.layout.kinds[i]? = some x.kind := by simp [Layout.kinds, hi]
    exact ⟨i, _, hl.indexOf_eq_some.mpr (by simp [Layout.codes, hi]),
      Layout.columnRange_eq (Layout.sizes_of_kinds hkind) hv.room⟩
  obtain ⟨i, r, hi, hr⟩ := hfound hp
  obtain ⟨j, s, hj, hs⟩ := hfound hq
  have hij : i ≠ j := by
    rintro rfl
    exact hne (Layout.indexOf_inj hi hj)
  exact ⟨i, j, r, s, hi, hj, hr, hs, Layout.disjoint_columnRange hr hs hij⟩

/-- In every chunk of every archetype, whatever columns are asked for in whatever order: each
request is granted if and only if the archetype has the column, as the kind that is asked for, and
it was not granted for writing before, nor, if it is now asked for writing, at all; the handles are
never granted for writing. The others come out the same without a request that was refused. A column
has the version of the view in the end if it was granted for writing, and else the one that it had.
What was granted for writing shares no byte with anything else that was granted. -/
theorem grants_no_conflicts {a : Archetype} {n : Nat} {v : View} (ha : a.Reached)
    (hv : a.view? n = some v) (version : UInt32) (rs : List Request) :
    let b : Borrows := { view := v, version }
    ((b.log rs).map Prod.fst = rs ∧ (b.log rs).map Prod.snd = (b.serve rs).1) ∧
    (∀ (i : Nat) (q : Request) (o : Option (List Value)), (b.log rs)[i]? = some (q, o) →
      (o.isSome = true ↔ q.Permitted v.layout ((b.log rs).take i))) ∧
    (∀ (i : Nat) (q : Request), (b.log rs)[i]? = some (q, none) →
      b.serve (rs.eraseIdx i) = ((b.serve rs).1.eraseIdx i, (b.serve rs).2)) ∧
    (∀ t ∈ v.layout.codes,
      ((b.log rs).Held true t → (b.serve rs).2.2.view.version t = some version) ∧
      (¬ (b.log rs).Held true t → (b.serve rs).2.2.view.version t = v.version t)) ∧
    ∀ (i j : Nat) (p q : Request) (vs us : List Value), i ≠ j →
      (b.log rs)[i]? = some (p, some vs) → (b.log rs)[j]? = some (q, some us) →
        p.edit.isSome = true →
        ∃ k l r s, v.layout.indexOf p.code = some k ∧ v.layout.indexOf q.code = some l ∧
          v.layout.columnRange k v.length = .ok r ∧ v.layout.columnRange l v.length = .ok s ∧
          (Layout.bytes r).Disjoint (Layout.bytes s) := by
  intro b
  obtain ⟨c, hc, rfl⟩ := Option.map_eq_some_iff.mp hv
  have hl : b.view.layout.Headed := ha.headed
  have hfits : b.view.Fits := ha.packed.fits hv
  have hrun := reflects_serve (reflects_start _ hfits version) hl
  have hpermitted : ∀ {i : Nat} {q : Request} {o : Option (List Value)},
      (b.log rs)[i]? = some (q, o) →
        (o.isSome = true ↔ q.Permitted a.layout ((b.log rs).take i)) := by
    intro i q o h
    obtain ⟨xs, ys, -, -, htake, rfl⟩ := log_split h
    rw [htake]
    exact ((hrun xs).answer hl q).1
  refine ⟨⟨b.requests_log rs, b.answers_log rs⟩, fun i q o => hpermitted, fun i q h => ?_,
    fun t _ => ⟨(hrun rs).restamped t, (hrun rs).kept t⟩, fun i j p q vs us hij hp hq hedit => ?_⟩
  · have hnot : ¬ q.Permitted a.layout ((b.log rs).take i) := by simp [← hpermitted h]
    obtain ⟨xs, ys, rfl, rfl, htake, -⟩ := log_split h
    rw [htake] at hnot
    rw [List.eraseIdx_append_of_length_le le_rfl, Nat.sub_self, List.eraseIdx_cons_zero]
    exact serve_erase ((hrun xs).refused hl hnot)
  · have hpp := (hpermitted hp).mp rfl
    have hqq := (hpermitted hq).mp rfl
    refine hpp.disjoint hfits hl hqq ?_
    -- whichever of the two comes first is held when the other one is granted
    rcases lt_or_gt_of_ne hij with hlt | hlt
    · exact hqq.code_ne (List.mem_of_getElem? (by rw [List.getElem?_take_of_lt hlt, hp]))
        (.inl hedit)
    · exact (hpp.code_ne (List.mem_of_getElem? (by rw [List.getElem?_take_of_lt hlt, hq]))
        (.inr hedit)).symm

/-- Notes are read, marks are written; after that neither is granted otherwise, nor are handles for
writing, nor notes as marks. -/
theorem grants_no_conflicts_mixed :
    let e : Edit := fun _ _ => .replace (.bytes [1, 2, 3, 4])
    let rs : List Request := [⟨Session.note, ⟨1⟩, none⟩, ⟨Session.note, ⟨1⟩, some e⟩,
      ⟨Session.mark, ⟨2⟩, some e⟩, ⟨Session.mark, ⟨2⟩, none⟩, ⟨.handle "Handle", .entity, some e⟩,
      ⟨Session.mark, ⟨1⟩, none⟩]
    ∃ (a : Archetype) (v : View), a.Reached ∧ a.view? 0 = some v ∧
      (Borrows.serve { view := v, version := 7 } rs).1 =
        [some [⟨.text "", .made 1⟩], none, some [.bytes [1, 2, 3, 4]], none, none, none] ∧
      (Borrows.serve { view := v, version := 7 } (rs.eraseIdx 1)).1 =
        [some [⟨.text "", .made 1⟩], some [.bytes [1, 2, 3, 4]], none, none, none] ∧
      (Borrows.serve { view := v, version := 7 } rs).2.2.view.version ⟨2⟩ = some 7 ∧
      ∃ k l r s, v.layout.indexOf ⟨2⟩ = some k ∧ v.layout.indexOf ⟨1⟩ = some l ∧
        v.layout.columnRange k v.length = .ok r ∧ v.layout.columnRange l v.length = .ok s ∧
        (Layout.bytes r).Disjoint (Layout.bytes s) := by
  intro e rs
  have hanswers : (Session.mixed.world.view? 1 0).map (fun av =>
      ((Borrows.serve { view := av.2, version := 7 } rs).1, av.2.layout.codes)) =
        some ([some [⟨.text "", .made 1⟩], none, some [.bytes [1, 2, 3, 4]], none, none, none],
          [.entity, ⟨1⟩, ⟨2⟩]) := by
    decide +kernel
  obtain ⟨⟨a, v⟩, hv, heq⟩ := Option.map_eq_some_iff.mp hanswers
  obtain ⟨hseen, hcodes⟩ := Prod.mk.inj heq
  obtain ⟨a', ha, hview⟩ := Option.bind_eq_some_iff.mp hv
  obtain ⟨v', hv', hpair⟩ := Option.map_eq_some_iff.mp hview
  obtain ⟨rfl, rfl⟩ := Prod.mk.inj hpair
  have hreach : Session.mixed.Strained := Session.strained_blank.run _
  have hreached : a'.Reached := .stored hreach ha
  obtain ⟨-, -, herase, hversion, hdisjoint⟩ := grants_no_conflicts hreached hv' 7 rs
  have hlog : Borrows.log { view := v', version := 7 } rs = rs.zip _ := congrArg rs.zip hseen
  have hheld : (Borrows.log { view := v', version := 7 } rs).Held true ⟨2⟩ := by
    rw [hlog]
    exact ⟨_, _, List.mem_of_getElem? (i := 2) rfl, rfl, rfl⟩
  refine ⟨a', v', hreached, hv', hseen, ?_, (hversion ⟨2⟩ (by rw [hcodes]; simp)).1 hheld, ?_⟩
  · rw [herase 1 _ (by rw [hlog]; rfl), hseen]
    rfl
  · exact hdisjoint 2 0 _ _ _ _ (by decide) (by rw [hlog]; rfl) (by rw [hlog]; rfl) rfl

end Borrows

end EntityStore
