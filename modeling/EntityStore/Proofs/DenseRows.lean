import Mathlib
import EntityStore.Proofs.Buffers
import EntityStore.Proofs.Healthy

/-!
# Reserving, filling and removing, read as changes of a list

However an archetype came about, it is a list of rows cut into chunks. A place that is reserved
and filled is a row behind the others, one that is reserved and given up leaves no row, and a row
that is removed is replaced by the last one, in whichever chunks the two are. As many chunks are in
use as the rows need.
-/
namespace EntityStore.Archetype

variable {a b : Archetype} {p q : Pool} {v : UInt32} {i j k : Nat} {row : Row}

inductive Request
  /-- A place is reserved, filled and kept. -/
  | append (row : Row)
  /-- A place is reserved, and given up after these columns of it were written. -/
  | withdraw (columns : List Nat)
  | remove (index : Nat)

def Request.Fits (a : Archetype) : Request → Prop
  | append row => row.values.length + 1 = a.layout.columns.length
  | _ => True

/-- The answer to a request, with what becomes of the archetype and of the pool. One that is refused
leaves both as they were. -/
def serve (a : Archetype) (p : Pool) (version : UInt32) :
    Request → Except Fault (Option Handle) × Archetype × Pool
  | .append row =>
      match a.reserve p version with
      | .error f => (.error f, a, p)
      | .ok (b, q) => (.ok none, b.commit row version, q)
  | .withdraw columns =>
      match a.reserve p version with
      | .error f => (.error f, a, p)
      | .ok (b, q) => (.ok none, b.abandon columns q version)
  | .remove i =>
      match a.remove i p version with
      | .error f => (.error f, a, p)
      | .ok (displaced, b, q) => (.ok displaced, b, q)

/-- All chunks are full, and there may not be another one or there is no memory for it. -/
def Exhausted (a : Archetype) (p : Pool) (f : Fault) : Prop :=
  a.capacity ∣ a.count ∧
    (a.maxChunks ≤ a.chunks.length ∧ f = .capacityExceeded .archetypeChunks a.maxChunks ∨
      a.chunks.length < a.maxChunks ∧ p.take = .error f)

namespace Request

def Refused (a : Archetype) (p : Pool) (f : Fault) : Request → Prop
  | append _ => a.Exhausted p f
  | withdraw _ => a.Exhausted p f
  | remove i => a.count ≤ i ∧ f = .outOfRange .entity i a.count

/-- What a request makes of a list of rows. -/
def apply (rows : List Row) : Request → List Row
  | append row => rows ++ [row]
  | withdraw _ => rows
  | remove i => swapRemove rows i

/-- The entity that takes the place of another one on a request. -/
def displaced (rows : List Row) : Request → Option Handle
  | remove i => if i = rows.length - 1 then none else rows.getLast?.map Row.handle
  | _ => none

end Request

/-- Archetypes as they come about: new ones, those in use in any session, and what becomes of them
when they are asked for rows or their values are written. -/
inductive Reached : Archetype → Prop
  | new {id : Nat} {columns : List Registration} {settings : Settings} {a : Archetype}
      (h : Archetype.new id columns settings = .ok a) : Reached a
  | stored {s : Session} {id : Nat} {a : Archetype} (hs : s.Strained)
      (ha : s.world.catalogue.get? id = some a) : Reached a
  | served {a : Archetype} (ha : Reached a) (p : Pool) (version : UInt32) {r : Request}
      (hr : r.Fits a) : Reached (a.serve p version r).2.1
  | modified {a b : Archetype} {column i : Nat} {f : Value → Value} {version : UInt32}
      (ha : Reached a) (hb : a.modifyCell column i f version = .ok b) : Reached b
  | edited {a : Archetype} {chunk column : Nat} {x : View} {e : Edit} {version : UInt32}
      {d : View.Edited} (ha : Reached a) (hx : a.view? chunk = some x)
      (hd : x.editColumn column e version = .ok d) : Reached (a.modifyChunk chunk fun _ => d.chunk)
  | borrowed {a : Archetype} {chunk : Nat} {x : View} (ha : Reached a)
      (hx : a.view? chunk = some x) (version : UInt32) (requests : List Borrows.Request) :
      Reached (a.modifyChunk chunk fun _ =>
        (Borrows.serve { view := x, version } requests).2.2.view.chunk)

/-- With `reserved` places behind the rows, as many chunks are in use as are needed. All are full
but the last one, which is not empty. -/
structure Dense (a : Archetype) (reserved : Nat) : Prop where
  counted : a.count = a.rows.length
  chunks : a.chunks.length = (a.count + reserved + a.capacity - 1) / a.capacity
  full : ∀ c ∈ a.chunks.dropLast, c.rows.length = a.capacity
  last : ∀ c, a.chunks.getLast? = some c →
    0 < c.rows.length + reserved ∧ c.rows.length + reserved ≤ a.capacity

section Dense
variable {init : List Chunk} {c : Chunk} {n : Nat}

lemma Blocks.length_rows (h : a.Blocks init c) :
    a.rows.length = init.length * a.capacity + c.rows.length := by
  have hmap : init.map (fun d => d.rows.length) = List.replicate init.length a.capacity := by
    rw [← List.map_const']
    exact List.map_congr_left h.full
  rw [h.rows, List.length_append, List.length_flatMap, hmap, List.sum_replicate, smul_eq_mul]

lemma Blocks.isDense (h : a.Blocks init c) (hcount : a.count = a.rows.length)
    (hpos : 0 < c.rows.length + n) (hle : c.rows.length + n ≤ a.capacity) : a.Dense n := by
  refine ⟨hcount, ?_, ?_, ?_⟩
  · rw [hcount, h.length_rows, h.chunks, List.length_append, List.length_singleton]
    refine (Nat.div_eq_of_lt_le ?_ ?_).symm
    · rw [Nat.succ_mul]
      omega
    · rw [Nat.succ_mul, Nat.succ_mul]
      omega
  · rw [h.chunks, List.dropLast_concat]
    exact h.full
  · rw [h.chunks, List.getLast?_concat]
    rintro _ ⟨⟩
    exact ⟨hpos, hle⟩

lemma Packed.count_eq_zero (h : a.Packed) (hnil : a.chunks = []) : a.count = 0 := by
  rw [h.counted, h.rows_eq_nil.mpr hnil, List.length_nil]

theorem Packed.isDense (h : a.Packed) : a.Dense 0 := by
  have hcap := h.roomy
  rcases h.dense with hnil | ⟨init, c, hb, hpos⟩
  · refine ⟨h.counted, ?_, by simp [hnil], by simp [hnil]⟩
    rw [hnil, h.count_eq_zero hnil, List.length_nil, Nat.div_eq_of_lt (by omega)]
  · exact hb.isDense h.counted hpos hb.last

lemma Packed.hasRoom_iff (h : a.Packed) : a.hasRoom = true ↔ ¬ a.capacity ∣ a.count := by
  rcases h.dense with hnil | ⟨init, c, hb, hpos⟩
  · simp [hasRoom, hnil, h.count_eq_zero hnil]
  · have hlast := hb.last
    rw [h.counted, hb.length_rows, Nat.dvd_add_right (Nat.dvd_mul_left _ _)]
    simp only [hasRoom, hb.chunks, List.getLast?_concat, decide_eq_true_eq]
    refine not_congr ⟨fun he => he ▸ dvd_rfl, fun hdvd => ?_⟩
    exact le_antisymm hlast (Nat.le_of_dvd hpos hdvd)

end Dense

theorem Packed.reserve_error_iff {f : Fault} (h : a.Packed) :
    a.reserve p v = .error f ↔ a.Exhausted p f := by
  have hroom := h.hasRoom_iff
  unfold reserve Exhausted
  split_ifs with hr hmax
  · simp [hroom.mp hr]
  · have hdvd : a.capacity ∣ a.count := not_not.mp (mt hroom.mpr hr)
    simp [hdvd, hmax, hmax.not_gt, eq_comm]
  · have hdvd : a.capacity ∣ a.count := not_not.mp (mt hroom.mpr hr)
    cases ht : p.take <;> simp [hdvd, hmax, not_le.mp hmax, Except.map]

lemma Packed.reserve_cases (h : a.Packed) (p : Pool) (v : UInt32) :
    (∃ f, a.Exhausted p f ∧ a.reserve p v = .error f) ∨
      ∃ b q, (∀ f, ¬ a.Exhausted p f) ∧ a.reserve p v = .ok (b, q) := by
  cases hr : a.reserve p v with
  | error f => exact .inl ⟨f, h.reserve_error_iff.mp hr, rfl⟩
  | ok bq =>
    refine .inr ⟨bq.1, bq.2, fun f hf => ?_, rfl⟩
    rw [h.reserve_error_iff.mpr hf] at hr
    cases hr

/-- A place that is reserved is counted among those for which chunks are in use. -/
lemma Packed.reserve (h : a.Packed) (hr : a.reserve p v = .ok (b, q)) :
    b.rows = a.rows ∧ b.Dense 1 := by
  obtain ⟨hblank, hcount, hrows, init, c, hb, hroom, -⟩ := reserve_spec h hr
  have hcap : b.capacity = a.capacity := congrArg Layout.capacity (layout_of_blank hblank)
  have hcounted : b.count = b.rows.length := by rw [hcount, hrows, h.counted]
  exact ⟨hrows, hb.isDense hcounted (by omega) (by omega)⟩

/-- The outcome of a request, in terms of the list of rows alone where it is granted. -/
inductive Request.Outcome (a : Archetype) (p : Pool) (r : Request) :
    Except Fault (Option Handle) × Archetype × Pool → Prop
  | refused {f : Fault} (hf : r.Refused a p f) : Outcome a p r (.error f, a, p)
  | granted {b : Archetype} {q : Pool} (hf : ∀ f, ¬ r.Refused a p f)
      (hrows : b.rows = r.apply a.rows) : Outcome a p r (.ok (r.displaced a.rows), b, q)

theorem Packed.serve (h : a.Packed) {r : Request} (hr : r.Fits a) :
    r.Outcome a p (a.serve p v r) ∧ (a.serve p v r).2.1.Packed ∧
      (a.serve p v r).2.1.layout = a.layout := by
  cases r with
  | append row =>
    rcases h.reserve_cases p v with ⟨f, hf, hb⟩ | ⟨b, q, hf, hb⟩
    · simp only [Archetype.serve, hb]
      exact ⟨.refused hf, h, trivial⟩
    · obtain ⟨hpacked, hrows, hblank⟩ := commit_spec h hb hr
      simp only [Archetype.serve, hb]
      exact ⟨.granted hf hrows, hpacked, layout_of_blank hblank⟩
  | withdraw columns =>
    rcases h.reserve_cases p v with ⟨f, hf, hb⟩ | ⟨b, q, hf, hb⟩
    · simp only [Archetype.serve, hb]
      exact ⟨.refused hf, h, trivial⟩
    · obtain ⟨hpacked, hrows, hblank⟩ := abandon_spec h hb columns
      simp only [Archetype.serve, hb]
      exact ⟨.granted hf hrows, hpacked, layout_of_blank hblank⟩
  | remove i =>
    by_cases hi : i < a.rows.length
    · obtain ⟨d, b, q, hb, hpacked, hrows, hblank, last, hlast, rfl⟩ :=
        remove_spec (p := p) (v := v) h hi
      have hnone (f : Fault) : ¬ (Request.remove i).Refused a p f := by
        rintro ⟨hle, -⟩
        rw [h.counted] at hle
        omega
      have hd : (Request.remove i).displaced a.rows =
          if i = a.rows.length - 1 then none else some last.handle := by
        rw [Request.displaced, List.getLast?_eq_getElem?, hlast, Option.map_some]
      simp only [Archetype.serve, hb, ← hd]
      exact ⟨.granted hnone hrows, hpacked, layout_of_blank hblank⟩
    · have hle : a.count ≤ i := by rw [h.counted]; omega
      have herror : a.remove i p v = .error (.outOfRange .entity i a.count) := by
        rw [Archetype.remove, locate, if_neg (by omega)]
      simp only [Archetype.serve, herror]
      exact ⟨.refused ⟨hle, rfl⟩, h, trivial⟩

lemma packed_new {id : Nat} {columns : List Registration} {settings : Settings}
    (h : new id columns settings = .ok a) : a.Packed := by
  obtain ⟨-, hcap, -, ha⟩ := new_eq_ok h
  exact packed_of_chunks_nil hcap (congrArg chunks ha) (congrArg count ha)

lemma Packed.rewrite (h : a.Packed) {x : View} {c : Chunk} (hx : a.view? k = some x)
    (hc : x.chunk.Shaped x.layout.columns.length →
      ∃ version gone traffic, Chunk.Rewritten version x.layout x.chunk c gone traffic) :
    (a.modifyChunk k fun _ => c).Packed := by
  obtain ⟨d, hd, rfl⟩ := Option.map_eq_some_iff.mp hx
  have hshaped := h.shaped d (List.mem_of_getElem? hd)
  obtain ⟨_, _, _, hrewritten⟩ := hc hshaped
  refine packed_modifyChunk h (fun e he => ?_) fun e he => hrewritten.shaped hshaped
  obtain rfl : d = e := Option.some.inj (hd.symm.trans he)
  exact hrewritten.length

theorem Reached.packed (ha : a.Reached) : a.Packed := by
  induction ha with
  | new h => exact packed_new h
  | stored hs ha => exact hs.healthy.sound.catalogue.packed _ _ ha
  | served _ p version hr ih => exact (ih.serve hr).2.1
  | modified _ hb ih => exact (modifyCell_spec ih hb).1
  | edited _ hx hd ih =>
    refine ih.rewrite hx fun hshaped => ?_
    obtain ⟨kind, -, hrewritten⟩ := View.rewritten_editColumn hshaped hd
    exact ⟨_, _, _, hrewritten⟩
  | borrowed _ hx version requests ih =>
    refine ih.rewrite hx fun hshaped => ?_
    obtain ⟨-, hrewritten⟩ := Borrows.rewritten_serve (b := { view := _, version }) hshaped
    exact ⟨_, _, _, hrewritten⟩

/-- An archetype is a dense list of its rows, which an index reads. A place that is reserved leaves
the rows as they are, and a request is either refused, which changes nothing, or does to the rows
what it does to a list. -/
theorem is_dense_list (ha : a.Reached) (p : Pool) (v : UInt32) :
    a.Dense 0 ∧ (∀ i row, a.row i = .ok row ↔ a.rows[i]? = some row) ∧
      (∀ b q, a.reserve p v = .ok (b, q) → b.rows = a.rows ∧ b.Dense 1) ∧
      ∀ r : Request, r.Fits a → r.Outcome a p (a.serve p v r) ∧
        (a.serve p v r).2.1.Reached ∧ (a.serve p v r).2.1.Dense 0 := by
  have h := ha.packed
  refine ⟨h.isDense, fun i row => row_eq_ok h, fun b q hb => h.reserve hb, fun r hr => ?_⟩
  obtain ⟨houtcome, hpacked, -⟩ := h.serve hr
  exact ⟨houtcome, ha.served p v hr, hpacked.isDense⟩

def lengths (a : Archetype) : List Nat := a.chunks.map fun c => c.rows.length

def answer (s : Session) (id : Nat) (r : Request) : Option (Option (Option Handle) × List Nat) :=
  (s.world.catalogue.get? id).map fun a =>
    ((a.serve s.world.pool 1 r).1.toOption, (a.serve s.world.pool 1 r).2.1.lengths)

def newcomer : Row := ⟨⟨6, 1⟩, [.text "six"]⟩

/-- Of six rows five are in one chunk and one in the next. Without the first row one chunk is
enough, as the last row has moved there. Another row comes into the second chunk. -/
theorem is_dense_list_crowd : ∃ w a p,
    World.create (Registry.new "Handle") Session.keeping = .ok w ∧
    (Session.run { world := w } Session.crowd).world.catalogue.get? 0 = some a ∧
    a.Reached ∧ a.Dense 0 ∧ a.lengths = [5, 1] ∧
    ((a.serve p 1 (.remove 0)).1.toOption = some (some ⟨5, 1⟩) ∧
      (a.serve p 1 (.remove 0)).2.1.lengths = [5] ∧
      (Request.remove 0).Outcome a p (a.serve p 1 (.remove 0))) ∧
    (Request.append newcomer).Fits a ∧
    (a.serve p 1 (.append newcomer)).1.toOption = some none ∧
    (a.serve p 1 (.append newcomer)).2.1.lengths = [5, 2] ∧
    (Request.append newcomer).Outcome a p (a.serve p 1 (.append newcomer)) := by
  have htuned : Session.keeping.Tuned := .retained (.chunkSize .standard 256 (by decide)) 1
  obtain ⟨w, hw⟩ : ∃ w, World.create (Registry.new "Handle") Session.keeping = .ok w := ⟨_, rfl⟩
  have hcrowd : ((Session.run { world := w } Session.crowd).world.catalogue.get? 0).map
      (fun a => (a.lengths, a.layout.columns.length)) = some ([5, 1], 2) := by
    rw [World.create_eq_ok hw]
    decide +kernel
  have hleft : answer (Session.run { world := w } Session.crowd) 0 (.remove 0) =
      some (some (some ⟨5, 1⟩), [5]) := by
    rw [World.create_eq_ok hw]
    decide +kernel
  have hcame : answer (Session.run { world := w } Session.crowd) 0 (.append newcomer) =
      some (some none, [5, 2]) := by
    rw [World.create_eq_ok hw]
    decide +kernel
  obtain ⟨a, ha, heq⟩ := Option.map_eq_some_iff.mp hcrowd
  obtain ⟨hlengths, hcolumns⟩ := Prod.mk.inj heq
  rw [answer, ha, Option.map_some, Option.some_inj, Prod.mk.injEq] at hleft hcame
  have hreached : a.Reached :=
    .stored ((Session.Strained.create (.create htuned hw)).run Session.crowd) ha
  obtain ⟨hdense, -, -, hserve⟩ := is_dense_list hreached
    (Session.run { world := w } Session.crowd).world.pool 1
  have hfits : (Request.append newcomer).Fits a := hcolumns.symm
  exact ⟨w, a, _, hw, ha, hreached, hdense, hlengths,
    ⟨hleft.1, hleft.2, (hserve (.remove 0) trivial).1⟩, hfits, hcame.1, hcame.2,
    (hserve _ hfits).1⟩

end EntityStore.Archetype
