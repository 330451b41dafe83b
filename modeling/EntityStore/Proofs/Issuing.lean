import Mathlib
import EntityStore.Proofs.HandleHistory
import EntityStore.Proofs.Session

/-!
# Handles are never issued again

Only creations issue handles, and only destroyed entities and refused creations free them; all else
notes locations. So the history of a session's handles can be read off its moves, and what a table
has to do with its history holds of every session.
-/
namespace EntityStore

open HandleTable (Runs)

namespace World

variable {u v w : World} {h : Handle} {l : Location} {m : Option Location} {id : Nat}
  {ts : List TypeCode} {k : Kind} {f : Fault}

/-- No handle was issued or freed on the way from one store to another. -/
def Steady (w v : World) : Prop := Runs w.handles [] v.handles

lemma steady_of_handles (hv : v.handles = w.handles) : Steady w v := by
  rw [Steady, hv]
  exact .refl

lemma Steady.trans (hwv : Steady w v) (hvu : Steady v u) : Steady w u := Runs.trans hwv hvu

lemma steady_setLocation (hv : v.handles = w.handles) : Steady w (after (setLocation h m v)) := by
  unfold setLocation
  cases hs : v.handles.setLocation h m with
  | error f => exact steady_of_handles hv
  | ok handles => exact .located .refl (hv ▸ hs)

lemma handles_resolve (ts : List TypeCode) (w : World) :
    (after (resolve ts w)).handles = w.handles := by
  unfold resolve
  repeat' split
  all_goals rfl

lemma steady_fill (hv : v.handles = w.handles) : Steady w (after (fill h id v)) := by
  unfold fill
  repeat' split
  all_goals first | exact steady_setLocation hv | exact steady_of_handles hv

lemma steady_insert (hv : v.handles = w.handles) : Steady w (after (insert h ts v)) := by
  have hr := handles_resolve ts v
  unfold insert
  cases hres : resolve ts v with
  | error e u =>
    rw [hres] at hr
    exact steady_of_handles (hr.trans hv)
  | ok id u =>
    rw [hres] at hr
    exact steady_fill (hr.trans hv)

lemma steady_removeRow (hv : v.handles = w.handles) : Steady w (after (removeRow l v)) := by
  unfold removeRow
  split
  next => exact steady_of_handles hv
  next a ha =>
    split
    next => exact steady_of_handles hv
    next displaced b pool hr =>
      cases displaced with
      | none => exact steady_of_handles hv
      | some d => exact steady_setLocation hv

lemma steady_relocate (hv : v.handles = w.handles) : Steady w (after (relocate h l m v)) := by
  have hrow := steady_removeRow (l := l) hv
  unfold relocate
  cases hr : removeRow l v with
  | error e u =>
    rw [hr] at hrow
    exact hrow
  | ok _ u =>
    rw [hr] at hrow
    have hset : Steady w (after (setLocation h m u)) := hrow.trans (steady_setLocation rfl)
    cases hs : setLocation h m u <;>
    · rw [hs] at hset
      simp only [hs]
      exact hset

lemma steady_vacate (hv : v.handles = w.handles) : Steady w (after (vacate h l v)) := by
  unfold vacate
  repeat' split
  all_goals first | exact steady_relocate hv | exact steady_of_handles hv

lemma steady_transfer (hv : v.handles = w.handles) : Steady w (after (transfer h l id v)) := by
  unfold transfer
  simp only []
  repeat' split
  all_goals first | exact steady_relocate hv | exact steady_of_handles hv

lemma steady_move (h : Handle) (ts : List TypeCode) (w : World) :
    Steady w (after (move h ts w)) := by
  have hr := handles_resolve ts w
  unfold move
  split
  next => exact steady_of_handles rfl
  next =>
    split_ifs
    · exact steady_of_handles rfl
    · exact steady_insert rfl
  next l hl =>
    split_ifs
    · exact steady_vacate rfl
    · cases hres : resolve ts w with
      | error e v =>
        rw [hres] at hr
        exact steady_of_handles hr
      | ok id v =>
        rw [hres] at hr
        dsimp only
        split_ifs
        · exact steady_of_handles hr
        · exact steady_transfer hr

lemma steady_retype (g : List TypeCode → List TypeCode → List TypeCode) (h : Handle)
    (ts : List TypeCode) (w : World) : Steady w (after (retype g h ts w)) := by
  unfold retype
  repeat' split
  all_goals first | exact steady_move h _ w | exact steady_of_handles rfl

lemma handles_modifyComponent (h : Handle) (t : TypeCode) (f : Value → Value) (w : World) :
    (after (modifyComponent h t f w)).handles = w.handles := by
  unfold modifyComponent
  repeat' split
  all_goals rfl

lemma handles_exchange (h : Handle) (k : Kind) (x : Value) (w : World) :
    (after (exchange h k x w)).handles = w.handles := by
  unfold exchange
  split
  next => split <;> rfl
  next t ht =>
    have hm := handles_modifyComponent h t (fun _ => x) w
    split
    all_goals
      rename_i hr
      rw [hr] at hm
      exact hm

lemma steady_assign (h : Handle) (k : Kind) (x : Value) (w : World) :
    Steady w (after (assign h k x w)) := by
  unfold assign
  split
  next => exact steady_of_handles rfl
  next t registry hk =>
    have hadd := steady_retype Ascending.union h [t] { w with registry }
    split
    next e v hr =>
      rw [addComponents] at hr
      rw [hr] at hadd
      exact hadd
    next v hr =>
      rw [addComponents] at hr
      rw [hr] at hadd
      have hx := handles_exchange h k x v
      split
      all_goals
        rename_i hex
        rw [hex] at hx
        exact hadd.trans (steady_of_handles hx)

lemma steady_put (h : Handle) (k : Kind) (x : Value) (w : World) :
    Steady w (after (put h k x w)) := by
  have ha := steady_assign h k x w
  unfold put
  split
  all_goals
    rename_i hr
    rw [hr] at ha
    exact ha

lemma handles_setLocation_error {e : Failure} (hs : setLocation h m w = .error e v) :
    v.handles = w.handles := by
  unfold setLocation at hs
  split at hs
  next => rw [← (EStateM.Result.error.inj hs).2]
  next => cases hs

lemma handles_fill_refused (hf : fill h id w = .error (.refused f) v) :
    v.handles = w.handles := by
  unfold fill at hf
  repeat' split at hf
  · rw [← (EStateM.Result.error.inj hf).2]
  · rw [← (EStateM.Result.error.inj hf).2]
    rfl
  · cases hf
  · exact (handles_setLocation_error hf :)

lemma handles_insert_refused (hi : insert h ts w = .error (.refused f) v) :
    v.handles = w.handles := by
  have hr := handles_resolve ts w
  unfold insert at hi
  cases hres : resolve ts w with
  | error e u =>
    rw [hres] at hr
    simp only [hres, EStateM.Result.error.injEq] at hi
    rw [← hi.2]
    exact hr
  | ok id u =>
    rw [hres] at hr
    simp only [hres] at hi
    exact (handles_fill_refused hi).trans hr

lemma free_insert_refused {handles : HandleTable} (ha : w.handles.allocate = .ok (h, handles))
    (hi : insert h ts { w with handles } = .error (.refused f) v) :
    v.handles = handles ∧ ∃ t, handles.free h = .ok t := by
  refine ⟨handles_insert_refused hi, HandleTable.free_ok_iff.mpr ⟨none, ?_⟩⟩
  rw [(HandleTable.location_allocate ha).2.1, Function.update_self]

end World

namespace Operation
variable {w w' : World} {h : Handle} {ts : List TypeCode}

/-- The handles that an operation issues and frees, in order. A creation that is refused after it
got its handle frees it again; if a default could not be made the handle stays. -/
def handleEvents (w : World) : Operation → List HandleTable.Event
  | create =>
      match w.handles.allocate with
      | .ok (h, _) => [.issued h]
      | .error _ => []
  | createWith ts =>
      match Ascending.validate ts, w.handles.allocate with
      | .ok (), .ok (h, _) =>
          match World.createWith ts w with
          | .error (.refused _) _ => [.issued h, .freed h]
          | _ => [.issued h]
      | _, _ => []
  | destroy h =>
      match World.destroy h w with
      | .ok () _ => [.freed h]
      | .error _ _ => []
  | _ => []

lemma runs_create (w : World) :
    Runs w.handles (create.handleEvents w) (create.run w).handles := by
  simp only [handleEvents, run, World.createEntity]
  cases ha : w.handles.allocate with
  | error f => exact .refl
  | ok ht => exact .allocated .refl ha

lemma runs_createWith_allocated {handles : HandleTable} (hv : Ascending.validate ts = .ok ())
    (ha : w.handles.allocate = .ok (h, handles)) :
    Runs w.handles ((createWith ts).handleEvents w) ((createWith ts).run w).handles ∧
      ∀ g w', World.createWith ts w = .ok g w' → g = h := by
  have hallocated : Runs w.handles [.issued h] handles := .allocated .refl ha
  simp only [handleEvents, run, World.createWith, World.createEntity, hv, ha]
  by_cases hempty : ts.isEmpty
  · simp only [hempty, if_true]
    refine ⟨hallocated, fun g w' hg => ?_⟩
    exact (EStateM.Result.ok.inj hg).1.symm
  · simp only [hempty, Bool.false_eq_true, if_false]
    have hsteady : World.Steady { w with handles }
        (World.after (World.insert h ts { w with handles })) := World.steady_insert rfl
    cases hi : World.insert h ts { w with handles } with
    | ok _ v =>
      rw [hi] at hsteady
      refine ⟨hallocated.trans hsteady, fun g w' hg => ?_⟩
      exact (EStateM.Result.ok.inj hg).1.symm
    | error e v =>
      rw [hi] at hsteady
      cases e with
      | aborted => exact ⟨hallocated.trans hsteady, fun g w' hg => by cases hg⟩
      | refused f =>
        obtain ⟨hhandles, t, ht⟩ := World.free_insert_refused ha hi
        simp only [hhandles, ht]
        exact ⟨.freed hallocated ht, fun g w' hg => by cases hg⟩

lemma runs_createWith (ts : List TypeCode) (w : World) :
    Runs w.handles ((createWith ts).handleEvents w) ((createWith ts).run w).handles := by
  cases hv : Ascending.validate ts with
  | error f =>
    simp only [handleEvents, run, World.createWith, hv]
    exact .refl
  | ok _ =>
    cases ha : w.handles.allocate with
    | error f =>
      simp only [handleEvents, run, World.createWith, World.createEntity, hv, ha]
      exact .refl
    | ok ht => exact (runs_createWith_allocated hv ha).1

lemma runs_destroy (h : Handle) (w : World) :
    Runs w.handles ((destroy h).handleEvents w) ((destroy h).run w).handles := by
  have hfreed : ∀ v, World.Steady w v → Runs w.handles
      (match World.freeHandle h v with
        | .ok () _ => [.freed h]
        | .error _ _ => []) (World.after (World.freeHandle h v)).handles := by
    intro v hv
    unfold World.freeHandle
    cases hf : v.handles.free h with
    | error f => exact hv
    | ok t => exact .freed hv hf
  simp only [handleEvents, run, World.destroy]
  cases hl : w.handles.location h with
  | error f => exact .refl
  | ok m =>
    cases m with
    | none => exact hfreed w .refl
    | some l =>
      have hsteady := World.steady_vacate (h := h) (l := l) (v := w) rfl
      cases hx : World.vacate h l w with
      | error e v =>
        rw [hx] at hsteady
        simp only [hx]
        exact hsteady
      | ok _ v =>
        rw [hx] at hsteady
        simp only [hx]
        exact hfreed v hsteady

/-- What an operation does to the table of handles is told by its events. -/
theorem runs (op : Operation) (w : World) :
    Runs w.handles (op.handleEvents w) (op.run w).handles := by
  cases op with
  | create => exact runs_create w
  | createWith ts => exact runs_createWith ts w
  | add h ts => exact World.steady_retype _ h ts w
  | remove h ts => exact World.steady_retype _ h ts w
  | put h k x => exact World.steady_put h k x w
  | destroy h => exact runs_destroy h w

lemma handleEvents_create (hc : World.createEntity w = .ok h w') :
    create.handleEvents w = [.issued h] := by
  unfold World.createEntity at hc
  unfold handleEvents
  cases ha : w.handles.allocate with
  | error f => simp [ha] at hc
  | ok ht =>
    simp only [ha, EStateM.Result.ok.injEq] at hc
    simp only [hc.1]

lemma handleEvents_createWith (hc : World.createWith ts w = .ok h w') :
    (createWith ts).handleEvents w = [.issued h] := by
  have hok := hc
  unfold World.createWith at hok
  split at hok
  next => cases hok
  next hv =>
    unfold World.createEntity at hok
    cases ha : w.handles.allocate with
    | error f => simp [ha] at hok
    | ok ht =>
      obtain rfl : h = ht.1 := (runs_createWith_allocated hv ha).2 h w' hc
      simp only [handleEvents, hv, ha, hc]

theorem issued_of_call {op : Operation} {answer : Option Handle} (hc : op.call w = .ok answer w') :
    HandleTable.issued (op.handleEvents w) = answer.toList := by
  cases op with
  | create =>
    simp only [call, Step.map_apply] at hc
    split at hc
    next h v hr =>
      rw [handleEvents_create hr, ← (EStateM.Result.ok.inj hc).1]
      rfl
    next => cases hc
  | createWith ts =>
    simp only [call, Step.map_apply] at hc
    split at hc
    next h v hr =>
      rw [handleEvents_createWith hr, ← (EStateM.Result.ok.inj hc).1]
      rfl
    next => cases hc
  | destroy h =>
    simp only [call, Step.answering] at hc
    split at hc
    next hr =>
      simp only [handleEvents, hr, ← (EStateM.Result.ok.inj hc).1]
      rfl
    next => cases hc
  | add h ts | remove h ts | put h k x =>
    simp only [call, Step.answering] at hc
    split at hc
    next =>
      rw [← (EStateM.Result.ok.inj hc).1]
      rfl
    next => cases hc

end Operation

namespace Script
variable {w w' : World} {cs : List Command} {made made' : List Handle}

/-- The handles that the commands of a script issue and free, up to the first that fails. -/
def handleEvents : List Command → List Handle → World → List HandleTable.Event
  | [], _, _ => []
  | c :: cs, made, w =>
      match c.operation made with
      | .error _ => []
      | .ok op =>
          op.handleEvents w ++
            match c.run made w with
            | .ok made v => handleEvents cs made v
            | .error _ _ => []

theorem runs (cs : List Command) (made : List Handle) (w : World) :
    Runs w.handles (handleEvents cs made w) (World.after (runAll cs made w)).handles := by
  induction cs generalizing made w with
  | nil => exact .refl
  | cons c cs ih =>
    simp only [handleEvents, runAll]
    cases ho : c.operation made with
    | error f =>
      rw [Command.run_unresolved ho]
      exact .refl
    | ok op =>
      have hop := op.runs w
      rw [← (Command.run_operation ho w).1] at hop
      cases hc : c.run made w with
      | error e v =>
        rw [hc] at hop
        simp only [List.append_nil]
        exact hop
      | ok made' v =>
        rw [hc] at hop
        exact hop.trans (ih made' v)

theorem issued_of_runAll (hr : runAll cs made w = .ok made' w') :
    made' = made ++ HandleTable.issued (handleEvents cs made w) := by
  induction cs generalizing made w with
  | nil => simpa [handleEvents, HandleTable.issued] using (EStateM.Result.ok.inj hr).1.symm
  | cons c cs ih =>
    simp only [runAll] at hr
    cases ho : c.operation made with
    | error f => simp [Command.run_unresolved ho] at hr
    | ok op =>
      simp only [handleEvents, ho]
      have hrun := Command.run_call ho w
      rw [Step.map_apply] at hrun
      cases hc : op.call w with
      | error e v => simp [hrun, hc] at hr
      | ok answer v =>
        simp only [hrun, hc] at hr ⊢
        rw [ih hr, HandleTable.issued_append, Operation.issued_of_call hc, List.append_assoc]

end Script

namespace Session
variable {s : Session}

/-- The handles that a move issues and frees, in order. -/
def handleEvents (s : Session) : Move → List HandleTable.Event
  | .operate op => op.handleEvents s.world
  | .play i => ((s.scripts[i]?).map fun p => Script.handleEvents p.commands [] s.world).getD []
  | _ => []

/-- Sessions that moves lead to from a new store, with the handles issued and freed on the way. -/
inductive Lived : Session → List HandleTable.Event → Prop
  | create {w : World} (hw : w.New) : Lived { world := w } []
  | move {s : Session} {es : List HandleTable.Event} (hs : Lived s es) (m : Move) :
      Lived (s.move m) (es ++ s.handleEvents m)

variable {s : Session} {es : List HandleTable.Event}

lemma Lived.strained (hs : s.Lived es) : s.Strained := by
  induction hs with
  | create hw => exact .create hw
  | move _ m ih => exact ih.move m

lemma Strained.lived (hs : s.Strained) : ∃ es, s.Lived es := by
  induction hs with
  | create hw => exact ⟨[], .create hw⟩
  | move _ m ih =>
    obtain ⟨es, hes⟩ := ih
    exact ⟨_, hes.move m⟩

lemma runs_move (hs : s.world.Sound) (m : Move) :
    Runs s.world.handles (s.handleEvents m) (s.move m).world.handles := by
  cases m with
  | operate op => exact op.runs s.world
  | write m => exact World.steady_of_handles (m.rewrites hs).handles_eq
  | play i =>
    simp only [handleEvents, Session.move]
    cases hp : s.scripts[i]? with
    | none => exact .refl
    | some p => exact Script.runs p.commands [] s.world
  | _ =>
    simp only [handleEvents, Session.move]
    repeat' split
    all_goals exact .refl

theorem Lived.runs (hs : s.Lived es) : Runs {} es s.world.handles := by
  induction hs with
  | create hw =>
    obtain ⟨_, _, _, _, _, -, rfl⟩ := hw.eq
    exact .refl
  | move hs m ih => exact ih.trans (runs_move hs.strained.invariant.sound m)

/-- Whatever has happened in a session, as long as no slot was freed 2^32 times: no handle was
issued twice; the valid handles are those that were issued and not freed since, and they are
counted; so a handle that was freed is not valid, whatever became of its slot. The chain of free
slots visits each of them once and ends, and the table is as large as its largest population, an
entity included that was refused after it got a handle. The handles issued are those that operations
and scripts answer. -/
theorem handles_are_never_issued_again (hs : s.Lived es)
    (hfew : ∀ i, HandleTable.timesFreed es i < 2 ^ 32) :
    Runs {} es s.world.handles ∧
    (HandleTable.issued es).Nodup ∧
    (∀ h, s.world.handles.isValid h = true ↔ HandleTable.Standing es h) ∧
    (∀ h, .freed h ∈ es → s.world.handles.isValid h = false) ∧
    {h | s.world.handles.isValid h = true}.encard = s.world.entityCount ∧
    (∃ is, Linked s.world.handles.links s.world.handles.freeHead is ∧ is.Nodup ∧
      ∀ i, i ∈ is ↔ ∃ v next, s.world.handles.records[i]? = some ⟨v, .free next⟩) ∧
    s.world.handles.records.size = HandleTable.peak es ∧
    (∀ op answer w, op.call s.world = .ok answer w →
      HandleTable.issued (s.handleEvents (.operate op)) = answer.toList) ∧
    ∀ i p made w, s.scripts[i]? = some p → (p.playback s.world).1 = .ok made w →
      HandleTable.issued (s.handleEvents (.play i)) = made := by
  have hc := hs.runs.chronicle
  obtain ⟨is, hchain, -⟩ := hc.chain
  refine ⟨hs.runs, hc.nodup_issued hfew, hc.valid, fun h => hc.isValid_of_freed hfew, hc.live,
    ⟨is, hchain.linked, hchain.nodup, fun i => ?_⟩, hc.peak,
    fun op answer w => Operation.issued_of_call, fun i p made w hp hr => ?_⟩
  · simp only [hchain.mem_iff, HandleTable.links_eq_some]
    exact exists_comm
  · rw [Script.issued_of_runAll hr, handleEvents, hp]
    rfl

def history (s : Session) : List Move → List HandleTable.Event
  | [] => []
  | m :: ms => s.handleEvents m ++ (s.move m).history ms

lemma Lived.run (hs : s.Lived es) (ms : List Move) : (s.run ms).Lived (es ++ s.history ms) := by
  induction ms generalizing s es with
  | nil => rwa [history, List.append_nil]
  | cons m ms ih =>
    rw [history, ← List.append_assoc]
    exact ih (hs.move m)

def reusing : List Move :=
  [.register note .none, .operate (.createWith [⟨1⟩]), .operate (.destroy ⟨0, 1⟩),
    .operate (.createWith [⟨1⟩]), .operate (.createWith [⟨5⟩]), .newScript,
    .record 0 (.create ⟨[⟨1⟩]⟩), .play 0]

/-- Both slots are in use, each under its second version. -/
theorem handles_are_never_issued_again_sample :
    HandleTable.issued (blank.history reusing) = [⟨0, 1⟩, ⟨0, 2⟩, ⟨1, 1⟩, ⟨1, 2⟩] ∧
    HandleTable.freed (blank.history reusing) = [⟨0, 1⟩, ⟨1, 1⟩] ∧
    (HandleTable.issued (blank.history reusing)).Nodup ∧
    (blank.run reusing).world.handles.isValid ⟨1, 1⟩ = false ∧
    (blank.run reusing).world.handles.records.size = HandleTable.peak (blank.history reusing) ∧
    HandleTable.peak (blank.history reusing) = 2 := by
  have hlived : (blank.run reusing).Lived (blank.history reusing) := by
    have hnew : blank.Lived [] := .create new_blank
    exact hnew.run reusing
  have hfreed : HandleTable.freed (blank.history reusing) = [⟨0, 1⟩, ⟨1, 1⟩] := by decide +kernel
  have hfew : ∀ i, HandleTable.timesFreed (blank.history reusing) i < 2 ^ 32 := by
    intro i
    rw [HandleTable.timesFreed, hfreed]
    exact List.countP_le_length.trans_lt (by decide)
  have hgone : .freed ⟨1, 1⟩ ∈ blank.history reusing := by decide +kernel
  obtain ⟨-, hnodup, -, hinvalid, -, -, hsize, -⟩ := handles_are_never_issued_again hlived hfew
  exact ⟨by decide +kernel, hfreed, hnodup, hinvalid _ hgone, hsize, by decide +kernel⟩

end Session

end EntityStore
