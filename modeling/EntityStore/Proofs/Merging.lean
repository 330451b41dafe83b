import Mathlib
import EntityStore.Proofs.DirectExecution

/-!
# Merged scripts

Playing a merged script is playing its parts one after the other, up to the first that fails. The
targets of a part are numbered on by the creations before it, and so are the numbers in its faults.
-/
namespace EntityStore

variable {w v w' : World} {c : Command} {cs ds : List Command} {first made made' : List Handle}
  {e : Failure} {f : Fault} {ps : List Script}

/-- The same fault after `k` creations have been put in front. -/
def Fault.shift (k : Nat) : Fault → Fault
  | outOfRange .pendingEntity i n => outOfRange .pendingEntity (i + k) (n + k)
  | f => f

lemma Fault.OfStore.shift (hf : f.OfStore) (k : Nat) : f.shift k = f := by
  unfold Fault.shift
  split
  next i n => exact absurd rfl (hf i n)
  next => rfl

lemma Fault.shift_shift (j k : Nat) (f : Fault) : (f.shift j).shift k = f.shift (j + k) := by
  by_cases hf : f.OfStore
  · rw [hf.shift, hf.shift, hf.shift]
  · obtain ⟨i, n, rfl⟩ : ∃ i n, f = .outOfRange .pendingEntity i n := by simpa [OfStore] using hf
    simp [shift, Nat.add_assoc]

lemma Fault.shift_zero (f : Fault) : f.shift 0 = f := by
  unfold shift
  split <;> rfl

def Failure.shift (k : Nat) : Failure → Failure
  | refused f => refused (f.shift k)
  | aborted => aborted

@[simp] lemma Failure.shift_zero (e : Failure) : e.shift 0 = e := by
  cases e with
  | refused f => exact congrArg refused f.shift_zero
  | aborted => rfl

lemma Failure.shift_shift (j k : Nat) (e : Failure) : (e.shift j).shift k = e.shift (j + k) := by
  cases e with
  | refused f => exact congrArg refused (f.shift_shift j k)
  | aborted => rfl

lemma Command.held_shift (k : Nat) (c : Command) : (c.shift k).held = c.held := by
  cases c <;> rfl

@[simp] lemma Script.held_shift (k : Nat) (cs : List Command) :
    held (cs.map (·.shift k)) = held cs := by
  simp [held, List.filterMap_map, Command.held_shift]

lemma Target.resolve_shift (t : Target) (first made : List Handle) :
    (t.shift first.length).resolve (first ++ made) =
      (t.resolve made).mapError (Fault.shift first.length) := by
  cases t with
  | existing h => rfl
  | pending n =>
    have hget : (first ++ made)[n + first.length]? = made[n]? := by
      rw [List.getElem?_append_right (Nat.le_add_left _ _), Nat.add_sub_cancel]
    simp only [Target.shift, Target.resolve, hget]
    cases made[n]? with
    | some h => rfl
    | none => simp [Except.mapError, Fault.shift, Nat.add_comm]

lemma Command.operation_shift (c : Command) (first made : List Handle) :
    (c.shift first.length).operation (first ++ made) =
      (c.operation made).mapError (Fault.shift first.length) := by
  cases c with
  | create s => rfl
  | destroy t | add t s | remove t s | put t k x =>
    simp only [shift, operation, Target.resolve_shift]
    cases t.resolve made <;> rfl

def shifted (first : List Handle) :
    EStateM.Result Failure World (List Handle) → EStateM.Result Failure World (List Handle)
  | .ok made v => .ok (first ++ made) v
  | .error e v => .error (e.shift first.length) v

/-- A command numbered on does what it does without the entities in front. -/
theorem Command.run_shift (c : Command) (first made : List Handle) (w : World) :
    (c.shift first.length).run (first ++ made) w = shifted first (c.run made w) := by
  have hshift := c.operation_shift first made
  cases ho : c.operation made with
  | error f =>
    rw [ho] at hshift
    rw [run_unresolved hshift, run_unresolved ho, held_shift]
    rfl
  | ok op =>
    rw [ho] at hshift
    rw [run_call hshift, run_call ho, Step.map_apply, Step.map_apply]
    cases hc : op.call w with
    | ok answer v => simp [shifted]
    | error e v =>
      cases e with
      | aborted => rfl
      | refused f => simp [shifted, Failure.shift, (Operation.ofStore_call hc).shift]

namespace Script

theorem runAll_shift (cs : List Command) (first made : List Handle) (w : World) :
    runAll (cs.map (·.shift first.length)) (first ++ made) w =
      shifted first (runAll cs made w) := by
  induction cs generalizing made w with
  | nil => rfl
  | cons c cs ih =>
    simp only [List.map_cons, runAll, Command.run_shift]
    cases c.run made w with
    | ok made' v => exact ih made' v
    | error e v => simp [shifted]

/-- Scripts as they can be recorded and joined, with any targets. -/
inductive Recorded : Script → Prop
  | empty : Recorded .empty
  | record {s : Script} (hs : Recorded s) (c : Command) : Recorded (s.record c)
  | append {s t : Script} (hs : Recorded s) (ht : Recorded t) : Recorded (s.append t)

lemma Recorded.created {s : Script} (hs : s.Recorded) : s.created = creations s.commands := by
  induction hs with
  | empty => rfl
  | record _ c ih =>
    cases c <;> simp [Script.record, Script.create, push, Command.creations, ih]
  | append _ _ ih ih' => simp [Script.append, ih, ih']

lemma length_made (hr : runAll cs [] w = .ok made v) : made.length = creations cs :=
  (runAll_eq_ok.mp hr).length_made

theorem runAll_append_script {s : Script} (hs : s.Recorded) (t : Script) (w : World) :
    runAll (s.append t).commands [] w =
      match runAll s.commands [] w with
      | .ok made v => shifted made (runAll t.commands [] v)
      | .error e v => .error e (v.giveUp (held t.commands)) := by
  simp only [Script.append]
  rw [runAll_append]
  cases hr : runAll s.commands [] w with
  | error e v => simp
  | ok made v =>
    have hlength : s.created = made.length := hs.created.trans (length_made hr).symm
    have hshift := runAll_shift t.commands made [] v
    rw [List.append_nil] at hshift
    rw [hlength]
    exact hshift

lemma foldl_append (ps : List Script) (q : Script) : ps.foldl append q = q.append (merge ps) := by
  induction ps generalizing q with
  | nil => exact (append_empty q).symm
  | cons p ps ih =>
    have hmerge : merge (p :: ps) = p.append (merge ps) := by
      rw [merge, List.foldl_cons, ih, empty_append]
    rw [List.foldl_cons, ih, append_assoc, hmerge]

lemma merge_cons (p : Script) (ps : List Script) : merge (p :: ps) = p.append (merge ps) := by
  rw [merge, List.foldl_cons, foldl_append, empty_append]

lemma merge_append (ps qs : List Script) : merge (ps ++ qs) = (merge ps).append (merge qs) := by
  rw [merge, List.foldl_append, foldl_append]
  rfl

/-- Merged scripts can be merged in turn. -/
theorem merge_map_merge (pss : List (List Script)) : merge (pss.map merge) = merge pss.flatten := by
  induction pss with
  | nil => rfl
  | cons ps pss ih => rw [List.map_cons, merge_cons, ih, List.flatten_cons, merge_append]

lemma held_merge (ps : List Script) :
    held (merge ps).commands = ps.flatMap fun p => held p.commands := by
  induction ps with
  | nil => rfl
  | cons p ps ih => simp [merge_cons, Script.append, ih]

/-- Plays scripts one after the other up to the first that fails. -/
def playAll : List Script → Step (List (List Handle))
  | [] => fun w => .ok [] w
  | p :: ps => fun w =>
      match (p.playback w).1 with
      | .error e w => .error e w
      | .ok made w =>
          match playAll ps w with
          | .error e w => .error e w
          | .ok lists w => .ok (made :: lists) w

theorem playback_merge_ok (hps : ∀ p ∈ ps, p.Recorded) {lists : List (List Handle)}
    (hr : playAll ps w = .ok lists w') : ((merge ps).playback w).1 = .ok lists.flatten w' := by
  induction ps generalizing w lists with
  | nil =>
    obtain ⟨rfl, rfl⟩ := EStateM.Result.ok.inj hr
    rfl
  | cons p ps ih =>
    obtain ⟨hp, hps⟩ := List.forall_mem_cons.mp hps
    simp only [playAll, playback] at hr
    simp only [playback] at ih ⊢
    rw [merge_cons, runAll_append_script hp]
    cases hfirst : runAll p.commands [] w with
    | error e v => simp [hfirst] at hr
    | ok made v =>
      cases hrest : playAll ps v with
      | error e u => simp [hfirst, hrest] at hr
      | ok lists' u =>
        simp only [hfirst, hrest, EStateM.Result.ok.injEq] at hr
        obtain ⟨rfl, rfl⟩ := hr
        simp [ih hps hrest, shifted]

theorem playback_merge_error (hps : ∀ p ∈ ps, p.Recorded) (hr : playAll ps w = .error e w') :
    ∃ before p behind lists v, ps = before ++ p :: behind ∧ playAll before w = .ok lists v ∧
      (p.playback v).1 = .error e w' ∧ ((merge ps).playback w).1 =
        .error (e.shift (before.map fun q => creations q.commands).sum)
          (w'.giveUp (behind.flatMap fun q => held q.commands)) := by
  induction ps generalizing w with
  | nil => cases hr
  | cons p ps ih =>
    obtain ⟨hp, hps⟩ := List.forall_mem_cons.mp hps
    simp only [playAll, playback] at hr
    simp only [playback] at ih ⊢
    rw [merge_cons, runAll_append_script hp]
    cases hfirst : runAll p.commands [] w with
    | error e' v =>
      simp only [hfirst, EStateM.Result.error.injEq] at hr
      obtain ⟨rfl, rfl⟩ := hr
      exact ⟨[], p, ps, [], w, rfl, rfl, hfirst, by simp [held_merge]⟩
    | ok made v =>
      cases hrest : playAll ps v with
      | ok lists' u => simp [hfirst, hrest] at hr
      | error e' u =>
        simp only [hfirst, hrest, EStateM.Result.error.injEq] at hr
        obtain ⟨rfl, rfl⟩ := hr
        obtain ⟨before, q, behind, lists, x, rfl, hbefore, hq, hmerge⟩ := ih hps hrest
        refine ⟨p :: before, q, behind, made :: lists, x, rfl, ?_, hq, ?_⟩
        · simp only [playAll, playback, hfirst, hbefore]
        · rw [List.map_cons, List.sum_cons, ← length_made hfirst, Nat.add_comm,
            ← Failure.shift_shift]
          simp only [hmerge, shifted]

lemma prefix_of_runAll (hr : runAll cs made w = .ok made' w') : made <+: made' := by
  induction cs generalizing made w with
  | nil => rw [(EStateM.Result.ok.inj hr).1]
  | cons c cs ih =>
    simp only [runAll] at hr
    cases hc : c.run made w with
    | error e v => simp [hc] at hr
    | ok made'' v =>
      simp only [hc] at hr
      obtain ⟨op, answer, -, -, rfl⟩ := Command.run_eq_ok.mp hc
      exact (List.prefix_append made _).trans (ih hr)

/-- The number that a creation answers stands for its entity, whatever is carried out behind it. -/
theorem resolve_create {p : Script} (hp : p.Recorded) {types : Signature} {rest : List Command}
    (hr : runAll ((p.create types).2.commands ++ rest) [] w = .ok made' w') :
    ∃ made v h v', runAll p.commands [] w = .ok made v ∧ World.createWith types.codes v = .ok h v' ∧
      (Target.pending (p.create types).1).resolve made' = .ok h := by
  have hcommands : (p.create types).2.commands ++ rest =
      p.commands ++ ([.create types] ++ rest) := by
    simp [Script.create]
  rw [hcommands, runAll_append] at hr
  cases hbefore : runAll p.commands [] w with
  | error e v => simp [hbefore] at hr
  | ok made v =>
    simp only [hbefore, runAll_append, runAll_singleton, Command.run] at hr
    cases hcreate : World.createWith types.codes v with
    | error e v' => simp [hcreate] at hr
    | ok h v' =>
      simp only [hcreate] at hr
      obtain ⟨more, rfl⟩ := prefix_of_runAll hr
      refine ⟨made, v, h, v', rfl, hcreate, ?_⟩
      have hnumber : (p.create types).1 = made.length := hp.created.trans (length_made hbefore).symm
      simp [Target.resolve, hnumber]

/-- Whatever recorded scripts are merged, and on whatever store they are played, with any targets:
playing the merged script ends as playing them one after the other up to the first that fails. If
none fails the answer is that of all of them together. If one fails, so does the merged script, with
the same fault, numbered on by the creations of the scripts before it, and the values that those
behind hold are given up. It does not matter how scripts are joined or merged in groups, and the
number that a creation answers keeps standing for its entity. -/
theorem merged_playback_is_sequential :
    (∀ ps : List Script, (∀ p ∈ ps, p.Recorded) → ∀ w,
      (∀ lists w', playAll ps w = .ok lists w' →
        ((merge ps).playback w).1 = .ok lists.flatten w') ∧
      ∀ e w', playAll ps w = .error e w' →
        ∃ before p behind lists v, ps = before ++ p :: behind ∧ playAll before w = .ok lists v ∧
          (p.playback v).1 = .error e w' ∧ ((merge ps).playback w).1 =
            .error (e.shift (before.map fun q => creations q.commands).sum)
              (w'.giveUp (behind.flatMap fun q => held q.commands))) ∧
    (∀ r s t : Script, (r.append s).append t = r.append (s.append t)) ∧
    (∀ s : Script, s.append .empty = s ∧ Script.empty.append s = s) ∧
    (∀ pss : List (List Script), merge (pss.map merge) = merge pss.flatten) ∧
    ∀ p : Script, p.Recorded → ∀ types rest w made' w',
      runAll ((p.create types).2.commands ++ rest) [] w = .ok made' w' →
        ∃ made v h v', runAll p.commands [] w = .ok made v ∧
          World.createWith types.codes v = .ok h v' ∧
          (Target.pending (p.create types).1).resolve made' = .ok h :=
  ⟨fun _ hps _ => ⟨fun _ _ => playback_merge_ok hps, fun _ _ => playback_merge_error hps⟩,
    append_assoc, fun s => ⟨append_empty s, empty_append s⟩, merge_map_merge,
    fun _ hp _ _ _ _ _ => resolve_create hp⟩

/-- The second script is refused an entity of its own that it has not made: behind the creation of
the first one its number is one larger. -/
theorem merged_playback_is_sequential_sample :
    (∀ p ∈ [noting, premature], p.Recorded) ∧
    World.failure (playAll [noting, premature] Session.sample.world) =
      some (.refused (.outOfRange .pendingEntity 1 1)) ∧
    (∃ k w', ((merge [noting, premature]).playback Session.sample.world).1 =
      .error (Failure.shift k (.refused (.outOfRange .pendingEntity 1 1))) w') ∧
    World.failure ((merge [noting, premature]).playback Session.sample.world).1 =
      some (.refused (.outOfRange .pendingEntity 2 2)) := by
  have hnoting : noting.Recorded :=
    .record (.record .empty (.create ⟨[⟨1⟩]⟩)) (.put (.pending 0) Session.note (.text "new"))
  have hrecorded : ∀ p ∈ [noting, premature], p.Recorded := by
    intro p hp
    simp only [List.mem_cons, List.not_mem_nil, or_false] at hp
    rcases hp with rfl | rfl
    · exact hnoting
    · exact .record hnoting (.destroy (.pending 1))
  have hfailure : World.failure (playAll [noting, premature] Session.sample.world) =
      some (.refused (.outOfRange .pendingEntity 1 1)) := by decide +kernel
  obtain ⟨before, p, behind, lists, v, -, -, -, hmerged⟩ :=
    (merged_playback_is_sequential.1 _ hrecorded Session.sample.world).2 _ _
      (World.eq_error_of_failure hfailure)
  exact ⟨hrecorded, hfailure, ⟨_, _, hmerged⟩, by decide +kernel⟩

end Script

end EntityStore
