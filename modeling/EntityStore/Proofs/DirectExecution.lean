import Mathlib
import EntityStore.Proofs.Faults
import EntityStore.Proofs.Session

/-!
# Playback and direct execution

Playing a script does what calling its operations one by one does, each on the entity that its
target names by then. A target that names an entity which has not been created yet is refused, and
that never happens to scripts whose pending targets are numbers that they gave out themselves.
-/
namespace EntityStore

variable {w v w' : World} {c : Command} {cs ds : List Command} {made made' : List Handle}
  {op : Operation} {e : Failure} {f : Fault} {n : Nat}

def World.giveUp (w : World) (vs : List (Kind × Value)) : World :=
  { w with lifetimes := w.lifetimes.dropAll vs }

@[simp] lemma World.giveUp_nil (w : World) : w.giveUp [] = w := rfl

@[simp] lemma World.giveUp_giveUp (w : World) (us vs : List (Kind × Value)) :
    (w.giveUp us).giveUp vs = w.giveUp (us ++ vs) := by
  simp [giveUp, Lifetimes.dropAll]

@[simp] lemma Script.held_append_commands (cs ds : List Command) :
    held (cs ++ ds) = held cs ++ held ds := List.filterMap_append

/-- What a command applies to, if it does not create. -/
def Command.target? : Command → Option Target
  | create _ => none
  | destroy t => some t
  | add t _ => some t
  | remove t _ => some t
  | put t _ _ => some t

/-- Only a pending target can be missing: its entity has not been created yet. -/
theorem Command.operation_eq_error : c.operation made = .error f ↔
    ∃ n, c.target? = some (.pending n) ∧ made.length ≤ n ∧
      f = .outOfRange .pendingEntity n made.length := by
  have hresolve : ∀ t : Target, t.resolve made = .error f ↔
      ∃ n, t = .pending n ∧ made.length ≤ n ∧ f = .outOfRange .pendingEntity n made.length := by
    intro t
    cases t with
    | existing h => simp [Target.resolve]
    | pending n =>
      cases hn : made[n]? with
      | none => simp [Target.resolve, List.getElem?_eq_none_iff.mp hn, eq_comm]
      | some h => simp [Target.resolve, (List.getElem?_eq_some_iff.mp hn).1]
  cases c with
  | create s => simp [operation, target?]
  | destroy t | add t s | remove t s | put t k x =>
    simp only [operation, target?, Option.some.injEq]
    rw [← hresolve t]
    cases t.resolve made <;> simp [Except.map]

lemma Command.target?_shift (k : Nat) (c : Command) :
    (c.shift k).target? = c.target?.map (Target.shift k) := by
  cases c <;> rfl

def Command.creations : Command → Nat
  | create _ => 1
  | _ => 0

@[simp] lemma Command.creations_shift (k : Nat) (c : Command) :
    (c.shift k).creations = c.creations := by
  cases c <;> rfl

lemma Command.length_answer {answer : Option Handle} (ho : c.operation made = .ok op)
    (hc : op.call v = .ok answer w') : answer.toList.length = c.creations := by
  cases c with
  | create s =>
    obtain rfl := Except.ok.inj ho
    simp only [Operation.call, Step.map_apply] at hc
    split at hc
    next =>
      rw [← (EStateM.Result.ok.inj hc).1]
      rfl
    next => cases hc
  | destroy t | add t s | remove t s | put t k x =>
    obtain ⟨h, -, rfl⟩ := ok_of_map ho
    simp only [Operation.call, Step.answering] at hc
    split at hc
    next =>
      rw [← (EStateM.Result.ok.inj hc).1]
      rfl
    next => cases hc

/-- The operations of some commands are called, one by one, and the handles of new entities noted:
a pending target stands for the handle that it numbers. -/
inductive Direct (w : World) : List Command → List Handle → World → Prop
  | nil : Direct w [] [] w
  | snoc {cs : List Command} {made : List Handle} {v v' : World} {c : Command} {op : Operation}
      {answer : Option Handle} (hd : Direct w cs made v) (ho : c.operation made = .ok op)
      (hc : op.call v = .ok answer v') : Direct w (cs ++ [c]) (made ++ answer.toList) v'

lemma Command.run_eq_error : c.run made v = .error e w' ↔
    (∃ op, c.operation made = .ok op ∧ op.call v = .error e w') ∨
      ∃ f, c.operation made = .error f ∧ e = .refused f ∧ w' = v.giveUp c.held.toList := by
  cases ho : c.operation made with
  | ok op =>
    rw [run_call ho, Step.map_apply]
    cases hx : op.call v <;> simp [hx]
  | error f =>
    rw [run_unresolved ho]
    simp [World.giveUp, eq_comm]

lemma Command.run_eq_ok : c.run made v = .ok made' w' ↔
    ∃ op answer, c.operation made = .ok op ∧ op.call v = .ok answer w' ∧
      made' = made ++ answer.toList := by
  cases ho : c.operation made with
  | ok op =>
    rw [run_call ho, Step.map_apply]
    cases hx : op.call v <;> simp [hx, eq_comm, and_comm]
  | error f =>
    rw [run_unresolved ho]
    simp

namespace Script

/-- Commands are played one part after the other. If the first part fails, what the second holds is
given up. -/
theorem runAll_append (cs ds : List Command) (made : List Handle) (w : World) :
    runAll (cs ++ ds) made w =
      match runAll cs made w with
      | .ok made v => runAll ds made v
      | .error e v => .error e (v.giveUp (held ds)) := by
  induction cs generalizing made w with
  | nil => rfl
  | cons c cs ih =>
    simp only [List.cons_append, runAll]
    cases c.run made w with
    | ok made' v => exact ih made' v
    | error e v =>
      simp only [EStateM.Result.error.injEq, true_and]
      rw [held_append_commands]
      exact (World.giveUp_giveUp v _ _).symm

lemma runAll_singleton (c : Command) (made : List Handle) (w : World) :
    runAll [c] made w = c.run made w := by
  simp only [runAll]
  cases c.run made w <;> rfl

theorem runAll_eq_ok : runAll cs [] w = .ok made w' ↔ Direct w cs made w' := by
  constructor
  · intro hr
    induction cs using List.reverseRecOn generalizing made w' with
    | nil =>
      obtain ⟨rfl, rfl⟩ := EStateM.Result.ok.inj hr
      exact .nil
    | append_singleton cs c ih =>
      rw [runAll_append] at hr
      cases hcs : runAll cs [] w with
      | error e v => simp [hcs] at hr
      | ok made' v =>
        simp only [hcs, runAll_singleton] at hr
        obtain ⟨op, answer, ho, hc, rfl⟩ := Command.run_eq_ok.mp hr
        exact .snoc (ih hcs) ho hc
  · intro hd
    induction hd with
    | nil => rfl
    | snoc _ ho hc ih =>
      rw [runAll_append, ih]
      simp only [runAll_singleton]
      exact Command.run_eq_ok.mpr ⟨_, _, ho, hc, rfl⟩

/-- Scripts that were recorded from nothing, with the numbers that their creations gave out: these
alone are used as pending targets. Other such scripts may have been joined to them, whose numbers
mean nothing from then on. -/
inductive Own : Script → List Nat → Prop
  | empty : Own .empty []
  | create {s : Script} {ns : List Nat} (hs : Own s ns) (types : Signature) :
      Own (s.create types).2 ((s.create types).1 :: ns)
  | push {s : Script} {ns : List Nat} {c : Command} {t : Target} (hs : Own s ns)
      (hc : c.target? = some t) (ht : ∀ n, t = .pending n → n ∈ ns) : Own (s.push c) ns
  | append {s t : Script} {ns ms : List Nat} (hs : Own s ns) (ht : Own t ms) : Own (s.append t) ns

/-- How many entities commands create. -/
def creations (cs : List Command) : Nat := (cs.map Command.creations).sum

@[simp] lemma creations_nil : creations [] = 0 := rfl

@[simp] lemma creations_cons (c : Command) (cs : List Command) :
    creations (c :: cs) = c.creations + creations cs := rfl

@[simp] lemma creations_append (cs ds : List Command) :
    creations (cs ++ ds) = creations cs + creations ds := by
  simp [creations]

@[simp] lemma creations_shift (k : Nat) (cs : List Command) :
    creations (cs.map (·.shift k)) = creations cs := by
  simp [creations, Function.comp_def]

/-- Every pending target of the commands names an entity that was created before, if there were `n`
of them at the start. -/
def Grounded : Nat → List Command → Prop
  | _, [] => True
  | n, c :: cs =>
      (∀ m, c.target? = some (.pending m) → m < n) ∧ Grounded (n + c.creations) cs

lemma grounded_singleton :
    Grounded n [c] ↔ ∀ m, c.target? = some (.pending m) → m < n := by
  simp [Grounded]

lemma grounded_append :
    Grounded n (cs ++ ds) ↔ Grounded n cs ∧ Grounded (n + creations cs) ds := by
  induction cs generalizing n with
  | nil => simp [Grounded]
  | cons c cs ih => simp [Grounded, ih, and_assoc, Nat.add_assoc]

lemma Grounded.shift (hg : Grounded n cs) (k : Nat) : Grounded (n + k) (cs.map (·.shift k)) := by
  induction cs generalizing n with
  | nil => trivial
  | cons c cs ih =>
    obtain ⟨hc, hcs⟩ := hg
    refine ⟨fun m hm => ?_, ?_⟩
    · rw [Command.target?_shift, Option.map_eq_some_iff] at hm
      obtain ⟨t, ht, hshift⟩ := hm
      cases t with
      | existing h => cases hshift
      | pending i =>
        obtain rfl := Target.pending.inj hshift
        exact Nat.add_lt_add_right (hc i ht) k
    · have hrest := ih hcs
      rwa [Nat.add_right_comm, ← Command.creations_shift k c] at hrest

lemma Own.grounded {s : Script} {ns : List Nat} (hs : s.Own ns) :
    Grounded 0 s.commands ∧ s.created = creations s.commands ∧ ∀ n ∈ ns, n < s.created := by
  induction hs with
  | empty => exact ⟨trivial, rfl, fun n hn => by cases hn⟩
  | @create s ns _ types ih =>
    obtain ⟨hg, hcount, hnumbers⟩ := ih
    have hlast : Grounded (0 + creations s.commands) [.create types] :=
      grounded_singleton.mpr fun m hm => by cases hm
    refine ⟨grounded_append.mpr ⟨hg, hlast⟩, ?_, fun n hn => ?_⟩
    · simp [Script.create, hcount, Command.creations]
    · rcases List.mem_cons.mp hn with rfl | hn
      · exact Nat.lt_succ_self _
      · exact (hnumbers n hn).trans (Nat.lt_succ_self _)
  | @push s ns c t _ hc ht ih =>
    obtain ⟨hg, hcount, hnumbers⟩ := ih
    have hzero : c.creations = 0 := by
      cases c with
      | create types => cases hc
      | _ => rfl
    refine ⟨grounded_append.mpr ⟨hg, grounded_singleton.mpr fun m hm => ?_⟩, ?_, hnumbers⟩
    · rw [Nat.zero_add, ← hcount]
      exact hnumbers m (ht m (Option.some.inj (hc.symm.trans hm)))
    · simp [Script.push, hcount, hzero]
  | @append s t ns ms _ _ ih ih' =>
    obtain ⟨hg, hcount, hnumbers⟩ := ih
    obtain ⟨hg', hcount', -⟩ := ih'
    refine ⟨grounded_append.mpr ⟨hg, ?_⟩, ?_, fun n hn => ?_⟩
    · rw [← hcount]
      exact hg'.shift s.created
    · simp [Script.append, hcount, hcount']
    · exact (hnumbers n hn).trans_le (Nat.le_add_right _ _)

lemma own_merge {ps : List Script} (hps : ∀ p ∈ ps, ∃ ns, p.Own ns) : (merge ps).Own [] := by
  have hjoin : ∀ q : Script, q.Own [] → (ps.foldl append q).Own [] := by
    induction ps with
    | nil => exact fun q hq => hq
    | cons p ps ih =>
      intro q hq
      obtain ⟨ns, hp⟩ := hps p List.mem_cons_self
      exact ih (fun r hr => hps r (List.mem_cons_of_mem p hr)) _ (hq.append hp)
  exact hjoin .empty .empty

end Script

lemma Direct.length_made (hd : Direct w cs made v) : made.length = Script.creations cs := by
  induction hd with
  | nil => rfl
  | snoc _ ho hc ih => simp [ih, Command.length_answer ho hc]

namespace Script

/-- Playing commands fails when an operation does, after those before it, or when a target names an
entity that has not been created yet. -/
theorem runAll_eq_error_iff : runAll cs [] w = .error e w' ↔ ∃ before c behind made v,
    cs = before ++ c :: behind ∧ Direct w before made v ∧
      ((∃ op v', c.operation made = .ok op ∧ op.call v = .error e v' ∧
          w' = v'.giveUp (held behind)) ∨
        ∃ n, c.target? = some (.pending n) ∧ creations before ≤ n ∧
          e = .refused (.outOfRange .pendingEntity n made.length) ∧
          w' = v.giveUp (held (c :: behind))) := by
  have hheld : ∀ c : Command, ∀ ds v, (World.giveUp v c.held.toList).giveUp (held ds) =
      v.giveUp (held (c :: ds)) := by
    intro c ds v
    rw [World.giveUp_giveUp, held, held, List.filterMap_cons]
    cases c.held <;> rfl
  constructor
  · intro hr
    obtain ⟨before, c, behind, made, v, v', rfl, hbefore, hc, hw'⟩ := runAll_eq_error hr
    have hd := runAll_eq_ok.mp hbefore
    refine ⟨before, c, behind, made, v, rfl, hd, ?_⟩
    rcases Command.run_eq_error.mp hc with ⟨op, ho, hop⟩ | ⟨f, hf, rfl, rfl⟩
    · exact .inl ⟨op, v', ho, hop, hw'⟩
    · obtain ⟨n, ht, hle, rfl⟩ := Command.operation_eq_error.mp hf
      rw [hd.length_made] at hle
      exact .inr ⟨n, ht, hle, rfl, hw'.trans (hheld c behind v)⟩
  · rintro ⟨before, c, behind, made, v, rfl, hd, hcase⟩
    rw [runAll_append, runAll_eq_ok.mpr hd]
    simp only [runAll]
    rcases hcase with ⟨op, v', ho, hop, rfl⟩ | ⟨n, ht, hle, rfl, rfl⟩
    · rw [Command.run_eq_error.mpr (.inl ⟨op, ho, hop⟩)]
      rfl
    · rw [← hd.length_made] at hle
      have hf := Command.operation_eq_error.mpr ⟨n, ht, hle, rfl⟩
      rw [Command.run_eq_error.mpr (.inr ⟨_, hf, rfl, rfl⟩), ← hheld]
      rfl

theorem Own.playback_ne {p : Script} {ns : List Nat} (hp : p.Own ns) {i n : Nat} :
    (p.playback w).1 ≠ .error (.refused (.outOfRange .pendingEntity i n)) w' := by
  intro hr
  obtain ⟨before, c, behind, made, v, hcommands, hd, hcase⟩ := runAll_eq_error_iff.mp hr
  rcases hcase with ⟨op, v', -, hc, -⟩ | ⟨m, ht, hle, -⟩
  · exact Operation.ofStore_call hc i n rfl
  · have hg := hp.grounded.1
    rw [hcommands, grounded_append] at hg
    have hlt := hg.2.1 m ht
    omega

/-- Every script does what its operations do, called directly one by one, each on the entity that
its target names by then. If none fails the handles of the new entities are the answer; otherwise it
ends at the first that fails, with what was done before, and the values of the commands behind are
given up. A target that names an entity not yet created is refused and nothing is done for it. The
script is empty afterwards and numbers entities from 0. A script that targets its own entities is
never refused a pending one, and neither is one merged from such scripts. -/
theorem playback_is_direct_execution (w : World) :
    (∀ p : Script,
      (∀ made w', (p.playback w).1 = .ok made w' ↔ Direct w p.commands made w') ∧
      (∀ e w', (p.playback w).1 = .error e w' ↔ ∃ before c behind made v,
        p.commands = before ++ c :: behind ∧ Direct w before made v ∧
          ((∃ op v', c.operation made = .ok op ∧ op.call v = .error e v' ∧
              w' = v'.giveUp (held behind)) ∨
            ∃ n, c.target? = some (.pending n) ∧ creations before ≤ n ∧
              e = .refused (.outOfRange .pendingEntity n made.length) ∧
              w' = v.giveUp (held (c :: behind)))) ∧
      (p.playback w).2 = .empty ∧ ∀ types, ((p.playback w).2.create types).1 = 0) ∧
    (∀ (p : Script) ns, p.Own ns → ∀ i n w',
      (p.playback w).1 ≠ .error (.refused (.outOfRange .pendingEntity i n)) w') ∧
    ∀ ps : List Script, (∀ p ∈ ps, ∃ ns, p.Own ns) → ∀ i n w',
      ((merge ps).playback w).1 ≠ .error (.refused (.outOfRange .pendingEntity i n)) w' := by
  exact ⟨fun p => ⟨fun made w' => runAll_eq_ok, fun e w' => runAll_eq_error_iff, rfl,
    fun types => rfl⟩, fun p ns hp i n w' => hp.playback_ne,
    fun ps hps i n w' => (own_merge hps).playback_ne⟩

def noting : Script :=
  (empty.create ⟨[⟨1⟩]⟩).2.push (.put (.pending 0) Session.note (.text "new"))

def premature : Script := noting.push (.destroy (.pending 1))

/-- The first script makes one entity, in the slot that is free; the second is refused after
that. -/
theorem playback_is_direct_execution_sample :
    (∃ w', Direct Session.sample.world noting.commands [⟨0, 2⟩] w') ∧
    noting.Own [0] ∧
    (∀ i n w', (noting.playback Session.sample.world).1 ≠
      .error (.refused (.outOfRange .pendingEntity i n)) w') ∧
    World.failure (premature.playback Session.sample.world).1 =
      some (.refused (.outOfRange .pendingEntity 1 1)) ∧
    ∃ before c behind made v, premature.commands = before ++ c :: behind ∧
      Direct Session.sample.world before made v := by
  obtain ⟨hplay, hown, -⟩ := playback_is_direct_execution Session.sample.world
  have hnoting : noting.Own [0] := .push (.create .empty _) rfl (by simp)
  have hfailure : World.failure (premature.playback Session.sample.world).1 =
      some (.refused (.outOfRange .pendingEntity 1 1)) := by decide +kernel
  have hanswer : (match (noting.playback Session.sample.world).1 with
      | .ok made _ => some made
      | .error _ _ => none) = some [⟨0, 2⟩] := by decide +kernel
  refine ⟨?_, hnoting, hown noting [0] hnoting, hfailure, ?_⟩
  · cases hr : (noting.playback Session.sample.world).1 with
    | ok made w' =>
      obtain rfl : made = [⟨0, 2⟩] := by simpa [hr] using hanswer
      exact ⟨w', ((hplay noting).1 _ w').mp hr⟩
    | error e w' => simp [hr] at hanswer
  · obtain ⟨before, c, behind, made, v, hcommands, hd, -⟩ :=
      ((hplay premature).2.1 _ _).mp (World.eq_error_of_failure hfailure)
    exact ⟨before, c, behind, made, v, hcommands, hd⟩

end Script

end EntityStore
