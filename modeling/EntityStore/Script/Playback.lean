import EntityStore.Script

/-!
Playback of scripts. Commands are carried out in order up to the first that fails; the values held
by it and by those behind it are dropped.
-/
namespace EntityStore

namespace Command

/-- Carries out a command. `made` are the handles created so far; they are the answer, with that of
a new entity added. A value that finds no target is dropped. -/
def run (made : List Handle) : Command → Step (List Handle)
  | create s => fun w =>
      match World.createWith s.codes w with
      | .error e w => .error e w
      | .ok h w => .ok (made ++ [h]) w
  | destroy t =>
      match t.resolve made with
      | .error f => Step.refuse f
      | .ok h => Step.answering made (World.destroy h)
  | add t s =>
      match t.resolve made with
      | .error f => Step.refuse f
      | .ok h => Step.answering made (World.addComponents h s.codes)
  | remove t s =>
      match t.resolve made with
      | .error f => Step.refuse f
      | .ok h => Step.answering made (World.removeComponents h s.codes)
  | put t k v =>
      match t.resolve made with
      | .error f => fun w => .error (.refused f) { w with lifetimes := w.lifetimes.drop k v }
      | .ok h => Step.answering made (World.put h k v)

end Command

namespace Script

def runAll : List Command → List Handle → Step (List Handle)
  | [], made => fun w => .ok made w
  | c :: cs, made => fun w =>
      match c.run made w with
      | .ok made w => runAll cs made w
      | .error e w => .error e { w with lifetimes := w.lifetimes.dropAll (held cs) }

/-- Applies a script, answering the handles it created. The script is empty afterwards, whatever
happens. -/
def playback (s : Script) (w : World) : EStateM.Result Failure World (List Handle) × Script :=
  (runAll s.commands [] w, empty)

end Script

end EntityStore
