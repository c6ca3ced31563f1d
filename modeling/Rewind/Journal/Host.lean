import Rewind.Journal
import Rewind.Run

namespace Rewind.Journal

variable {σ ι : Type}

/-- The world a journal lives in: where it is kept, what its edits do, and who listens to it. What
is recorded may turn out to have no code to revert or to reapply it. -/
structure Host (σ ι : Type) where
  journal : σ → Journal ι
  update : (Journal ι → Journal ι) → σ → σ
  describe : σ → ι → Except Fault Value
  revert : σ → ι → Except Fault (Run σ Unit)
  reapply : σ → ι → Except Fault (Run σ Unit)
  announce : Notice ι → Run σ Unit
  log : Remark → Run σ Unit

namespace Host

variable (h : Host σ ι)

def look : Run σ (Journal ι) := fun s ↦ .returned (h.journal s) s

def tell (x : ι) : Run σ Value := Run.ask fun s ↦ h.describe s x

def change (f : Journal ι → Journal ι) : Run σ Unit := Run.modify (h.update f)

def announceChange : Run σ Unit := do
  let j ← h.look
  h.announce (.changed j.canUndo j.canRedo)

/-- Records an edit that has just been made. -/
def add (x : ι) : Run σ Unit := do
  let j ← h.look
  if !j.enabled.truth then h.log (.disabled (← h.tell x))
  else if j.replaying then h.log (.replaying (← h.tell x))
  else
    h.change (·.push x)
    let j ← Run.lift (← h.look).trim
    h.change fun _ ↦ j
    h.log (.recorded (← h.tell x) j.position)
    h.announce (.recorded x)
    h.announceChange

/-- Runs an edit's own code with recording held off. -/
def replay (action : Run σ Unit) : Run σ Unit := do
  h.change ({ · with replaying := true })
  action.ensuring (h.update ({ · with replaying := false }))

/-- Reverses the last edit in effect. If that fails, the position stays. -/
def undo : Run σ Unit := do
  let j ← h.look
  if !j.canUndo then Run.raise .nothingToUndo
  else match j.last? with
    | none => Run.raise (.atPosition (j.position - 1))
    | some x =>
      h.replay (← Run.ask fun s ↦ h.revert s x)
      h.change (·.move (-1))
      h.log (.undone (← h.tell x) (← h.look).position)
      h.announce (.undone x)
      h.announceChange

/-- Applies the next undone edit again. If that fails, the position stays. -/
def redo : Run σ Unit := do
  let j ← h.look
  if !j.canRedo then Run.raise .nothingToRedo
  else match j.next? with
    | none => Run.raise (.atPosition j.position)
    | some x =>
      h.replay (← Run.ask fun s ↦ h.reapply s x)
      h.change (·.move 1)
      h.log (.redone (← h.tell x) (← h.look).position)
      h.announce (.redone x)
      h.announceChange

def clear : Run σ Unit := do
  h.change (·.empty)
  h.log .cleared
  h.announceChange

/-- The description of the edit that undoing would reverse, empty if there is none. -/
def undoText (s : σ) : Except Fault Value :=
  if !(h.journal s).canUndo then .ok (.text [])
  else match (h.journal s).last? with
    | none => .error (.atPosition ((h.journal s).position - 1))
    | some x => h.describe s x

/-- The description of the edit that redoing would apply again, empty if there is none. -/
def redoText (s : σ) : Except Fault Value :=
  if !(h.journal s).canRedo then .ok (.text [])
  else match (h.journal s).next? with
    | none => .error (.atPosition (h.journal s).position)
    | some x => h.describe s x

end Host

end Rewind.Journal
