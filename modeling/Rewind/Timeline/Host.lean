import Rewind.Run
import Rewind.Timeline

namespace Rewind.Timeline

variable {σ ι : Type}

/-- The world a timeline lives in: where it is kept, which of its states are equal, what restoring
one does, and who listens. -/
structure Host (σ ι : Type) where
  timeline : σ → Timeline ι
  update : (Timeline ι → Timeline ι) → σ → σ
  same : σ → ι → ι → Bool
  describe : σ → ι → Except Fault Value
  restore : ι → Run σ Unit
  announce : Notice ι → Run σ Unit
  log : Remark → Run σ Unit

namespace Host

variable (h : Host σ ι)

def look : Run σ (Timeline ι) := fun s ↦ .returned (h.timeline s) s

def tell (x : ι) : Run σ Value := Run.ask fun s ↦ h.describe s x

def change (f : Timeline ι → Timeline ι) : Run σ Unit := Run.modify (h.update f)

def announceChange : Run σ Unit := do
  let t ← h.look
  h.announce (.changed t.canUndo t.canRedo)

/-- Records the state just reached. -/
def add (x : ι) : Run σ Unit := do
  let t ← h.look
  if !t.enabled.truth then h.log (.disabled (← h.tell x))
  else if t.restoring then h.log (.restoring (← h.tell x))
  else
    let same := h.same (← Run.get)
    h.change (·.push same x)
    let t ← Run.lift (← h.look).trim
    h.change fun _ ↦ t
    h.log (.recorded (← h.tell x) t.pointer)
    h.announce (.recorded x)
    h.announceChange

/-- Restores the state at a position and makes it the current one. If that fails, the pointer
stays. -/
def moveTo (i : Int) : Run σ Unit := do
  match Position.item? (← h.look).entries i with
  | none => Run.raise .outOfRange
  | some x =>
    h.change ({ · with restoring := true })
    (h.restore x).ensuring (h.update ({ · with restoring := false }))
    h.change ({ · with pointer := i })
    h.log (.restored (← h.tell x) (← h.look).pointer)
    h.announce (.restored x)
    h.announceChange

/-- Goes back to the state before; nothing happens at the oldest one. -/
def undo : Run σ Unit := do
  let t ← h.look
  if t.isEmpty || t.pointer == 0 then return
  else h.moveTo (t.pointer - 1)

/-- Goes on to the state after; nothing happens at the newest one. -/
def redo : Run σ Unit := do
  let t ← h.look
  if t.pointer == t.entries.length - 1 then return
  else h.moveTo (t.pointer + 1)

def clear : Run σ Unit := do
  h.change (·.empty)
  h.log .cleared
  h.announceChange

end Host

end Rewind.Timeline
