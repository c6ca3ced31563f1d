import Rewind.Session.Perform

namespace Rewind.Session

/-- What is seen in a place: an answer, or the fault that comes instead of it. -/
def seen : Except Fault Answer → Value
  | .ok a => a.toValue
  | .error e => e.toValue

/-- The entries of a journal are left out of a brief view. -/
structure JournalView where
  position : Int
  size : Nat
  canUndo : Bool
  canRedo : Bool
  undoText : Value
  redoText : Value
  enabled : Value
  limit : Value
  entries : Option (List Label)
  deriving DecidableEq

structure TimelineView where
  pointer : Int
  size : Nat
  canUndo : Bool
  canRedo : Bool
  isEmpty : Bool
  current : Value
  enabled : Value
  limit : Value
  entries : Option (List Label)
  deriving DecidableEq

/-- What a listing shows of one row. -/
structure RowView where
  display : Value
  edit : Value
  applied : Value
  deriving DecidableEq

structure ListingView where
  rows : Nat
  currentRow : Value
  data : Option (List RowView)
  deriving DecidableEq

structure DispatcherView where
  mode : Value
  canUndo : Bool
  canRedo : Bool
  active : Mode
  deriving DecidableEq

/-- What can be seen of an object from outside. -/
inductive View where
  | journal (v : JournalView)
  | timeline (v : TimelineView)
  | selection (nodes : List Value)
  | listing (v : ListingView)
  | dispatcher (v : DispatcherView)
  deriving DecidableEq

/-- The depth to which steps, calls and slots may nest. -/
def depth : Nat := 1000

def World.view (w : World) (brief : Bool) : Object → View
  | .journal k =>
    let j := w.journal k
    let h := journalHost (inner 0) k
    .journal {
      position := j.position
      size := j.entries.length
      canUndo := j.canUndo
      canRedo := j.canRedo
      undoText := seen ((h.undoText w).map .value)
      redoText := seen ((h.redoText w).map .value)
      enabled := j.enabled
      limit := j.limit
      entries := if brief then none else some (j.entries.map w.label) }
  | .timeline k =>
    let t := w.timeline k
    .timeline {
      pointer := t.pointer
      size := t.entries.length
      canUndo := t.canUndo
      canRedo := t.canRedo
      isEmpty := t.isEmpty
      current := seen (t.current.map fun i ↦
        (i.map fun i ↦ Answer.item (w.label i)).getD .nothing)
      enabled := t.enabled
      limit := t.limit
      entries := if brief then none else some (t.entries.map w.label) }
  | .selection k => .selection (w.selection k).nodes
  | .listing k =>
    let (l, history) := w.listing k
    .listing {
      rows := l.rows.length
      currentRow := seen ((w.position history).map fun p ↦ .int (p - 1))
      data := if brief then none else some ((List.range l.rows.length).map fun row ↦
        ⟨seen (w.cell k row .display), seen (w.cell k row .edit),
          seen (w.cell k row .applied)⟩) }
  | .dispatcher k =>
    let d := w.dispatcher k
    .dispatcher {
      mode := d.mode
      canUndo := (w.abilities k).1
      canRedo := (w.abilities k).2
      active := if d.usesTimeline then .snapshots else .commands }

/-- How a step of a session ends. -/
inductive Ending where
  | answered (a : Answer)
  | failed (e : Fault)
  | tooDeep
  deriving DecidableEq

/-- What is reported of a step: how it ends, what happens on the way, and which objects look
different from before. -/
structure Report where
  ending : Ending
  events : List Event
  changes : List (Text × View)

/-- A world and the views that were last reported of its objects. -/
structure Course where
  world : World := {}
  views : List (Text × View) := []

/-- Performs a step from outside. -/
def Course.step (c : Course) (brief : Bool) (step : Step) : Course × Report :=
  let (ending, world) :=
    match perform (inner depth) step c.world with
    | .returned a w => (Ending.answered a, w)
    | .raised e w => (.failed e, w)
    | .exhausted => (.tooDeep, c.world)
  let views := world.objects.map fun o ↦ (o.1, world.view brief o.2)
  let changes := views.filter fun v ↦ c.views.lookup v.1 ≠ some v.2
  (⟨{ world with events := [] }, views⟩, ⟨ending, world.events.reverse, changes⟩)

/-- Performs the steps of a session one after the other, and reports each. -/
def run (logging brief : Bool) (steps : List Step) : List Report :=
  (steps.foldl (fun (c, reports) step ↦
    let (c, report) := Course.step c brief step
    (c, report :: reports)) (({ world := { logging } } : Course), [])).2.reverse

end Rewind.Session
