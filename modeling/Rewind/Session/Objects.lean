import Rewind.Session.Play

namespace Rewind.Session

def object (name : Text) : Run World Object := Run.ask (·.object name)

def item (name : Text) : Run World Nat := Run.ask (·.item name)

/-- The selection under a name, which is asked for an operation. -/
def selectionOf (name operation : Text) : Run World Nat := do
  match ← object name with
  | .selection k => return k
  | o => Run.raise (o.lacks operation)

/-- The listing under a name, which is asked for an operation. -/
def listingOf (name operation : Text) : Run World Nat := do
  match ← object name with
  | .listing k => return k
  | o => Run.raise (o.lacks operation)

/-- The dispatcher under a name, which is asked for an operation. -/
def dispatcherOf (name operation : Text) : Run World Nat := do
  match ← object name with
  | .dispatcher k => return k
  | o => Run.raise (o.lacks operation)

/-- A new journal. -/
def addJournal (limit : Value) : Run World Nat := do
  let w ← Run.get
  Run.modify fun w ↦ { w with journals := w.journals ++ [{ limit }] }
  return w.journals.length

def addTimeline (limit : Value) : Run World Nat := do
  let w ← Run.get
  Run.modify fun w ↦ { w with timelines := w.timelines ++ [{ limit }] }
  return w.timelines.length

def newSelection (name : Text) (nodes : Value) : Run World Unit := do
  let s ← Run.lift (do Selection.ofNodes (← nodes.members))
  Run.modify fun w ↦
    let k := w.selections.length
    { w with selections := w.selections ++ [s] }.present name (.selection k)

/-- A new listing of a history. It follows the history's changes from now on. -/
def newListing (name history : Text) : Run World Unit := do
  let o ← object history
  let rows ← Run.ask (·.entries o)
  Run.modify fun w ↦
    let k := w.listings.length
    let w := { w with listings := w.listings ++ [(Listing.mk rows, o)] }
    (w.connect o .historyChanged (.refresh k)).present name (.listing k)

/-- A new dispatcher with histories of its own. It passes on their changes before anyone else hears
of them. -/
def newDispatcher (name : Text) (source : Settings.Source Value) : Run World Unit := do
  let settings ← Run.lift (source.settings id)
  let j ← addJournal settings.commandLimit
  let t ← addTimeline settings.snapshotLimit
  let k := (← Run.get).dispatchers.length
  Run.modify fun w ↦
    let w := { w with dispatchers := w.dispatchers ++ [Dispatcher.mk settings.mode j t none] }
    ((w.connect (.journal j) .historyChanged (.relay k .commands)).connect (.timeline t)
      .historyChanged (.relay k .snapshots)).present name (.dispatcher k)
  Run.modify (·.present (name ++ ".commands") (.journal j))
  Run.modify (·.present (name ++ ".snapshots") (.timeline t))

end Rewind.Session
