import Rewind.Session.World

namespace Rewind.Session

/-- What can be done one level deeper: run steps, call an item, run a slot. -/
structure Inner where
  steps : List Step → Run World Unit
  call : Way → Nat → Run World Unit
  fire : Nat → Signal → Slot → List Answer → Run World Unit

def happen (e : Event) : Run World Unit := Run.modify (·.addEvent e)

def log (t : Text) : Run World Unit :=
  Run.modify fun w ↦ if w.logging then w.addEvent (.logged t) else w

/-- Runs the slots connected to a signal in their order: those connected when it starts and still
connected when it is their turn. A slot that fails does not stop the others. -/
def announce (b : Inner) (source : Object) (signal : Signal) (arguments : List Answer) :
    Run World Unit := do
  let due := (← Run.get).links.filter fun l ↦ l.source = source ∧ l.signal = signal
  Run.each due fun l ↦ do
    if (← Run.get).isConnected l.number then
      (b.fire l.number signal l.slot arguments).recover fun e ↦ happen (.slotFailed e)

/-- An item as an argument of a signal. -/
def itself (i : Nat) : Run World Answer := do return .item ((← Run.get).label i)

def announceJournal (b : Inner) (k : Nat) : Journal.Notice Nat → Run World Unit
  | .recorded i => do announce b (.journal k) .commandAdded [← itself i]
  | .undone i => do announce b (.journal k) .undoPerformed [← itself i]
  | .redone i => do announce b (.journal k) .redoPerformed [← itself i]
  | .changed canUndo canRedo =>
    announce b (.journal k) .historyChanged [.bool canUndo, .bool canRedo]

def announceTimeline (b : Inner) (k : Nat) : Timeline.Notice Nat → Run World Unit
  | .recorded i => do announce b (.timeline k) .stateAdded [← itself i]
  | .restored i => do announce b (.timeline k) .stateRestored [← itself i]
  | .changed canUndo canRedo =>
    announce b (.timeline k) .historyChanged [.bool canUndo, .bool canRedo]

/-- A journal of a session. -/
def journalHost (b : Inner) (k : Nat) : Journal.Host World Nat where
  journal w := w.journal k
  update f w := { w with journals := w.journals.modify k f }
  describe := World.describe
  revert w i := (fun _ ↦ b.call .undo i) <$> w.allows i .undo
  reapply w i := (fun _ ↦ b.call .redo i) <$> w.allows i .redo
  announce := announceJournal b k
  log r := log r.text

/-- A timeline of a session. -/
def timelineHost (b : Inner) (k : Nat) : Timeline.Host World Nat where
  timeline w := w.timeline k
  update f w := { w with timelines := w.timelines.modify k f }
  same w := w.sameItem
  describe := World.describe
  restore := b.call .restore
  announce := announceTimeline b k
  log r := log r.text

/-- Selects the given nodes. Only a change is announced. -/
def select (b : Inner) (k : Nat) (nodes : List Value) : Run World Unit := do
  match ← Run.lift (((← Run.get).selection k).select? nodes) with
  | none => return
  | some s =>
    Run.modify fun w ↦ { w with selections := w.selections.set k s }
    announce b (.selection k) .selectionChanged []

/-- Selects the given nodes in an object, which has to be a selection. -/
def selectIn (b : Inner) (o : Object) (nodes : List Value) : Run World Unit :=
  match o with
  | .selection k => select b k nodes
  | o => Run.raise (o.lacks "select")

/-- Records a capture of a selection in a timeline. -/
def recordCapture (b : Inner) (timeline selection : Nat) : Run World Unit := do
  let w ← Run.get
  Run.modify (·.addItem (.capture ⟨none, .selection selection, (w.selection selection).nodes⟩))
  (timelineHost b timeline).add w.items.length

def announceAbilities (b : Inner) (k : Nat) : Run World Unit := do
  let (canUndo, canRedo) := (← Run.get).abilities k
  announce b (.dispatcher k) .stateChanged [.bool canUndo, .bool canRedo]

/-- Chooses the history a dispatcher drives. -/
def setMode (b : Inner) (k : Nat) (v : Value) : Run World Unit := do
  match Mode.ofValue? v with
  | none => Run.raise ((Fault.unknownMode v).showing [v])
  | some mode =>
    let d := (← Run.get).dispatcher k
    if d.mode.same (.text mode.text) then return
    Run.modify fun w ↦
      { w with dispatchers := w.dispatchers.modify k ({ · with mode := .text mode.text }) }
    log ("History mode set to " ++ mode.text)
    announce b (.dispatcher k) .modeChanged [.value (.text mode.text)]
    announceAbilities b k

/-- Undoes with the history a dispatcher drives, and tells whether there was something to undo. -/
def dispatchUndo (b : Inner) (k : Nat) : Run World Bool := do
  if !((← Run.get).abilities k).1 then return false
  let d := (← Run.get).dispatcher k
  if d.usesTimeline then (timelineHost b d.timeline).undo else (journalHost b d.journal).undo
  return true

def dispatchRedo (b : Inner) (k : Nat) : Run World Bool := do
  if !((← Run.get).abilities k).2 then return false
  let d := (← Run.get).dispatcher k
  if d.usesTimeline then (timelineHost b d.timeline).redo else (journalHost b d.journal).redo
  return true

/-- Undoes or redoes for a key that asks for it, and tells whether it was such a key. -/
def shortcut (b : Inner) (k : Nat) (key : Value) : Run World Bool := do
  if key.same (.text "UNDO") then
    let _ ← dispatchUndo b k
    return true
  else if key.same (.text "REDO") then
    let _ ← dispatchRedo b k
    return true
  else return false

/-- The selection that an object is, where its changes are asked for. -/
def changesOf : Object → Except Fault Nat
  | .selection k => .ok k
  | o => .error (o.lacks "selection_changed")

/-- Records the changes of a selection from now on, in place of those of any other. What is no
selection is watched in vain, and then no other can take its place. -/
def watch (b : Inner) (k : Nat) (o : Object) : Run World Unit := do
  let d := (← Run.get).dispatcher k
  if let some watched := d.watched then
    let _ ← Run.lift (changesOf watched)
  Run.modify (·.unwatch k o)
  let selection ← Run.lift (changesOf o)
  Run.modify (·.connect o .selectionChanged (.capture k))
  recordCapture b d.timeline selection

/-- Reads the rows of a listing again. -/
def refresh (b : Inner) (k : Nat) : Run World Unit := do
  Run.modify fun w ↦ { w with reading := k :: w.reading }
  announce b (.listing k) .resetBegun []
  Run.modify fun w ↦
    { w with listings := w.listings.modify k fun l ↦ (⟨(w.entries l.2).toOption.getD []⟩, l.2) }
  announce b (.listing k) .resetDone []
  Run.modify fun w ↦ { w with reading := w.reading.erase k }

/-- Whether a count of calls is still within the bound. -/
def within (count : Nat) (times : Option Int) : Bool := times.all fun n ↦ (count : Int) < n

/-- The most parts that may be added to a group while they are called. -/
def mostAdded : Nat := 1000000

/-- Calls the parts of a group from the given one on, those that are added meanwhile too. -/
def reapplyParts (b : Inner) (group : Nat) : Nat → Nat → Run World Unit
  | 0, _ => Run.exhausted
  | fuel + 1, i => do
    match (← Run.get).items[group]? with
    | some (.group g) =>
      match g.parts[i]? with
      | some part =>
        b.call .redo part
        reapplyParts b group fuel (i + 1)
      | none => return
    | _ => return

/-- Calls an item. -/
def callItem (b : Inner) (way : Way) (i : Nat) : Run World Unit := do
  match (← Run.get).items[i]?, way with
  | some (.edit e), .undo =>
    happen (.called e.name .undo)
    Run.modify fun w ↦ { w with items := w.items.set i (.edit { e with undone := e.undone + 1 }) }
    if within e.undone e.times then b.steps e.undo
  | some (.edit e), .redo =>
    happen (.called e.name .redo)
    Run.modify fun w ↦ { w with items := w.items.set i (.edit { e with redone := e.redone + 1 }) }
    if within e.redone e.times then b.steps e.redo
  | some (.group g), .undo => Run.each g.parts.toList.reverse fun part ↦ b.call .undo part
  | some (.group g), .redo => reapplyParts b i (g.parts.size + mostAdded + 1) 0
  | some (.change c), .undo => selectIn b c.selection c.before
  | some (.change c), .redo => selectIn b c.selection c.after
  | some (.state s), .restore =>
    happen (.called s.name .restore)
    Run.modify fun w ↦
      { w with items := w.items.set i (.state { s with restored := s.restored + 1 }) }
    if within s.restored s.times then b.steps s.restore
  | some (.capture c), .restore => selectIn b c.selection c.nodes
  | _, _ => Run.raise ((← Run.get).lacks i way.operation)

/-- Runs a slot. -/
def fireSlot (b : Inner) (number : Nat) (signal : Signal) (slot : Slot) (arguments : List Answer) :
    Run World Unit := do
  match slot with
  | .record name => happen (.announced name signal arguments)
  | .listen _ _ =>
    match (← Run.get).links.find? fun l ↦ l.number == number with
    | some ⟨_, _, _, .listen steps left⟩ =>
      if within 0 left then
        Run.modify (·.setSlot number (.listen steps (left.map (· - 1))))
        b.steps steps
    | _ => return
  | .refresh listing => if (← Run.get).isFollowing listing then refresh b listing
  | .relay k mode =>
    if ((← Run.get).dispatcher k).mode.same (.text mode.text) then
      announce b (.dispatcher k) .stateChanged arguments
  | .capture k =>
    let d := (← Run.get).dispatcher k
    match d.watched with
    | some (.selection selection) => recordCapture b d.timeline selection
    | _ => return

end Rewind.Session
