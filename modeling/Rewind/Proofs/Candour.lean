import Rewind.Proofs.Relaying

namespace Rewind.Session

/-- What an object tells of what can be undone and redone now. -/
def World.tidings (w : World) : Object → List Answer
  | .journal k => [.bool (w.journal k).canUndo, .bool (w.journal k).canRedo]
  | .timeline k => [.bool (w.timeline k).canUndo, .bool (w.timeline k).canRedo]
  | .dispatcher k => [.bool (w.abilities k).1, .bool (w.abilities k).2]
  | .selection _ | .listing _ => []

/-- Tells of a dispatcher what a link would tell, but takes nothing on trust: what the dispatcher
can do is looked up at that moment, and nothing is told when it does not drive the history that has
announced a change. -/
def tellTruly (b : Inner) (l : Link) : Run World Unit := do
  let w ← Run.get
  match l.slot with
  | .relay k mode =>
    if (w.dispatcher k).mode.same (.text mode.text) ∧ l.source = w.driven k then
      announceAbilities b k
  | .record name =>
    match l.source, l.signal with
    | .dispatcher k, .stateChanged =>
      happen (.announced name .stateChanged (w.tidings (.dispatcher k)))
    | _, _ => return
  | _ => return

/-- Runs a slot. If it tells of a dispatcher, it does not go by what it is handed. -/
def candidSlot (b : Inner) (number : Nat) (signal : Signal) (slot : Slot)
    (arguments : List Answer) : Run World Unit := do
  if slot.tells signal then
    match (← Run.get).links.find? fun l ↦ l.number == number with
    | some l => tellTruly b l
    | none => return
  else fireSlot b number signal slot arguments

/-- What can be done inside, down to a depth, if slots take nothing on trust. -/
def candid : Nat → Inner
  | 0 => inner 0
  | n + 1 => ⟨nested (candid n), callItem (candid n), candidSlot (candid n)⟩

/-- What is done one level deeper is the same in both ways. What tells of a dispatcher has to be
fired at its link, with what is true. -/
structure Inner.Alike (b b' : Inner) : Prop where
  upholds : b.Upholds .any InPlace
  steps : ∀ {w} steps, InPlace w → b.steps steps w = b'.steps steps w
  call : ∀ {w} way i, InPlace w → b.call way i w = b'.call way i w
  fire : ∀ {w} (l : Link) arguments, InPlace w →
    (l.tells = true → l ∈ w.links ∧ arguments = w.tidings l.source) →
    b.fire l.number l.signal l.slot arguments w = b'.fire l.number l.signal l.slot arguments w

variable {b b' : Inner} {w : World} {α : Type}

theorem World.tidings_driven (w : World) (k : Nat) :
    w.tidings (w.driven k) = w.tidings (.dispatcher k) := by
  unfold driven
  dsimp only
  split
  · rename_i h
    simp only [tidings, abilities, if_pos h]
  · rename_i h
    simp only [tidings, abilities, if_neg h]

theorem World.Wired.signal_of_tells (h : w.Wired) {l : Link} (hl : l ∈ w.links)
    (ht : l.tells = true) : l.signal = .historyChanged ∨ l.signal = .stateChanged := by
  unfold Link.tells at ht
  cases hs : l.slot with
  | relay k mode => exact .inl (h.relayed l hl k mode hs).1
  | record name =>
    rw [hs] at ht
    exact .inr (of_decide_eq_true ht)
  | listen | refresh | capture =>
    rw [hs] at ht
    cases ht

section Hosts

variable (b b' : Inner) (k : Nat)

theorem journal_look : (journalHost b k).look.Agree (journalHost b' k).look InPlace :=
  fun _ hw ↦ ⟨rfl, hw⟩

theorem journal_tell (i : Nat) :
    ((journalHost b k).tell i).Agree ((journalHost b' k).tell i) InPlace := .ask _

theorem journal_log (r : Journal.Remark) :
    ((journalHost b k).log r).Agree ((journalHost b' k).log r) InPlace :=
  (upheld_inPlace.log r.text).agree

theorem journal_change (f : Journal Nat → Journal Nat) :
    ((journalHost b k).change f).Agree ((journalHost b' k).change f) InPlace :=
  (Run.Keeps.modify fun _ hw ↦ aloof_inPlace.journal k f hw).agree

theorem timeline_look : (timelineHost b k).look.Agree (timelineHost b' k).look InPlace :=
  fun _ hw ↦ ⟨rfl, hw⟩

theorem timeline_tell (i : Nat) :
    ((timelineHost b k).tell i).Agree ((timelineHost b' k).tell i) InPlace := .ask _

theorem timeline_log (r : Timeline.Remark) :
    ((timelineHost b k).log r).Agree ((timelineHost b' k).log r) InPlace :=
  (upheld_inPlace.log r.text).agree

theorem timeline_change (f : Timeline Nat → Timeline Nat) :
    ((timelineHost b k).change f).Agree ((timelineHost b' k).change f) InPlace :=
  (Run.Keeps.modify fun _ hw ↦ aloof_inPlace.timeline k f hw).agree

end Hosts

theorem journal_replay {b b' : Inner} (k : Nat) {code code' : Run World Unit}
    (hc : code.Agree code' InPlace) :
    ((journalHost b k).replay code).Agree ((journalHost b' k).replay code') InPlace :=
  .bind (journal_change b b' k _) fun _ ↦ hc.ensuring fun _ hw ↦ aloof_inPlace.journal k _ hw

theorem World.Sound.find?_link (h : w.Sound) {l : Link} (hl : l ∈ w.links) :
    (w.links.find? fun m ↦ m.number == l.number) = some l := by
  cases hf : w.links.find? fun m ↦ m.number == l.number with
  | none => exact absurd (List.find?_eq_none.1 hf l hl) (by simp)
  | some m =>
    have hn := List.find?_some hf
    rw [h.eq_of_number (List.mem_of_find?_eq_some hf) hl (eq_of_beq hn)]

theorem candidSlot_of_tells (h : w.Sound) {l : Link} (hl : l ∈ w.links) (ht : l.tells = true)
    (arguments : List Answer) :
    candidSlot b l.number l.signal l.slot arguments w = tellTruly b l w := by
  unfold candidSlot
  rw [if_pos (show l.slot.tells l.signal = true from ht),
    Run.bind_returned (m := Run.get) (s := w) rfl, h.find?_link hl]

theorem candidSlot_of_not_tells {signal : Signal} {slot : Slot} (ht : slot.tells signal = false)
    (number : Nat) (arguments : List Answer) :
    candidSlot b number signal slot arguments = fireSlot b number signal slot arguments := by
  unfold candidSlot
  rw [if_neg (by rw [ht]; nofun)]

/-- In a mode, a dispatcher drives the history that goes with it. -/
theorem World.driven_eq {k : Nat} {p : Nat × Nat} {mode : Mode} (hp : w.histories[k]? = some p)
    (hm : (w.dispatcher k).mode.same (.text mode.text) = true) :
    w.driven k = Object.history p mode := by
  obtain ⟨-, hj, ht⟩ := World.dispatcher_eq (j := p.1) (t := p.2) hp
  have hv := Value.same_text.1 hm
  unfold driven Dispatcher.usesTimeline
  dsimp only
  rw [hv, hj, ht]
  cases mode <;> rfl

theorem rewatch_raised {k : Nat} {o : Object} {e : Fault} (h : changesOf o = .error e)
    (timeline : Nat) : rewatch b k o timeline w = .raised e (w.unwatch k o) := by
  unfold rewatch
  rw [h]
  rfl

namespace Inner.Alike

variable (ha : b.Alike b')

include ha

theorem runs (steps : List Step) : (b.steps steps).Agree (b'.steps steps) InPlace :=
  fun _ hw ↦ ⟨ha.steps steps hw, ha.upholds.steps steps (fun _ _ ↦ trivial) _ hw⟩

theorem calls (way : Way) (i : Nat) : (b.call way i).Agree (b'.call way i) InPlace :=
  fun _ hw ↦ ⟨ha.call way i hw, ha.upholds.call way i _ hw⟩

theorem notify {l : Link} {arguments : List Answer} (hw : InPlace w)
    (hl : l.tells = true → l ∈ w.links ∧ arguments = w.tidings l.source) :
    notify b l.signal arguments l w = notify b' l.signal arguments l w ∧
      (notify b l.signal arguments l).Leads w (fun _ ↦ InPlace) (fun _ ↦ InPlace) True := by
  refine ⟨?_, ?_⟩
  · show (if w.isConnected l.number then (b.fire l.number l.signal l.slot arguments).recover fun e ↦
        happen (.slotFailed e) else pure ()) w =
      (if w.isConnected l.number then (b'.fire l.number l.signal l.slot arguments).recover fun e ↦
        happen (.slotFailed e) else pure ()) w
    split
    · simp only [Run.recover, ha.fire l arguments hw hl]
    · rfl
  · exact (leads_notify (fun _ _ hv ↦ upheld_inPlace.event hv rfl) hw
      (ha.upholds.fire _ _ _ _)).mono (fun _ _ ht ↦ ht) fun _ _ ht ↦ ht.elim

/-- Announcements are the same if those of changes tell the truth, as it is when they start. -/
theorem announce_from {source : Object} {signal : Signal} {arguments : List Answer}
    (hw : InPlace w) (hs : signal = .historyChanged ∨ signal = .stateChanged →
      arguments = w.tidings source) :
    announce b source signal arguments w = announce b' source signal arguments w ∧
      (announce b source signal arguments).Leads w (fun _ ↦ InPlace) (fun _ ↦ InPlace) True := by
  let due := w.links.filter fun l ↦ l.source = source ∧ l.signal = signal
  show Run.each due (Session.notify b signal arguments) w =
      Run.each due (Session.notify b' signal arguments) w ∧
    (Run.each due (Session.notify b signal arguments)).Leads w _ _ True
  have hdue (l : Link) (hl : l ∈ due) : l ∈ w.links ∧ l.source = source ∧ l.signal = signal := by
    rw [List.mem_filter, decide_eq_true_eq] at hl
    exact hl
  have hfirst : due.Pairwise _ := hw.wired.first.sublist List.filter_sublist
  cases hd : due with
  | nil => exact ⟨rfl, hw⟩
  | cons l rest =>
    rw [hd] at hdue hfirst
    obtain ⟨hl, hsource, hsignal⟩ := hdue l List.mem_cons_self
    subst hsource hsignal
    refine Run.Agree.bind_from (ha.notify hw fun ht ↦ ?_) fun _ ↦ .each fun m hm v hv ↦ ?_
    · exact ⟨hl, hs (hw.wired.signal_of_tells hl ht)⟩
    · -- Only the first of them can tell of a dispatcher.
      obtain ⟨-, hsource, hsignal⟩ := hdue m (List.mem_cons_of_mem l hm)
      have ht := (List.pairwise_cons.1 hfirst).1 m hm hsource.symm hsignal.symm
      rw [← hsignal]
      exact ha.notify hv fun hn ↦ absurd (ht.symm.trans hn) nofun

theorem announce (source : Object) (signal : Signal) (arguments : List Answer)
    (hs : signal ≠ .historyChanged ∧ signal ≠ .stateChanged) :
    (announce b source signal arguments).Agree (announce b' source signal arguments) InPlace :=
  fun _ hw ↦ ha.announce_from hw fun h ↦ (h.elim hs.1 hs.2).elim

theorem announceAbilities (k : Nat) :
    (announceAbilities b k).Agree (announceAbilities b' k) InPlace :=
  .get_bind fun _ hw ↦ ha.announce_from hw fun _ ↦ rfl

section Journal

variable (k : Nat)

theorem journal_announce {n : Journal.Notice Nat} (hn : ∀ u r, n ≠ .changed u r) :
    ((journalHost b k).announce n).Agree ((journalHost b' k).announce n) InPlace := by
  cases n with
  | changed u r => exact absurd rfl (hn u r)
  | recorded i | undone i | redone i =>
    exact .bind (.bind (.get_bind fun _ hw ↦ ⟨rfl, hw⟩) fun _ ↦ .pure _) fun _ ↦
      ha.announce _ _ _ ⟨nofun, nofun⟩

theorem journal_announceChange :
    (journalHost b k).announceChange.Agree (journalHost b' k).announceChange InPlace :=
  fun _ hw ↦ ha.announce_from hw fun _ ↦ rfl

theorem journal_add (i : Nat) :
    ((journalHost b k).add i).Agree ((journalHost b' k).add i) InPlace := by
  refine .bind (journal_look b b' k) fun j ↦ ?_
  split
  · exact .bind (journal_tell b b' k i) fun _ ↦ journal_log b b' k _
  · split
    · exact .bind (journal_tell b b' k i) fun _ ↦ journal_log b b' k _
    · refine .bind (journal_change b b' k _) fun _ ↦ .bind (journal_look b b' k) fun _ ↦ ?_
      refine .bind (.lift _) fun _ ↦ .bind (journal_change b b' k _) fun _ ↦ ?_
      refine .bind (journal_tell b b' k i) fun _ ↦ .bind (journal_log b b' k _) fun _ ↦ ?_
      exact .bind (ha.journal_announce k nofun) fun _ ↦ ha.journal_announceChange k

theorem journal_settle (d : Int) (r : Value → Int → Journal.Remark) (n : Journal.Notice Nat)
    (hn : ∀ u r, n ≠ .changed u r) (i : Nat) :
    ((journalHost b k).settle d r n i).Agree ((journalHost b' k).settle d r n i) InPlace := by
  refine .bind (journal_change b b' k _) fun _ ↦ .bind (journal_tell b b' k i) fun _ ↦ ?_
  refine .bind (journal_look b b' k) fun _ ↦ .bind (journal_log b b' k _) fun _ ↦ ?_
  exact .bind (ha.journal_announce k hn) fun _ ↦ ha.journal_announceChange k

theorem journal_undo : (journalHost b k).undo.Agree (journalHost b' k).undo InPlace := by
  refine .bind (journal_look b b' k) fun j ↦ ?_
  split
  · exact .raise _
  · split
    · exact .raise _
    · rename_i i _
      refine .bind_map (fun _ ↦ b.call .undo i) (fun _ ↦ b'.call .undo i) fun _ ↦ ?_
      refine .bind (journal_replay k (ha.calls _ i)) fun _ ↦ ?_
      exact ha.journal_settle k (-1) .undone (.undone i) nofun i

theorem journal_redo : (journalHost b k).redo.Agree (journalHost b' k).redo InPlace := by
  refine .bind (journal_look b b' k) fun j ↦ ?_
  split
  · exact .raise _
  · split
    · exact .raise _
    · rename_i i _
      refine .bind_map (fun _ ↦ b.call .redo i) (fun _ ↦ b'.call .redo i) fun _ ↦ ?_
      refine .bind (journal_replay k (ha.calls _ i)) fun _ ↦ ?_
      exact ha.journal_settle k 1 .redone (.redone i) nofun i

theorem journal_clear : (journalHost b k).clear.Agree (journalHost b' k).clear InPlace :=
  .bind (journal_change b b' k _) fun _ ↦ .bind (journal_log b b' k _) fun _ ↦
    ha.journal_announceChange k

end Journal

section Timeline

variable (k : Nat)

theorem timeline_announce {n : Timeline.Notice Nat} (hn : ∀ u r, n ≠ .changed u r) :
    ((timelineHost b k).announce n).Agree ((timelineHost b' k).announce n) InPlace := by
  cases n with
  | changed u r => exact absurd rfl (hn u r)
  | recorded i | restored i =>
    exact .bind (.bind .get fun _ ↦ .pure _) fun _ ↦ ha.announce _ _ _ ⟨nofun, nofun⟩

theorem timeline_announceChange :
    (timelineHost b k).announceChange.Agree (timelineHost b' k).announceChange InPlace :=
  fun _ hw ↦ ha.announce_from hw fun _ ↦ rfl

theorem timeline_add (i : Nat) :
    ((timelineHost b k).add i).Agree ((timelineHost b' k).add i) InPlace := by
  refine .bind (timeline_look b b' k) fun t ↦ ?_
  split
  · exact .bind (timeline_tell b b' k i) fun _ ↦ timeline_log b b' k _
  · split
    · exact .bind (timeline_tell b b' k i) fun _ ↦ timeline_log b b' k _
    · refine .bind .get fun _ ↦ .bind (timeline_change b b' k _) fun _ ↦ ?_
      refine .bind (timeline_look b b' k) fun _ ↦ .bind (.lift _) fun _ ↦ ?_
      refine .bind (timeline_change b b' k _) fun _ ↦ .bind (timeline_tell b b' k i) fun _ ↦ ?_
      refine .bind (timeline_log b b' k _) fun _ ↦ ?_
      exact .bind (ha.timeline_announce k nofun) fun _ ↦ ha.timeline_announceChange k

theorem timeline_moveTo (i : Int) :
    ((timelineHost b k).moveTo i).Agree ((timelineHost b' k).moveTo i) InPlace := by
  refine .bind (timeline_look b b' k) fun t ↦ ?_
  split
  · exact .raise _
  · refine .bind (timeline_change b b' k _) fun _ ↦ ?_
    refine .bind ((ha.calls _ _).ensuring fun _ hw ↦ aloof_inPlace.timeline k _ hw) fun _ ↦ ?_
    refine .bind (timeline_change b b' k _) fun _ ↦ .bind (timeline_tell b b' k _) fun _ ↦ ?_
    refine .bind (timeline_look b b' k) fun _ ↦ .bind (timeline_log b b' k _) fun _ ↦ ?_
    exact .bind (ha.timeline_announce k nofun) fun _ ↦ ha.timeline_announceChange k

theorem timeline_undo : (timelineHost b k).undo.Agree (timelineHost b' k).undo InPlace := by
  refine .bind (timeline_look b b' k) fun t ↦ ?_
  split
  · exact .pure _
  · exact ha.timeline_moveTo k _

theorem timeline_redo : (timelineHost b k).redo.Agree (timelineHost b' k).redo InPlace := by
  refine .bind (timeline_look b b' k) fun t ↦ ?_
  split
  · exact .pure _
  · exact ha.timeline_moveTo k _

theorem timeline_clear : (timelineHost b k).clear.Agree (timelineHost b' k).clear InPlace :=
  .bind (timeline_change b b' k _) fun _ ↦ .bind (timeline_log b b' k _) fun _ ↦
    ha.timeline_announceChange k

end Timeline

theorem select (k : Nat) (nodes : List Value) :
    (select b k nodes).Agree (select b' k nodes) InPlace := by
  refine fun w hw ↦ ⟨?_, upheld_inPlace.select ha.upholds k nodes w hw⟩
  show Run.bind (Run.lift ((w.selection k).select? nodes)) _ w =
    Run.bind (Run.lift ((w.selection k).select? nodes)) _ w
  cases hs : (w.selection k).select? nodes with
  | error e => rfl
  | ok s =>
    cases s with
    | none => rfl
    | some s =>
      have hs := Value.settled_of_distinct (distinct_of_select hs)
      exact (ha.announce (.selection k) .selectionChanged [] ⟨nofun, nofun⟩ _
        (upheld_inPlace.chosen k hw hs)).1

theorem selectIn (o : Object) (nodes : List Value) :
    (selectIn b o nodes).Agree (selectIn b' o nodes) InPlace := by
  cases o with
  | selection k => exact ha.select k nodes
  | journal | timeline | listing | dispatcher => exact .raise _

theorem refresh (k : Nat) : (refresh b k).Agree (refresh b' k) InPlace := by
  have hreading (f : World → List Nat) :
      (Run.modify fun w ↦ { w with reading := f w }).Agree
        (Run.modify fun w ↦ { w with reading := f w }) InPlace :=
    .modify fun _ hw ↦ hw.grown (hw.sound.grown_aside _ _ _ _) (List.Sublist.refl _)
  refine .bind (hreading _) fun _ ↦ .bind (ha.announce _ _ _ ⟨nofun, nofun⟩) fun _ ↦ ?_
  refine .bind (.modify fun _ hw ↦ upheld_inPlace.read k hw) fun _ ↦ ?_
  exact .bind (ha.announce _ _ _ ⟨nofun, nofun⟩) fun _ ↦ hreading _

theorem reapplyParts (group fuel i : Nat) :
    (reapplyParts b group fuel i).Agree (reapplyParts b' group fuel i) InPlace := by
  induction fuel generalizing i with
  | zero => exact fun _ _ ↦ ⟨rfl, trivial⟩
  | succ fuel ih =>
    refine .bind .get fun w ↦ ?_
    split
    · split
      · exact .bind (ha.calls _ _) fun _ ↦ ih _
      · exact .pure _
    · exact .pure _

theorem callItem (way : Way) (i : Nat) :
    (callItem b way i).Agree (callItem b' way i) InPlace := by
  refine .get_bind fun w hw ↦ ?_
  have hset {e : Event} (he : e.isNews = false) {item old : Item} (ho : w.items[i]? = some old)
      (hg : item.gist = old.gist) :
      InPlace { w.addEvent e with items := (w.addEvent e).items.set i item } :=
    upheld_inPlace.renewed (upheld_inPlace.event hw he) (map_gist_set ho hg)
  have hrun (steps : List Step) (c : Prop) [Decidable c] :
      (if c then b.steps steps else pure ()).Agree (if c then b'.steps steps else pure ())
        InPlace := by
    split
    · exact ha.runs _
    · exact .pure _
  cases hi : w.items[i]? with
  | none => exact Run.Agree.bind .get (fun _ ↦ .raise _) w hw
  | some item =>
    cases item <;> cases way
    case edit.undo | edit.redo | state.restore => exact hrun _ _ _ (hset rfl hi rfl)
    case group.undo => exact Run.Agree.each (fun _ _ ↦ ha.calls _ _) w hw
    case group.redo => exact ha.reapplyParts _ _ _ w hw
    case change.undo | change.redo | capture.restore => exact ha.selectIn _ _ w hw
    all_goals exact Run.Agree.bind .get (fun _ ↦ .raise _) w hw

theorem setMode (k : Nat) (mode : Value) :
    (setMode b k mode).Agree (setMode b' k mode) InPlace := by
  unfold Session.setMode
  cases Mode.ofValue? mode with
  | none => exact .raise _
  | some mode =>
    refine .bind .get fun w ↦ ?_
    dsimp only
    split
    · exact .pure _
    · refine .bind (.modify fun _ hw ↦ aloof_inPlace.mode k _ hw) fun _ ↦ ?_
      refine .bind (upheld_inPlace.log _).agree fun _ ↦ ?_
      exact .bind (ha.announce _ _ _ ⟨nofun, nofun⟩) fun _ ↦ ha.announceAbilities k

theorem recordCapture (timeline selection : Nat) :
    (recordCapture b timeline selection).Agree (recordCapture b' timeline selection) InPlace :=
  .bind .get fun _ ↦ .bind (.modify fun _ hw ↦ upheld_inPlace.captured _ _ hw) fun _ ↦
    ha.timeline_add _ _

theorem dispatchUndo (k : Nat) : (dispatchUndo b k).Agree (dispatchUndo b' k) InPlace := by
  refine .bind .get fun w ↦ ?_
  split
  · exact .pure _
  · refine .bind .get fun w ↦ ?_
    dsimp only
    split
    · exact .bind (ha.timeline_undo _) fun _ ↦ .pure _
    · exact .bind (ha.journal_undo _) fun _ ↦ .pure _

theorem dispatchRedo (k : Nat) : (dispatchRedo b k).Agree (dispatchRedo b' k) InPlace := by
  refine .bind .get fun w ↦ ?_
  split
  · exact .pure _
  · refine .bind .get fun w ↦ ?_
    dsimp only
    split
    · exact .bind (ha.timeline_redo _) fun _ ↦ .pure _
    · exact .bind (ha.journal_redo _) fun _ ↦ .pure _

theorem shortcut (k : Nat) (key : Value) :
    (shortcut b k key).Agree (shortcut b' k key) InPlace := by
  unfold Session.shortcut
  split
  · exact .bind (ha.dispatchUndo k) fun _ ↦ .pure _
  · split
    · exact .bind (ha.dispatchRedo k) fun _ ↦ .pure _
    · exact .pure _

theorem watch {name : Text} {k : Nat} {o : Object} (hw : InPlace w)
    (hk : k < w.dispatchers.length) (ho : w.object name = .ok o) :
    watch b k o w = watch b' k o w ∧
      (watch b k o).Leads w (fun _ ↦ InPlace) (fun _ ↦ InPlace) True := by
  refine ⟨?_, upheld_inPlace.watch (upheld_inPlace.histories aloof_inPlace ha.upholds) hw hk ho⟩
  have hre (t : Nat) : rewatch b k o t w = rewatch b' k o t w := by
    cases hx : changesOf o with
    | error e => rw [rewatch_raised hx, rewatch_raised hx]
    | ok x =>
      obtain rfl := changesOf_ok hx
      exact (ha.recordCapture t x _ (upheld_inPlace.watched hw hk ho)).1
  unfold Session.watch
  rw [Run.bind_returned (m := Run.get) (s := w) rfl, Run.bind_returned (m := Run.get) (s := w) rfl]
  dsimp only
  cases (w.dispatcher k).watched with
  | none => exact hre (w.dispatcher k).timeline
  | some watched =>
    dsimp only
    cases changesOf watched with
    | error e =>
      rw [Run.bind_raised (m := Run.lift _) (s := w) rfl,
        Run.bind_raised (m := Run.lift _) (s := w) rfl]
    | ok x =>
      rw [Run.bind_returned (m := Run.lift _) (s := w) rfl,
        Run.bind_returned (m := Run.lift _) (s := w) rfl]
      exact hre (w.dispatcher k).timeline

theorem fireSlot (number : Nat) (signal : Signal) {slot : Slot} (arguments : List Answer)
    (ht : slot.tells signal = false) :
    (fireSlot b number signal slot arguments).Agree (fireSlot b' number signal slot arguments)
      InPlace := by
  cases slot with
  | record name => exact .modify fun _ hw ↦ hw.addEvent _
  | listen steps left =>
    refine .bind .get fun w ↦ ?_
    split
    · split
      · exact .bind (.modify fun _ hw ↦ hw.setSlot _ _ _) fun _ ↦ ha.runs _
      · exact .pure _
    · exact .pure _
  | refresh k =>
    refine .bind .get fun w ↦ ?_
    split
    · exact ha.refresh k
    · exact .pure _
  | relay k mode => cases ht
  | capture k =>
    refine .bind .get fun w ↦ ?_
    dsimp only
    split
    · exact ha.recordCapture _ _
    · exact .pure _

/-- A slot that tells of a dispatcher is handed what it would find out by itself. -/
theorem candidSlot {l : Link} {arguments : List Answer} (hw : InPlace w) (hl : l ∈ w.links)
    (ht : l.tells = true) (hargs : arguments = w.tidings l.source) :
    Session.fireSlot b l.number l.signal l.slot arguments w =
      Session.candidSlot b' l.number l.signal l.slot arguments w := by
  rw [candidSlot_of_tells hw.sound hl ht]
  obtain ⟨number, source, signal, slot⟩ := l
  cases slot with
  | record name =>
    obtain rfl : signal = .stateChanged := of_decide_eq_true ht
    obtain ⟨k, rfl⟩ := hw.wired.recorded _ hl name rfl rfl
    rw [hargs]
    rfl
  | relay k mode =>
    obtain ⟨rfl, p, hp, rfl⟩ := hw.wired.relayed _ hl k mode rfl
    show (if (w.dispatcher k).mode.same (.text mode.text) then
        Session.announce b (.dispatcher k) .stateChanged arguments else pure ()) w =
      (if (w.dispatcher k).mode.same (.text mode.text) ∧ Object.history p mode = w.driven k then
        Session.announceAbilities b' k else pure ()) w
    by_cases hm : (w.dispatcher k).mode.same (.text mode.text) = true
    · have hd := World.driven_eq hp hm
      rw [if_pos hm, if_pos ⟨hm, hd.symm⟩, hargs, ← hd, w.tidings_driven]
      exact (ha.announceAbilities k w hw).1
    · rw [if_neg hm, if_neg fun h ↦ hm h.1]
  | listen | refresh | capture => cases ht

theorem perform (step : Step) : (perform b step).Agree (perform b' step) InPlace := by
  have hkeeps : (Session.perform b step).Keeps InPlace :=
    upheld_inPlace.perform ha.upholds (upheld_inPlace.histories aloof_inPlace ha.upholds) trivial
  cases step with
  | add history name =>
    refine .bind (.ask _) fun i ↦ .bind (.ask _) fun o ↦ ?_
    cases o with
    | journal k => exact .bind (ha.journal_add k i) fun _ ↦ .pure _
    | timeline k => exact .bind (ha.timeline_add k i) fun _ ↦ .pure _
    | selection | listing | dispatcher => exact .bind (.raise _) fun _ ↦ .pure _
  | undo target =>
    refine .bind (.ask _) fun o ↦ ?_
    cases o with
    | journal k => exact .bind (ha.journal_undo k) fun _ ↦ .pure _
    | timeline k => exact .bind (ha.timeline_undo k) fun _ ↦ .pure _
    | dispatcher k => exact .bind (ha.dispatchUndo k) fun _ ↦ .pure _
    | selection | listing => exact .raise _
  | redo target =>
    refine .bind (.ask _) fun o ↦ ?_
    cases o with
    | journal k => exact .bind (ha.journal_redo k) fun _ ↦ .pure _
    | timeline k => exact .bind (ha.timeline_redo k) fun _ ↦ .pure _
    | dispatcher k => exact .bind (ha.dispatchRedo k) fun _ ↦ .pure _
    | selection | listing => exact .raise _
  | clear target =>
    refine .bind (.ask _) fun o ↦ ?_
    cases o with
    | journal k => exact .bind (ha.journal_clear k) fun _ ↦ .pure _
    | timeline k => exact .bind (ha.timeline_clear k) fun _ ↦ .pure _
    | selection k => exact .bind (ha.select k []) fun _ ↦ .pure _
    | listing | dispatcher => exact .bind (.raise _) fun _ ↦ .pure _
  | setMode dispatcher mode =>
    exact .bind (Upheld.dispatcherOf _ _).agree fun k ↦
      .bind (ha.setMode k mode) fun _ ↦ .pure _
  | shortcut dispatcher key =>
    exact .bind (Upheld.dispatcherOf _ _).agree fun k ↦
      .bind (ha.shortcut k key) fun _ ↦ .pure _
  | commit dispatcher name =>
    refine .bind (Upheld.dispatcherOf _ _).agree fun k ↦ .bind .get fun w ↦ ?_
    exact .bind (.ask _) fun i ↦ .bind (ha.journal_add _ i) fun _ ↦ .pure _
  | watch dispatcher selection =>
    refine fun w hw ↦ ⟨?_, hkeeps w hw⟩
    show (dispatcherOf dispatcher _ >>= fun k ↦ object selection >>= fun o ↦
        Session.watch b k o >>= fun _ ↦ pure Answer.nothing) w =
      (dispatcherOf dispatcher _ >>= fun k ↦ object selection >>= fun o ↦
        Session.watch b' k o >>= fun _ ↦ pure Answer.nothing) w
    unfold dispatcherOf
    rw [bind_assoc, bind_assoc]
    refine (Run.Agree.ask_from hw fun o ho ↦ ?_).1
    cases o with
    | dispatcher k =>
      refine Run.Agree.ask_from hw fun o hs ↦ ?_
      exact Run.Agree.bind_from (ha.watch hw (hw.sound.has_of_object ho) hs) fun _ ↦ .pure _
    | journal | timeline | selection | listing => exact Run.Agree.raise_from _ hw
  | select selection nodes =>
    refine .bind (Upheld.selectionOf _ _).agree fun k ↦ .bind (.lift _) fun ns ↦ ?_
    exact .bind (ha.select k ns) fun _ ↦ .pure _
  | callUndo name | callRedo name | restore name =>
    exact .bind (.ask _) fun i ↦ .bind (ha.calls _ i) fun _ ↦ .pure _
  | attempt steps =>
    exact .bind (.recover (ha.runs steps) fun _ ↦ .modify fun _ hw ↦ hw.addEvent _) fun _ ↦ .pure _
  | newJournal | newTimeline | newSelection | newListing | newDispatcher | edit | group | change
  | state | captured | capture | setEnabled | setLimit | iterate | next | isSelected | describe
  | countParts | describePart | setText | addPart | countNodes | spell | compare | compareTuple
  | compareResidues | index | cell | countRows | editAt | listen | fail =>
    exact fun w hw ↦ ⟨rfl, hkeeps w hw⟩

theorem nested (steps : List Step) : (nested b steps).Agree (nested b' steps) InPlace := by
  refine .each fun step _ ↦ .bind (ha.perform step) fun answer ↦ ?_
  split
  · exact .modify fun _ hw ↦ hw.addEvent _
  · exact .pure _

end Inner.Alike

theorem inner_alike (n : Nat) : (inner n).Alike (candid n) := by
  induction n with
  | zero => exact ⟨inner_inPlace 0, fun _ _ ↦ rfl, fun _ _ _ ↦ rfl, fun _ _ _ _ ↦ rfl⟩
  | succ n ih =>
    refine ⟨inner_inPlace (n + 1), fun steps hw ↦ (ih.nested steps _ hw).1,
      fun way i hw ↦ (ih.callItem way i _ hw).1, fun {w} l arguments hw hl ↦ ?_⟩
    show fireSlot (inner n) l.number l.signal l.slot arguments w =
      candidSlot (candid n) l.number l.signal l.slot arguments w
    -- A slot that tells of a dispatcher has been handed the truth; the others do not look at it.
    cases ht : l.tells with
    | true => exact ih.candidSlot hw (hl ht).1 ht (hl ht).2
    | false =>
      rw [candidSlot_of_not_tells ht]
      exact (ih.fireSlot l.number l.signal arguments ht w hw).1

/-- Whatever a session does, every dispatcher tells what is true when it starts to tell it, and
nothing of a history that it does not drive. -/
theorem perform_candid (h : InPlace w) (n : Nat) (step : Step) :
    perform (inner n) step w = perform (candid n) step w :=
  ((inner_alike n).perform step w h).1

end Rewind.Session
