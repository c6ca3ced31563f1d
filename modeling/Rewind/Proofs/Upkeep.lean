import Rewind.Proofs.Hosts
import Rewind.Proofs.Wiring

namespace Rewind.Session

/-- Which steps may be taken and which limits may be set. With a step, the limits that it sets and
the steps that it runs are allowed. -/
structure Terms where
  step : Step → Prop
  limit : Value → Prop
  newJournal : ∀ {name v}, step (.newJournal name v) → limit v
  newDispatcher : ∀ {name source} {settings : Settings Value}, step (.newDispatcher name source) →
    source.settings id = .ok settings → limit settings.commandLimit
  setLimit : ∀ {history v}, step (.setLimit history v) → limit v
  attempt : ∀ {steps}, step (.attempt steps) → ∀ s ∈ steps, step s

variable {T : Terms} {I : World → Prop} {b : Inner} {w : World}

/-- What is done one level deeper on these terms keeps to `I`. -/
structure Inner.Upholds (b : Inner) (T : Terms) (I : World → Prop) : Prop where
  steps : ∀ steps, (∀ s ∈ steps, T.step s) → (b.steps steps).Keeps I
  call : ∀ way i, (b.call way i).Keeps I
  fire : ∀ number signal slot arguments, (b.fire number signal slot arguments).Keeps I

/-- Whether an item runs steps of its own. -/
def Item.isProgram : Item → Bool
  | .edit _ | .state _ => true
  | .group _ | .change _ | .capture _ => false

/-- Whether what has happened is that a dispatcher has announced what it can do. -/
def Event.isNews : Event → Bool
  | .announced _ .stateChanged _ => true
  | _ => false

/-- An item has a name, or is the latest one. -/
def World.Knows (w : World) (i : Nat) : Prop :=
  (∃ name, w.item name = .ok i) ∨ w.items.length = i + 1

/-- What operations make of a world keeps to `I`, apart from what they make of histories. -/
structure Upheld (T : Terms) (I : World → Prop) : Prop where
  sound : ∀ {w}, I w → w.Sound
  aside : ∀ {w} iterations indexes, I w → I { w with iterations, indexes }
  event : ∀ {w e}, I w → e.isNews = false → I (w.addEvent e)
  begun : ∀ {w k}, I w → w.isFollowing k = true → I { w with reading := k :: w.reading }
  read : ∀ {w} k, I w →
    I { w with listings := w.listings.modify k fun l ↦ (⟨(w.entries l.2).toOption.getD []⟩, l.2) }
  done : ∀ {w} k, I w → I { w with reading := w.reading.erase k }
  renewed : ∀ {w items}, I w → items.map Item.gist = w.items.map Item.gist → I { w with items }
  captured : ∀ {w} x nodes, I w → I (w.addItem (.capture ⟨none, .selection x, nodes⟩))
  edit : ∀ {w name text failure undo redo times}, I w →
    T.step (.edit name text failure undo redo times) →
    I (w.nameItem name (.edit { name, text, failure, undo, redo, times }))
  state : ∀ {w name value text failure restore times}, I w →
    T.step (.state name value text failure restore times) →
    I (w.nameItem name (.state { name, value, text, failure, restore, times }))
  item : ∀ {w} name {item}, I w → item.isProgram = false →
    (∀ o, item.selection? = some o → (∃ x, o = .selection x) ∨ ∃ name, w.object name = .ok o) →
    I (w.nameItem name item)
  journal : ∀ {w limit}, I w → T.limit limit → I { w with journals := w.journals ++ [{ limit }] }
  timeline : ∀ {w} limit, I w → I { w with timelines := w.timelines ++ [{ limit }] }
  selection : ∀ {w s}, I w → Value.Settled s.nodes → I { w with selections := w.selections ++ [s] }
  /-- Only what has not been there before is presented by itself. -/
  presented : ∀ {u w} name {o}, I u → ¬ u.Has o → I w → w.Has o → (∀ k, o ≠ .listing k) →
    (∀ k, o ≠ .dispatcher k) → I (w.present name o)
  listing : ∀ {w history o rows} name, I w → w.object history = .ok o → w.entries o = .ok rows →
    I (w.withListing name o rows)
  dispatcher : ∀ {w source} {settings : Settings Value} name, I w →
    T.step (.newDispatcher name source) → source.settings id = .ok settings →
    I (w.withDispatcher name settings)
  listened : ∀ {w o} signal {name text steps times}, I w → w.object name = .ok o →
    T.step (.listen name text steps times) → I (w.connect o signal (.listen steps times))
  left : ∀ {w l steps was} left, I w → l ∈ w.links → l.slot = .listen steps was →
    I (w.setSlot l.number (.listen steps left))
  watched : ∀ {w name k x}, I w → k < w.dispatchers.length → w.object name = .ok (.selection x) →
    I ((w.unwatch k (.selection x)).connect (.selection x) .selectionChanged (.capture k))
  unwatched : ∀ {w name k o}, I w → w.object name = .ok o → (∀ x, o ≠ .selection x) →
    I (w.unwatch k o)
  chosen : ∀ {w s} x, I w → Value.Settled s.nodes → I { w with selections := w.selections.set x s }
  listener : ∀ {w l steps left}, I w → l ∈ w.links → l.slot = .listen steps left →
    ∀ s ∈ steps, T.step s
  program : ∀ {w : World} {i : Nat} {e : Edit}, I w → w.items[i]? = some (.edit e) →
    (∀ s ∈ e.undo, T.step s) ∧ ∀ s ∈ e.redo, T.step s
  restore : ∀ {w : World} {i : Nat} {s : State}, I w → w.items[i]? = some (.state s) →
    ∀ t ∈ s.restore, T.step t

/-- What is made of histories keeps to `I`, and the choice between them. -/
structure Histories (T : Terms) (I : World → Prop) (b : Inner) : Prop where
  add : ∀ {w name i} k, I w → w.item name = .ok i →
    ((journalHost b k).add i).Leads w (fun _ ↦ I) (fun _ ↦ I) True
  undo : ∀ k, (journalHost b k).undo.Keeps I
  redo : ∀ k, (journalHost b k).redo.Keeps I
  clear : ∀ k, (journalHost b k).clear.Keeps I
  enable : ∀ k v, ((journalHost b k).change ({ · with enabled := v })).Keeps I
  limit : ∀ k {v}, T.limit v → ((journalHost b k).change ({ · with limit := v })).Keeps I
  addState : ∀ {w i} k, I w → w.Knows i →
    ((timelineHost b k).add i).Leads w (fun _ ↦ I) (fun _ ↦ I) True
  back : ∀ k, (timelineHost b k).undo.Keeps I
  forth : ∀ k, (timelineHost b k).redo.Keeps I
  clearStates : ∀ k, (timelineHost b k).clear.Keeps I
  enableStates : ∀ k v, ((timelineHost b k).change ({ · with enabled := v })).Keeps I
  limitStates : ∀ k {v}, T.limit v → ((timelineHost b k).change ({ · with limit := v })).Keeps I
  mode : ∀ k v, (setMode b k v).Keeps I

/-- What becomes of histories makes no difference to `I`, nor which of them are driven. -/
structure Aloof (I : World → Prop) : Prop where
  journal : ∀ {w} k f, I w → I { w with journals := w.journals.modify k f }
  timeline : ∀ {w} k f, I w → I { w with timelines := w.timelines.modify k f }
  mode : ∀ {w} k mode, I w → I { w with dispatchers := w.dispatchers.modify k ({ · with mode }) }

theorem bind_object {α : Type} {f : Object → Run World α} {name : Text} {o : Object}
    (ho : w.object name = .ok o) : (object name >>= f) w = f o w := Run.bind_ask ho

theorem bind_item {α : Type} {f : Nat → Run World α} {name : Text} {i : Nat}
    (hi : w.item name = .ok i) : (item name >>= f) w = f i w := Run.bind_ask hi

section Rules

variable {Q : Unit → World → Prop} {E : Fault → World → Prop} {X : Prop}

theorem leads_select {k : Nat} {nodes : List Value} :
    (select b k nodes).Leads w Q E X ↔
      (∀ e, (w.selection k).select? nodes = .error e → E e w) ∧
      ((w.selection k).select? nodes = .ok none → Q () w) ∧
      ∀ s, (w.selection k).select? nodes = .ok (some s) →
        (announce b (.selection k) .selectionChanged []).Leads
          { w with selections := w.selections.set k s } Q E X := by
  unfold select
  rw [Run.leads_bind, Run.leads_get, Run.leads_bind, Run.leads_lift]
  cases hs : (w.selection k).select? nodes with
  | error e => simp
  | ok s =>
    cases s with
    | none => simp
    | some s => simp

/-- Lets a dispatcher capture something in a timeline from now on. -/
def rewatch (b : Inner) (k : Nat) (o : Object) (timeline : Nat) : Run World Unit := do
  Run.modify (·.unwatch k o)
  let selection ← Run.lift (changesOf o)
  Run.modify (·.connect o .selectionChanged (.capture k))
  recordCapture b timeline selection

theorem leads_watch {k : Nat} {o : Object} :
    (watch b k o).Leads w Q E X ↔
      (∀ watched, (w.dispatcher k).watched = some watched →
        ∀ e, changesOf watched = .error e → E e w) ∧
      ((∀ watched, (w.dispatcher k).watched = some watched → ∃ x, changesOf watched = .ok x) →
        (rewatch b k o (w.dispatcher k).timeline).Leads w Q E X) := by
  unfold watch
  rw [Run.leads_bind, Run.leads_get]
  dsimp only
  cases hw : (w.dispatcher k).watched with
  | none =>
    exact ⟨fun h ↦ ⟨nofun, fun _ ↦ h⟩, fun h ↦ h.2 nofun⟩
  | some watched =>
    simp only [Option.some.injEq, forall_eq']
    rw [Run.leads_bind, Run.leads_lift]
    cases changesOf watched with
    | error e => simp
    | ok x => exact ⟨fun h ↦ ⟨nofun, fun _ ↦ h.1 x rfl⟩, fun h ↦ ⟨fun _ _ ↦ h.2 ⟨x, rfl⟩, nofun⟩⟩

theorem World.isConnected_of_mem {l : Link} (h : l ∈ w.links) : w.isConnected l.number = true :=
  List.any_eq_true.2 ⟨l, h, beq_self_eq_true _⟩

/-- Runs a slot that is still connected. If it fails, that is only remarked on. -/
def notify (b : Inner) (signal : Signal) (arguments : List Answer) (l : Link) :
    Run World Unit := do
  if (← Run.get).isConnected l.number then
    (b.fire l.number signal l.slot arguments).recover fun e ↦ happen (.slotFailed e)

theorem leads_announce_eq {source : Object} {signal : Signal} {arguments : List Answer}
    {Q : Unit → World → Prop} {E : Fault → World → Prop} :
    (announce b source signal arguments).Leads w Q E X ↔
      (Run.each (w.links.filter fun l ↦ l.source = source ∧ l.signal = signal)
        (notify b signal arguments)).Leads w Q E X := Iff.rfl

theorem leads_notify_of {signal : Signal} {arguments : List Answer} {l : Link}
    (he : ∀ w e, I w → I (w.addEvent (.slotFailed e))) (hw : w.isConnected l.number = false → I w)
    (hf : (b.fire l.number signal l.slot arguments).Leads w (fun _ ↦ I) (fun _ ↦ I) X) :
    (notify b signal arguments l).Leads w (fun _ ↦ I) (fun _ _ ↦ False) X := by
  unfold notify
  rw [Run.leads_bind, Run.leads_get]
  split
  · rw [Run.leads_recover]
    exact hf.mono (fun _ _ ht ↦ ht) (fun _ t ht ↦ he t _ ht)
  · rename_i hn
    exact hw (Bool.not_eq_true _ ▸ hn)

theorem leads_notify {signal : Signal} {arguments : List Answer} {l : Link}
    (he : ∀ w e, I w → I (w.addEvent (.slotFailed e))) (hw : I w)
    (hf : (b.fire l.number signal l.slot arguments).Keeps I X) :
    (notify b signal arguments l).Leads w (fun _ ↦ I) (fun _ _ ↦ False) X :=
  leads_notify_of he (fun _ ↦ hw) (hf w hw)

/-- Slots that fail stop nobody, so that an announcement cannot fail. -/
theorem leads_announce {source : Object} {signal : Signal} {arguments : List Answer}
    (he : ∀ w e, I w → I (w.addEvent (.slotFailed e))) (hw : I w)
    (hf : ∀ l ∈ w.links, l.source = source → l.signal = signal →
      (b.fire l.number signal l.slot arguments).Keeps I X) :
    (announce b source signal arguments).Leads w (fun _ ↦ I) (fun _ _ ↦ False) X := by
  refine leads_announce_eq.2 (Run.leads_each hw fun l hl v hv ↦ ?_)
  rw [List.mem_filter, decide_eq_true_eq] at hl
  exact leads_notify he hv (hf l hl.1 hl.2.1 hl.2.2)

theorem changesOf_ok {o : Object} {x : Nat} (h : changesOf o = .ok x) : o = .selection x := by
  cases o <;> cases h
  rfl

end Rules

theorem eq_call_of_map {w : World} {i : Nat} {way : Way} {code m : Run World Unit}
    (h : (fun _ ↦ code) <$> w.allows i way = .ok m) : m = code := by
  cases ha : w.allows i way with
  | error e =>
    rw [ha] at h
    cases h
  | ok _ =>
    rw [ha] at h
    cases h
    rfl

theorem distinct_of_select {s t : Selection} {nodes : List Value}
    (h : s.select? nodes = .ok (some t)) : Value.distinct nodes = .ok t.nodes := by
  unfold Selection.select? Selection.ofNodes at h
  cases hd : Value.distinct nodes with
  | error e =>
    rw [hd] at h
    cases h
  | ok us =>
    rw [hd] at h
    simp only [bind, Except.bind, pure, Except.pure] at h
    split at h
    · cases h
    · cases h
      rfl

theorem select?_of_distinct {s : Selection} {nodes us : List Value}
    (h : Value.distinct nodes = .ok us) :
    s.select? nodes = .ok (if Value.sameItems us s.nodes then none else some ⟨us⟩) := by
  simp [Selection.select?, Selection.ofNodes, h, bind, Except.bind, pure, Except.pure]


namespace Upheld

theorem happen (hu : Upheld T I) {e : Event} (he : e.isNews = false) : (happen e).Keeps I :=
  .modify fun _ hw ↦ hu.event hw he

theorem log (hu : Upheld T I) (t : Text) : (log t).Keeps I := by
  refine .modify fun w hw ↦ ?_
  split
  · exact hu.event hw rfl
  · exact hw

theorem announces (hu : Upheld T I) (hb : b.Upholds T I) (hw : I w) (source : Object)
    (signal : Signal) (arguments : List Answer) :
    (announce b source signal arguments).Leads w (fun _ ↦ I) (fun _ _ ↦ False) True :=
  leads_announce (fun _ _ hw ↦ hu.event hw rfl) hw fun _ _ _ _ ↦ hb.fire _ _ _ _

theorem announce (hu : Upheld T I) (hb : b.Upholds T I) (source : Object) (signal : Signal)
    (arguments : List Answer) : (announce b source signal arguments).Keeps I :=
  fun _ hw ↦ (hu.announces hb hw _ _ _).mono (fun _ _ ht ↦ ht) fun _ _ ht ↦ ht.elim

theorem leads_announceJournal (hu : Upheld T I) (hb : b.Upholds T I) (hw : I w) (k : Nat)
    (n : Journal.Notice Nat) :
    ((journalHost b k).announce n).Leads w (fun _ ↦ I) (fun _ _ ↦ False) True := by
  cases n with
  | recorded | undone | redone => exact hu.announces hb hw _ _ _
  | changed => exact hu.announces hb hw _ _ _

theorem leads_announceTimeline (hu : Upheld T I) (hb : b.Upholds T I) (hw : I w) (k : Nat)
    (n : Timeline.Notice Nat) :
    ((timelineHost b k).announce n).Leads w (fun _ ↦ I) (fun _ _ ↦ False) True := by
  cases n with
  | recorded | restored => exact hu.announces hb hw _ _ _
  | changed => exact hu.announces hb hw _ _ _

theorem heardJournal (hu : Upheld T I) (hb : b.Upholds T I) (k : Nat) :
    (journalHost b k).Heard I where
  announce n _ hw := (hu.leads_announceJournal hb hw k n).mono (fun _ _ ht ↦ ht) nofun
  log _ := hu.log _

theorem heardTimeline (hu : Upheld T I) (hb : b.Upholds T I) (k : Nat) :
    (timelineHost b k).Heard I where
  announce n _ hw := (hu.leads_announceTimeline hb hw k n).mono (fun _ _ ht ↦ ht) nofun
  log _ := hu.log _

theorem select (hu : Upheld T I) (hb : b.Upholds T I) (k : Nat) (nodes : List Value) :
    (select b k nodes).Keeps I := by
  refine fun w hw ↦ leads_select.2 ⟨fun _ _ ↦ hw, fun _ ↦ hw, fun s hs ↦ ?_⟩
  have hs := Value.settled_of_distinct (distinct_of_select hs)
  exact hu.announce hb _ _ _ _ (hu.chosen k hw hs)

theorem selectIn (hu : Upheld T I) (hb : b.Upholds T I) (o : Object) (nodes : List Value) :
    (selectIn b o nodes).Keeps I := by
  cases o with
  | selection k => exact hu.select hb k nodes
  | journal | timeline | listing | dispatcher => exact .raise _

theorem refresh (hu : Upheld T I) (hb : b.Upholds T I) {k : Nat} (hw : I w)
    (hk : w.isFollowing k = true) : (refresh b k).Leads w (fun _ ↦ I) (fun _ ↦ I) True := by
  have hrest : (Session.announce b (.listing k) .resetBegun [] >>= fun _ ↦ (Run.modify fun w ↦
      { w with listings := w.listings.modify k fun l ↦
          (⟨(w.entries l.2).toOption.getD []⟩, l.2) }) >>= fun _ ↦
      Session.announce b (.listing k) .resetDone [] >>= fun _ ↦
      Run.modify fun w ↦ { w with reading := w.reading.erase k }).Keeps I :=
    .bind (hu.announce hb _ _ _) fun _ ↦ .bind (.modify fun _ hw ↦ hu.read k hw) fun _ ↦
      .bind (hu.announce hb _ _ _) fun _ ↦ .modify fun _ hw ↦ hu.done k hw
  exact Run.leads_bind.2 (Run.leads_modify.2 (hrest _ (hu.begun hw hk)))

theorem reapplyParts (hb : b.Upholds T I) (group fuel i : Nat) :
    (reapplyParts b group fuel i).Keeps I := by
  induction fuel generalizing i with
  | zero => exact fun _ _ ↦ trivial
  | succ fuel ih =>
    refine .bind (fun _ hw ↦ hw) fun w ↦ ?_
    split
    · split
      · exact .bind (hb.call _ _) fun _ ↦ ih _
      · exact .pure _
    · exact .pure _

theorem callItem (hu : Upheld T I) (hb : b.Upholds T I) (way : Way) (i : Nat) :
    (callItem b way i).Keeps I := by
  refine .get_bind fun w hw ↦ ?_
  have hset {e : Event} (he : e.isNews = false) {item old : Item} (ho : w.items[i]? = some old)
      (hg : item.gist = old.gist) :
      I { w.addEvent e with items := (w.addEvent e).items.set i item } :=
    hu.renewed (hu.event hw he) (map_gist_set ho hg)
  have hrun {steps : List Step} (hs : ∀ s ∈ steps, T.step s) (c : Prop) [Decidable c] :
      (if c then b.steps steps else pure ()).Keeps I := by
    split
    · exact hb.steps _ hs
    · exact .pure _
  cases hi : w.items[i]? with
  | none => exact (Run.Keeps.bind (fun _ hw ↦ hw) fun _ ↦ .raise _) w hw
  | some item =>
    cases item <;> cases way
    case edit.undo => exact hrun (hu.program hw hi).1 _ _ (hset rfl hi rfl)
    case edit.redo => exact hrun (hu.program hw hi).2 _ _ (hset rfl hi rfl)
    case state.restore => exact hrun (hu.restore hw hi) _ _ (hset rfl hi rfl)
    case group.undo => exact Run.Keeps.each (fun _ ↦ hb.call _ _) _ w hw
    case group.redo => exact reapplyParts hb _ _ _ w hw
    case change.undo | change.redo | capture.restore => exact hu.selectIn hb _ _ w hw
    all_goals exact (Run.Keeps.bind (fun _ hw ↦ hw) fun _ ↦ .raise _) w hw

theorem setMode (hu : Upheld T I) (hb : b.Upholds T I) (k : Nat)
    (hmode : ∀ {w} mode, I w →
      I { w with dispatchers := w.dispatchers.modify k ({ · with mode }) })
    (mode : Value) : (setMode b k mode).Keeps I := by
  unfold Session.setMode
  cases Mode.ofValue? mode with
  | none => exact .raise _
  | some mode =>
    refine .bind (fun _ hw ↦ hw) fun w ↦ ?_
    dsimp only
    split
    · exact .pure _
    · refine .bind (.modify fun _ hw ↦ hmode _ hw) fun _ ↦ ?_
      refine .bind (hu.log _) fun _ ↦ .bind (hu.announce hb _ _ _) fun _ ↦ ?_
      exact .bind (fun _ hw ↦ hw) fun _ ↦ hu.announce hb _ _ _

section Histories

variable (hu : Upheld T I) (hb : b.Upholds T I) (hh : Histories T I b)

include hu hh

theorem recordCapture (timeline selection : Nat) :
    (recordCapture b timeline selection).Keeps I := by
  refine .get_bind fun w hw ↦ ?_
  rw [Run.leads_bind, Run.leads_modify]
  exact hh.addState timeline (hu.captured _ _ hw) (.inr (by simp [World.addItem]))

include hb

theorem fireSlot (number : Nat) (signal : Signal) (slot : Slot) (arguments : List Answer)
    (hrecord : ∀ name, slot = .record name →
      (Session.happen (.announced name signal arguments)).Keeps I) :
    (fireSlot b number signal slot arguments).Keeps I := by
  cases slot with
  | record name => exact hrecord name rfl
  | listen steps left =>
    refine .get_bind fun w hw ↦ ?_
    split
    · rename_i number' _ _ steps left hl
      have hm := List.mem_of_find?_eq_some hl
      obtain rfl : number' = number := by simpa using List.find?_some hl
      split
      · exact hb.steps steps (hu.listener hw hm rfl) _ (hu.left _ hw hm rfl)
      · exact hw
    · exact hw
  | refresh k =>
    refine .get_bind fun w hw ↦ ?_
    split
    · rename_i hk
      exact hu.refresh hb hw hk
    · exact hw
  | relay k mode =>
    refine .bind (fun _ hw ↦ hw) fun w ↦ ?_
    split
    · exact hu.announce hb _ _ _
    · exact .pure _
  | capture k =>
    refine .bind (fun _ hw ↦ hw) fun w ↦ ?_
    dsimp only
    split
    · exact hu.recordCapture hh _ _
    · exact .pure _

omit hu hb

theorem dispatchUndo (k : Nat) : (dispatchUndo b k).Keeps I := by
  refine .bind (fun _ hw ↦ hw) fun w ↦ ?_
  split
  · exact .pure _
  · refine .bind (fun _ hw ↦ hw) fun w ↦ ?_
    dsimp only
    split
    · exact .bind (hh.back _) fun _ ↦ .pure _
    · exact .bind (hh.undo _) fun _ ↦ .pure _

theorem dispatchRedo (k : Nat) : (dispatchRedo b k).Keeps I := by
  refine .bind (fun _ hw ↦ hw) fun w ↦ ?_
  split
  · exact .pure _
  · refine .bind (fun _ hw ↦ hw) fun w ↦ ?_
    dsimp only
    split
    · exact .bind (hh.forth _) fun _ ↦ .pure _
    · exact .bind (hh.redo _) fun _ ↦ .pure _

theorem shortcut (k : Nat) (key : Value) : (shortcut b k key).Keeps I := by
  unfold Session.shortcut
  split
  · exact .bind (dispatchUndo hh k) fun _ ↦ .pure _
  · split
    · exact .bind (dispatchRedo hh k) fun _ ↦ .pure _
    · exact .pure _

include hu

theorem watch {name : Text} {k : Nat} {o : Object} (hw : I w) (hk : k < w.dispatchers.length)
    (ho : w.object name = .ok o) : (watch b k o).Leads w (fun _ ↦ I) (fun _ ↦ I) True := by
  refine leads_watch.2 ⟨fun _ _ _ _ ↦ hw, fun _ ↦ ?_⟩
  unfold rewatch
  rw [Run.leads_bind, Run.leads_modify, Run.leads_bind, Run.leads_lift]
  refine ⟨fun x hx ↦ ?_, fun e he ↦ hu.unwatched hw ho fun x hx ↦ ?_⟩
  · obtain rfl := changesOf_ok hx
    rw [Run.leads_bind, Run.leads_modify]
    exact hu.recordCapture hh _ _ _ (hu.watched hw hk ho)
  · subst hx
    cases he

end Histories

section Objects

omit b

variable (hu : Upheld T I)

theorem object_bind {α : Type} {name : Text} {f : Object → Run World α}
    (h : ∀ w o, I w → w.object name = .ok o → (f o).Leads w (fun _ ↦ I) (fun _ ↦ I) True) :
    (object name >>= f).Keeps I := .ask_bind fun w o hw ho ↦ h w o hw ho

include hu in
theorem dispatcherOf_bind {α : Type} {name operation : Text} {f : Nat → Run World α}
    (h : ∀ w k, I w → k < w.dispatchers.length → (f k).Leads w (fun _ ↦ I) (fun _ ↦ I) True) :
    (dispatcherOf name operation >>= f).Keeps I := by
  unfold dispatcherOf
  rw [bind_assoc]
  refine object_bind fun w o hw ho ↦ ?_
  cases o with
  | dispatcher k => exact h w k hw ((hu.sound hw).has_of_object ho)
  | journal | timeline | selection | listing => exact hw

theorem selectionOf (name operation : Text) : (selectionOf name operation).Keeps I := by
  refine .bind (.ask _) fun o ↦ ?_
  cases o with
  | selection => exact .pure _
  | journal | timeline | listing | dispatcher => exact .raise _

theorem dispatcherOf (name operation : Text) : (dispatcherOf name operation).Keeps I := by
  refine .bind (.ask _) fun o ↦ ?_
  cases o with
  | dispatcher => exact .pure _
  | journal | timeline | selection | listing => exact .raise _

theorem listingOf (name operation : Text) : (listingOf name operation).Keeps I := by
  refine .bind (.ask _) fun o ↦ ?_
  cases o with
  | listing => exact .pure _
  | journal | timeline | selection | dispatcher => exact .raise _

include hu

theorem newSelection (name : Text) (nodes : Value) : (newSelection name nodes).Keeps I := by
  intro w hw
  unfold Session.newSelection
  rw [Run.leads_bind, Run.leads_lift]
  refine ⟨fun s hs ↦ ?_, fun _ _ ↦ hw⟩
  have hs : Value.Settled s.nodes := by
    cases hm : nodes.members with
    | error e =>
      rw [hm] at hs
      cases hs
    | ok ns =>
      rw [hm] at hs
      change Selection.ofNodes ns = .ok s at hs
      unfold Selection.ofNodes at hs
      cases hd : Value.distinct ns with
      | error e =>
        rw [hd] at hs
        cases hs
      | ok us =>
        rw [hd] at hs
        cases hs
        exact Value.settled_of_distinct hd
  exact hu.presented name (o := .selection w.selections.length) hw (by simp [World.Has])
    (hu.selection hw hs) (by simp [World.Has]) nofun nofun

theorem newListing (name history : Text) : (newListing name history).Keeps I := by
  intro w hw
  unfold Session.newListing
  rw [Run.leads_bind]
  refine Run.leads_ask.2 ⟨fun o ho ↦ ?_, fun _ _ ↦ hw⟩
  rw [Run.leads_bind]
  exact Run.leads_ask.2 ⟨fun rows hr ↦ hu.listing name hw ho hr, fun _ _ ↦ hw⟩

theorem newDispatcher {name : Text} {source : Settings.Source Value}
    (hs : T.step (.newDispatcher name source)) : (newDispatcher name source).Keeps I := by
  intro w hw
  cases h : source.settings id with
  | error e =>
    unfold Session.newDispatcher
    rw [h]
    exact hw
  | ok settings =>
    rw [Run.Leads, World.newDispatcher_eq h]
    exact hu.dispatcher name hw hs h

end Objects

/-- A step that may be taken keeps to whatever is kept to by what operations make of worlds and of
histories. -/
theorem perform (hu : Upheld T I) (hb : b.Upholds T I) (hh : Histories T I b) {step : Step}
    (hs : T.step step) : (perform b step).Keeps I := by
  cases step with
  | newJournal name limit =>
    intro w hw
    exact hu.presented name (o := .journal w.journals.length) hw (by simp [World.Has])
      (hu.journal hw (T.newJournal hs)) (by simp [World.Has]) (by simp) (by simp)
  | newTimeline name limit =>
    intro w hw
    exact hu.presented name (o := .timeline w.timelines.length) hw (by simp [World.Has])
      (hu.timeline _ hw) (by simp [World.Has]) (by simp) (by simp)
  | newSelection name nodes => exact .bind (hu.newSelection name nodes) fun _ ↦ .pure _
  | newListing name history => exact .bind (hu.newListing name history) fun _ ↦ .pure _
  | newDispatcher name source => exact .bind (hu.newDispatcher hs) fun _ ↦ .pure _
  | edit => exact .bind (.modify fun _ hw ↦ hu.edit hw hs) fun _ ↦ .pure _
  | state => exact .bind (.modify fun _ hw ↦ hu.state hw hs) fun _ ↦ .pure _
  | group name text parts =>
    refine .bind (.mapM (fun _ ↦ .ask _) parts) fun _ ↦ ?_
    exact .bind (.modify fun _ hw ↦ hu.item name hw rfl (by simp [Item.selection?])) fun _ ↦ .pure _
  | change name selection before after =>
    refine object_bind fun w o hw ho ↦ ?_
    rw [Run.leads_bind, Run.leads_lift]
    refine ⟨fun before _ ↦ ?_, fun _ _ ↦ hw⟩
    rw [Run.leads_bind, Run.leads_lift]
    refine ⟨fun after _ ↦ hu.item name hw rfl fun p hp ↦ ?_, fun _ _ ↦ hw⟩
    cases hp
    exact .inr ⟨selection, ho⟩
  | captured name selection nodes =>
    refine object_bind fun w o hw ho ↦ ?_
    rw [Run.leads_bind, Run.leads_lift]
    refine ⟨fun nodes _ ↦ hu.item name hw rfl fun p hp ↦ ?_, fun _ _ ↦ hw⟩
    cases hp
    exact .inr ⟨selection, ho⟩
  | capture name selection =>
    refine .bind (selectionOf _ _) fun k ↦ .bind (.modify fun w hw ↦ ?_) fun _ ↦ .pure _
    exact hu.item name hw rfl fun p hp ↦ .inl ⟨k, (Option.some.inj hp).symm⟩
  | add history name =>
    refine .ask_bind fun w i hw hi ↦ ?_
    rw [Run.leads_bind]
    refine Run.leads_ask.2 ⟨fun o _ ↦ ?_, fun _ _ ↦ hw⟩
    cases o with
    | journal k =>
      rw [Run.leads_bind]
      exact (hh.add k hw hi).mono (fun _ _ ht ↦ ht) (fun _ _ ht ↦ ht)
    | timeline k =>
      rw [Run.leads_bind]
      exact (hh.addState k hw (.inl ⟨name, hi⟩)).mono (fun _ _ ht ↦ ht) (fun _ _ ht ↦ ht)
    | selection | listing | dispatcher => exact hw
  | undo target =>
    refine .bind (.ask _) fun o ↦ ?_
    cases o with
    | journal k => exact .bind (hh.undo k) fun _ ↦ .pure _
    | timeline k => exact .bind (hh.back k) fun _ ↦ .pure _
    | dispatcher k => exact .bind (dispatchUndo hh k) fun _ ↦ .pure _
    | selection | listing => exact .raise _
  | redo target =>
    refine .bind (.ask _) fun o ↦ ?_
    cases o with
    | journal k => exact .bind (hh.redo k) fun _ ↦ .pure _
    | timeline k => exact .bind (hh.forth k) fun _ ↦ .pure _
    | dispatcher k => exact .bind (dispatchRedo hh k) fun _ ↦ .pure _
    | selection | listing => exact .raise _
  | clear target =>
    refine .bind (.ask _) fun o ↦ ?_
    cases o with
    | journal k => exact .bind (hh.clear k) fun _ ↦ .pure _
    | timeline k => exact .bind (hh.clearStates k) fun _ ↦ .pure _
    | selection k => exact .bind (hu.select hb k []) fun _ ↦ .pure _
    | listing | dispatcher => exact .raise _
  | setEnabled history value =>
    refine .bind (.ask _) fun o ↦ ?_
    cases o with
    | journal k => exact .bind (hh.enable k _) fun _ ↦ .pure _
    | timeline k => exact .bind (hh.enableStates k _) fun _ ↦ .pure _
    | selection | listing | dispatcher => exact .raise _
  | setLimit history value =>
    refine .bind (.ask _) fun o ↦ ?_
    cases o with
    | journal k => exact .bind (hh.limit k (T.setLimit hs)) fun _ ↦ .pure _
    | timeline k => exact .bind (hh.limitStates k (T.setLimit hs)) fun _ ↦ .pure _
    | selection | listing | dispatcher => exact .pure _
  | iterate history name =>
    refine .bind (.ask _) fun o ↦ .bind (.ask _) fun entries ↦ ?_
    exact .bind (.modify fun _ hw ↦ hu.aside _ _ hw) fun _ ↦ .pure _
  | next name =>
    refine .bind (.ask _) fun entries ↦ ?_
    cases entries with
    | nil => exact .pure _
    | cons i rest =>
      refine .bind (.modify fun _ hw ↦ hu.aside _ _ hw) fun _ ↦ ?_
      exact .bind (fun _ hw ↦ hw) fun _ ↦ .pure _
  | setMode dispatcher mode =>
    refine hu.dispatcherOf_bind fun w k hw _ ↦ ?_
    exact Run.Keeps.bind (hh.mode k mode) (fun _ ↦ .pure _) w hw
  | shortcut dispatcher key =>
    refine hu.dispatcherOf_bind fun w k hw _ ↦ ?_
    exact Run.Keeps.bind (shortcut hh k key) (fun _ ↦ .pure _) w hw
  | commit dispatcher name =>
    refine hu.dispatcherOf_bind fun w k hw _ ↦ ?_
    rw [Run.leads_bind, Run.leads_get, Run.leads_bind]
    refine Run.leads_ask.2 ⟨fun i hi ↦ ?_, fun _ _ ↦ hw⟩
    rw [Run.leads_bind]
    exact (hh.add _ hw hi).mono (fun _ _ ht ↦ ht) (fun _ _ ht ↦ ht)
  | watch dispatcher selection =>
    refine hu.dispatcherOf_bind fun w k hw hk ↦ ?_
    rw [Run.leads_bind]
    refine Run.leads_ask.2 ⟨fun o ho ↦ ?_, fun _ _ ↦ hw⟩
    rw [Run.leads_bind]
    exact (hu.watch hh hw hk ho).mono (fun _ _ ht ↦ ht) (fun _ _ ht ↦ ht)
  | select selection nodes =>
    refine .bind (selectionOf _ _) fun k ↦ .bind (.lift _) fun ns ↦ ?_
    exact .bind (hu.select hb k ns) fun _ ↦ .pure _
  | isSelected selection node =>
    exact .bind (selectionOf _ _) fun k ↦ .bind (fun _ hw ↦ hw) fun _ ↦ .pure _
  | describe name => exact .bind (.ask _) fun _ ↦ .bind (.ask _) fun _ ↦ .pure _
  | countParts name => exact .bind (.ask _) fun _ ↦ .bind (.ask _) fun _ ↦ .pure _
  | describePart name index => exact .bind (.ask _) fun _ ↦ .bind (.ask _) fun _ ↦ .pure _
  | setText name text =>
    refine .bind (.ask _) fun i ↦ .bind (.modify fun w hw ↦ ?_) fun _ ↦ .pure _
    exact hu.renewed hw (map_modify_of_eq (Item.gist_withText text) w.items i)
  | addPart name part =>
    refine .bind (.ask _) fun i ↦ .bind (.ask _) fun part ↦ .ask_bind fun w u hw hp ↦ ?_
    obtain ⟨items, rfl, hg⟩ := World.exists_items_of_addPart hp
    exact hu.renewed hw hg
  | callUndo name => exact .bind (.ask _) fun _ ↦ .bind (hb.call _ _) fun _ ↦ .pure _
  | callRedo name => exact .bind (.ask _) fun _ ↦ .bind (hb.call _ _) fun _ ↦ .pure _
  | restore name => exact .bind (.ask _) fun _ ↦ .bind (hb.call _ _) fun _ ↦ .pure _
  | countNodes name => exact .bind (.ask _) fun _ ↦ .bind (.ask _) fun _ ↦ .pure _
  | spell name =>
    exact .bind (.ask _) fun _ ↦ .bind (.ask _) fun _ ↦ .bind (.lift _) fun _ ↦ .pure _
  | compare left right =>
    exact .bind (.ask _) fun _ ↦ .bind (.ask _) fun _ ↦ .bind (fun _ hw ↦ hw) fun _ ↦ .pure _
  | compareTuple name nodes =>
    exact .bind (.ask _) fun _ ↦ .bind (.lift _) fun _ ↦ .bind (fun _ hw ↦ hw) fun _ ↦ .pure _
  | compareResidues left right =>
    exact .bind (.ask _) fun _ ↦ .bind (.ask _) fun _ ↦ .bind (.ask _) fun _ ↦ .pure _
  | index listing name row column =>
    refine .bind (listingOf _ _) fun k ↦ .bind (fun _ hw ↦ hw) fun w ↦ ?_
    refine .bind (.lift _) fun index ↦ .bind (.modify fun _ hw ↦ ?_) fun _ ↦ .pure _
    exact hu.aside _ _ hw
  | cell listing index role =>
    refine .bind (listingOf _ _) fun k ↦ .bind (.ask _) fun row ↦ ?_
    split
    · exact .ask _
    · exact .pure _
  | countRows listing parent =>
    refine .bind (listingOf _ _) fun k ↦ .bind (.ask _) fun row ↦ ?_
    split
    · exact .pure _
    · exact .bind (fun _ hw ↦ hw) fun _ ↦ .pure _
  | editAt listing row =>
    refine .bind (listingOf _ _) fun k ↦ .bind (fun _ hw ↦ hw) fun w ↦ ?_
    refine .bind (.lift _) fun i ↦ ?_
    cases i with
    | none => exact .pure _
    | some i => exact .pure _
  | listen name signal steps times =>
    refine object_bind fun w o hw ho ↦ ?_
    dsimp only
    split
    · exact hu.listened _ hw ho hs
    · exact hw
  | fail message => exact .raise _
  | attempt steps =>
    exact .bind (.recover (hb.steps _ (T.attempt hs)) fun _ ↦ hu.happen rfl) fun _ ↦ .pure _

theorem nested (hu : Upheld T I) (hb : b.Upholds T I) (hh : Histories T I b) {steps : List Step}
    (hs : ∀ s ∈ steps, T.step s) : (nested b steps).Keeps I :=
  fun w hw ↦ Run.leads_each hw fun step hm w hw ↦ by
    refine Run.Keeps.bind (hu.perform hb hh (hs step hm)) (fun answer ↦ ?_) w hw
    split
    · exact hu.happen rfl
    · exact .pure _

/-- What is done one level deeper on these terms keeps to `I` if what is done yet one level deeper
does, and what has been announced makes no difference. -/
theorem upholds (hu : Upheld T I) (hb : b.Upholds T I) (hh : Histories T I b)
    (he : ∀ w e, I w → I (w.addEvent e)) :
    Inner.Upholds ⟨Session.nested b, Session.callItem b, Session.fireSlot b⟩ T I where
  steps _ hs := hu.nested hb hh hs
  call := hu.callItem hb
  fire number signal slot arguments := hu.fireSlot hb hh number signal slot arguments
    fun _ _ ↦ .modify fun w hw ↦ he w _ hw

section Aloof

variable (hu : Upheld T I) (hi : Aloof I)

include hu hi

theorem journal_steady (hb : b.Upholds T I) (k : Nat) :
    (journalHost b k).Steady (fun _ ↦ True) I where
  toHeard := hu.heardJournal hb k
  update f _ hw _ := hi.journal k f hw

theorem timeline_steady (hb : b.Upholds T I) (k : Nat) : (timelineHost b k).Steady I where
  toHeard := hu.heardTimeline hb k
  update f _ hw := hi.timeline k f hw

theorem histories (hb : b.Upholds T I) : Histories T I b := by
  have hj (k : Nat) := hu.journal_steady hi hb k
  have ht (k : Nat) := hu.timeline_steady hi hb k
  have hcall (k : Nat) (way : Way) (w : World) (i : Nat) (hw : I w) :
      (b.call way i).Leads ((journalHost b k).update ({ · with replaying := true }) w)
        (fun _ ↦ I) (fun _ ↦ I) True :=
    hb.call way i _ (hi.journal k _ hw)
  exact {
    add := fun k hw _ ↦ (hj k).add trivial _ hw
    undo := fun k ↦ (hj k).undo fun w i m hw _ hm ↦ eq_call_of_map hm ▸ hcall k _ w i hw
    redo := fun k ↦ (hj k).redo fun w i m hw _ hm ↦ eq_call_of_map hm ▸ hcall k _ w i hw
    clear := fun k ↦ (hj k).clear
    enable := fun k _ ↦ (hj k).change fun _ _ hx ↦ hx
    limit := fun k _ _ ↦ (hj k).change fun _ _ hx ↦ hx
    addState := fun k hw _ ↦ (ht k).add _ _ hw
    back := fun k ↦ (ht k).undo (hb.call _)
    forth := fun k ↦ (ht k).redo (hb.call _)
    clearStates := fun k ↦ (ht k).clear
    enableStates := fun k _ ↦ (ht k).change _
    limitStates := fun k _ _ ↦ (ht k).change _
    mode := fun k ↦ hu.setMode hb k fun mode h ↦ hi.mode k mode h }

/-- However deep steps nest, they keep to `I` if histories and events make no difference to it. -/
theorem inner (he : ∀ w e, I w → I (w.addEvent e)) (n : Nat) : (Session.inner n).Upholds T I := by
  induction n with
  | zero => exact ⟨fun _ _ ↦ .raise _, fun _ _ ↦ .raise _, fun _ _ _ _ _ _ ↦ trivial⟩
  | succ n ih => exact hu.upholds ih (hu.histories hi ih) he

end Aloof

end Upheld

end Rewind.Session
