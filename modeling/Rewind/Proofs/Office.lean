import Rewind.Proofs.Bystanders
import Rewind.Proofs.Plain

namespace Rewind.Session

section Items

variable {v w : World} {i j : Nat} {item : Item}

theorem Item.allows_gist (item : Item) (way : Way) : item.gist.allows way = item.allows way := by
  cases item <;> rfl

theorem Item.answersEqual_gist (a b : Item) :
    a.gist.answersEqual b.gist = a.answersEqual b := by
  cases a <;> cases b <;> rfl

namespace World.Grown

theorem allows (h : v.Grown w) (hi : v.items[i]? = some item) {way : Way}
    (ha : item.allows way = true) : w.allows i way = .ok () := by
  obtain ⟨item', hi', hg⟩ := h.item hi
  have ha' : item'.allows way = true := by
    rwa [← item'.allows_gist, hg, item.allows_gist]
  unfold World.allows
  rw [hi']
  exact if_pos ha'

theorem describe (h : v.Grown w) (hi : i < v.items.length) {e : Fault}
    (he : w.describe i = .error e) : v.describe i = .error e := by
  have hitem := List.getElem?_eq_getElem hi
  obtain ⟨item', hi', hg⟩ := h.item hitem
  unfold World.describe at he ⊢
  rw [hi'] at he
  rw [hitem]
  have he' := Item.describe_gist.2 he
  rw [hg] at he'
  exact Item.describe_gist.1 he'

theorem answersEqual (h : v.Grown w) (hi : i < v.items.length) (hj : j < v.items.length) :
    w.answersEqual (.item i) (.item j) = v.answersEqual (.item i) (.item j) := by
  obtain ⟨a, ha, hga⟩ := h.item (List.getElem?_eq_getElem hi)
  obtain ⟨b, hb, hgb⟩ := h.item (List.getElem?_eq_getElem hj)
  simp only [World.answersEqual, ha, hb, List.getElem?_eq_getElem hi, List.getElem?_eq_getElem hj,
    Option.bind_eq_bind, Option.bind_some]
  rw [← a.answersEqual_gist, hga, hgb, Item.answersEqual_gist]

theorem sameItem (h : v.Grown w) (hi : i < v.items.length) (hj : j < v.items.length) :
    w.sameItem i j = v.sameItem i j := by
  rw [World.sameItem, World.equal, h.answersEqual hi hj, h.answersEqual hj hi, ← World.equal,
    ← World.sameItem]

end World.Grown

end Items

namespace World

variable {w : World} {heeds : Text → Bool}

/-- What has been called under the names that are heeded, in order. -/
def calls (heeds : Text → Bool) (w : World) : List (Text × Way) :=
  w.events.reverse.filterMap fun
    | .called name way => if heeds name then some (name, way) else none
    | _ => none

theorem calls_addEvent {e : Event} (he : e.isCall = false) :
    (w.addEvent e).calls heeds = w.calls heeds := by
  cases e with
  | called name way => cases he
  | announced | answered | caught | slotFailed | logged => simp [calls, addEvent]

theorem calls_called (name : Text) (way : Way) :
    (w.addEvent (.called name way)).calls heeds =
      w.calls heeds ++ if heeds name then [(name, way)] else [] := by
  cases h : heeds name <;> simp [calls, addEvent, h]

end World

/-- Those whom a history calls. What one of them does when called goes by what has been called of
them before: what is called meanwhile, and the fault if it fails. -/
structure Crew where
  items : Nat → Prop
  heeds : Text → Bool
  does : List (Text × Way) → Way → Nat → List (Text × Way) × Option Fault

/-- A dispatcher with its histories, those whom they call, and the world it starts from. How it
stands with the items may go by what has been called. -/
structure Office where
  dispatcher : Nat
  journal : Nat
  timeline : Nat
  edits : Crew
  states : Crew
  fit : List Item → List (Text × Way) → List (Text × Way) → Prop
  start : World

namespace Office

variable {o : Office} {c d : Crew} {u v w : World} {Calm : World → Prop} {m n x i : Nat} {way : Way}
  {a : Tally (Journal Nat) Nat} {b : Tally (Timeline Nat) Nat}

/-- What has been called of a crew once the given items have been called one after the other. -/
def trace (o : Office) (c : Crew) (calls : List (Way × Nat)) : List (Text × Way) :=
  calls.foldl (fun called call ↦ called ++ (c.does called call.1 call.2).1) (o.start.calls c.heeds)

def ends (o : Office) (c : Crew) (calls : List (Way × Nat)) (way : Way) (i : Nat) : Option Fault :=
  (c.does (o.trace c calls) way i).2

theorem trace_call (calls : List (Way × Nat)) :
    o.trace c (calls ++ [(way, i)]) =
      o.trace c calls ++ (c.does (o.trace c calls) way i).1 := by
  simp [trace]

def Fits (o : Office) (w : World) : Prop :=
  o.fit w.items (w.calls o.edits.heeds) (w.calls o.states.heeds)

/-- Neither history is touched, and nothing is called of those whom they call. -/
structure Apart (o : Office) (w w' : World) : Prop where
  journal : w'.journal o.journal = w.journal o.journal
  timeline : w'.timeline o.timeline = w.timeline o.timeline
  edits : w'.calls o.edits.heeds = w.calls o.edits.heeds
  states : w'.calls o.states.heeds = w.calls o.states.heeds
  fit : o.Fits w → o.Fits w'

theorem apart_of_eq (hj : v.journal o.journal = w.journal o.journal)
    (ht : v.timeline o.timeline = w.timeline o.timeline)
    (hc : ∀ heeds, v.calls heeds = w.calls heeds) (hi : v.items = w.items) : o.Apart w v := by
  refine ⟨hj, ht, hc _, hc _, fun hf ↦ ?_⟩
  unfold Fits
  rw [hi, hc, hc]
  exact hf

theorem apart_framing : Framing (fun t ↦ t = o.timeline) o.Apart where
  refl _ := apart_of_eq rfl rfl (fun _ ↦ rfl) rfl
  trans h h' := ⟨h'.journal.trans h.journal, h'.timeline.trans h.timeline, h'.edits.trans h.edits,
    h'.states.trans h.states, fun hf ↦ h'.fit (h.fit hf)⟩
  event _ _ he := apart_of_eq rfl rfl (fun _ ↦ World.calls_addEvent he) rfl
  reading _ _ := apart_of_eq rfl rfl (fun _ ↦ rfl) rfl
  listing _ _ _ := apart_of_eq rfl rfl (fun _ ↦ rfl) rfl
  timeline w t f ht := apart_of_eq rfl (by simp [World.timeline, ht]) (fun _ ↦ rfl) rfl
  left _ _ _ _ := apart_of_eq rfl rfl (fun _ ↦ rfl) rfl

/-- One of a crew has done what it does, and has left the histories and the others alone. -/
structure Done (o : Office) (Calm : World → Prop) (c d : Crew) (way : Way) (i : Nat)
    (w w' : World) : Prop where
  journal : w'.journal o.journal = w.journal o.journal
  timeline : w'.timeline o.timeline = w.timeline o.timeline
  own : w'.calls c.heeds = w.calls c.heeds ++ (c.does (w.calls c.heeds) way i).1
  other : w'.calls d.heeds = w.calls d.heeds
  fits : o.Fits w'
  calm : Calm w'

/-- Wherever one of a crew is called in a way, it does what it does. -/
def Serves (o : Office) (n : Nat) (Calm : World → Prop) (c d : Crew) (way : Way) : Prop :=
  ∀ {w i}, o.start.Grown w → Calm w → o.Fits w → c.items i →
    ((inner n).call way i).Leads w
      (fun _ w' ↦ (c.does (w.calls c.heeds) way i).2 = none ∧ o.Done Calm c d way i w w')
      (fun e w' ↦ (c.does (w.calls c.heeds) way i).2 = some e ∧ o.Done Calm c d way i w w') False

/-- An office in which nobody touches the histories but through the dispatcher, or by asking
them. -/
structure Undisturbed (o : Office) (m n x : Nat) (Calm : World → Prop) : Prop where
  reached : Reached o.start
  histories : o.start.histories[o.dispatcher]? = some (o.journal, o.timeline)
  calm : Calm o.start
  fits : o.Fits o.start
  edits : ∀ i, o.edits.items i → ∃ item, o.start.items[i]? = some item ∧ item.allows .undo = true
  states : ∀ i, o.states.items i → i < o.start.items.length
  done : ∀ i ∈ (o.start.journal o.journal).entries, o.edits.items i
  seen : ∀ i ∈ (o.start.timeline o.timeline).entries, o.states.items i
  undo : o.Serves n Calm o.edits o.states .undo
  redo : o.Serves n Calm o.edits o.states .redo
  restore : o.Serves n Calm o.states o.edits .restore
  bystanders : Bystanders m o.journal x o.Apart Calm
  room : m + 3 ≤ n

/-- The world is as the tallies of both histories say. -/
structure At (o : Office) (Calm : World → Prop) (a : Tally (Journal Nat) Nat)
    (b : Tally (Timeline Nat) Nat) (w : World) : Prop where
  grown : o.start.Grown w
  calm : Calm w
  fits : o.Fits w
  journal : w.journal o.journal = a.history
  timeline : w.timeline o.timeline = b.history
  edits : w.calls o.edits.heeds = o.trace o.edits a.calls
  states : w.calls o.states.heeds = o.trace o.states b.calls

/-- Something that is called refuses to be described. -/
def Unsaid (o : Office) (e : Fault) : Prop :=
  ∃ i, (o.edits.items i ∨ o.states.items i) ∧ o.start.describe i = .error e

theorem Undisturbed.lt (h : o.Undisturbed m n x Calm) (hi : o.edits.items i ∨ o.states.items i) :
    i < o.start.items.length := by
  rcases hi with hi | hi
  · obtain ⟨item, hitem, -⟩ := h.edits i hi
    exact (List.getElem?_eq_some_iff.1 hitem).1
  · exact h.states i hi

namespace At

theorem of_apart (h : o.At Calm a b w) (ha : o.Apart w v) (hg : w.Grown v) (hc : Calm v) :
    o.At Calm a b v :=
  ⟨h.grown.trans hg, hc, ha.fit h.fits, ha.journal.trans h.journal, ha.timeline.trans h.timeline,
    ha.edits.trans h.edits, ha.states.trans h.states⟩

/-- What makes no difference to what there is around makes none to the tallies. -/
theorem leads_apart (h : o.At Calm a b w) {code : Run World Unit}
    (hcode : o.Apart w w ∧ w.Grown w ∧ Calm w → code.Leads w
      (fun _ v ↦ o.Apart w v ∧ w.Grown v ∧ Calm v) (fun _ _ ↦ False) False) :
    code.Leads w (fun _ ↦ o.At Calm a b) (fun _ _ ↦ False) False := by
  refine (hcode ⟨apart_framing.refl w, h.grown.sound.refl, h.calm⟩).mono (fun _ v hv ↦ ?_)
    (fun _ _ hv ↦ hv)
  exact h.of_apart hv.1 hv.2.1 hv.2.2

theorem journal_lt (h : o.At Calm a b w) (ho : o.Undisturbed m n x Calm) :
    o.journal < w.journals.length :=
  (h.grown.sound.histories _ (List.mem_of_getElem? (h.grown.histories_eq ho.histories))).1

theorem timeline_lt (h : o.At Calm a b w) (ho : o.Undisturbed m n x Calm) :
    o.timeline < w.timelines.length :=
  (h.grown.sound.histories _ (List.mem_of_getElem? (h.grown.histories_eq ho.histories))).2

theorem setJournal (h : o.At Calm a b w) (ho : o.Undisturbed m n x Calm)
    (f : Journal Nat → Journal Nat) :
    o.At Calm { a with history := f a.history } b
      { w with journals := w.journals.modify o.journal f } := by
  refine ⟨h.grown.trans (h.grown.sound.grown_journal _ f),
    ho.bystanders.stable h.calm (World.beside_journal f), h.fits, ?_, h.timeline, h.edits, h.states⟩
  rw [World.journal_modify (h.journal_lt ho), h.journal]

theorem setTimeline (h : o.At Calm a b w) (ho : o.Undisturbed m n x Calm)
    (f : Timeline Nat → Timeline Nat) :
    o.At Calm a { b with history := f b.history }
      { w with timelines := w.timelines.modify o.timeline f } := by
  refine ⟨h.grown.trans (h.grown.sound.grown_timeline _ f), ?_, h.fits, h.journal, ?_, h.edits,
    h.states⟩
  · exact ho.bystanders.stable h.calm (World.beside_of_eq rfl rfl rfl rfl List.prefix_rfl)
  · rw [World.timeline_modify (h.timeline_lt ho), h.timeline]

theorem setMode (h : o.At Calm a b w) (ho : o.Undisturbed m n x Calm) (mode : Value) :
    o.At Calm a b
      { w with dispatchers := w.dispatchers.modify o.dispatcher ({ · with mode }) } := by
  refine ⟨h.grown.trans (h.grown.sound.grown_setMode _ mode), ?_, h.fits, h.journal, h.timeline,
    h.edits, h.states⟩
  exact ho.bystanders.stable h.calm (World.beside_of_eq rfl rfl rfl rfl List.prefix_rfl)

/-- What an edit does makes no difference to either tally but that it has been called. -/
theorem edit_done (h : o.At Calm a b w) (hv : o.Done Calm o.edits o.states way i w v)
    (hg : w.Grown v) : o.At Calm (a.call way i) b v := by
  refine ⟨h.grown.trans hg, hv.calm, hv.fits, hv.journal.trans h.journal,
    hv.timeline.trans h.timeline, ?_, hv.other.trans h.states⟩
  rw [hv.own, h.edits]
  exact (trace_call a.calls).symm

theorem state_done (h : o.At Calm a b w) (hv : o.Done Calm o.states o.edits way i w v)
    (hg : w.Grown v) : o.At Calm a (b.call way i) v := by
  refine ⟨h.grown.trans hg, hv.calm, hv.fits, hv.journal.trans h.journal,
    hv.timeline.trans h.timeline, hv.other.trans h.edits, ?_⟩
  rw [hv.own, h.states]
  exact (trace_call b.calls).symm

end At

theorem Serves.leads (hs : o.Serves n Calm c d way) (h : o.At Calm a b w) (hi : c.items i) :
    ((inner n).call way i).Leads w
      (fun _ v ↦ (c.does (w.calls c.heeds) way i).2 = none ∧ o.Done Calm c d way i w v ∧ w.Grown v)
      (fun e v ↦ (c.does (w.calls c.heeds) way i).2 = some e ∧ o.Done Calm c d way i w v ∧
        w.Grown v) False := by
  have hg := (inner_grows w n).call way i w h.grown.sound.refl
  refine (hg.and (hs h.grown h.calm h.fits hi)).mono (fun _ v hv ↦ ?_) (fun e v hv ↦ ?_)
  · exact ⟨hv.2.1, hv.2.2, hv.1⟩
  · exact ⟨hv.2.1, hv.2.2, hv.1⟩

namespace Undisturbed

theorem calls_edit (ho : o.Undisturbed m n x Calm) (hw : way = .undo ∨ way = .redo)
    (hi : o.edits.items i) :
    ((inner n).call way i).Calls (o.ends o.edits) (fun a ↦ o.At Calm a b) way i := by
  intro a w h
  have hserves : o.Serves n Calm o.edits o.states way := by
    rcases hw with rfl | rfl
    · exact ho.undo
    · exact ho.redo
  have hleads := hserves.leads h hi
  rw [h.edits] at hleads
  refine hleads.mono (fun _ v hv ↦ ?_) (fun e v hv ↦ ?_)
  · exact ⟨hv.1, h.edit_done hv.2.1 hv.2.2⟩
  · exact ⟨hv.1, h.edit_done hv.2.1 hv.2.2⟩

theorem calls_state (ho : o.Undisturbed m n x Calm) (hi : o.states.items i) :
    ((inner n).call .restore i).Calls (o.ends o.states) (fun b ↦ o.At Calm a b) .restore i := by
  intro b w h
  have hleads := Serves.leads ho.restore h hi
  rw [h.states] at hleads
  refine hleads.mono (fun _ v hv ↦ ?_) (fun e v hv ↦ ?_)
  · exact ⟨hv.1, h.state_done hv.2.1 hv.2.2⟩
  · exact ⟨hv.1, h.state_done hv.2.1 hv.2.2⟩

theorem journal_plain (ho : o.Undisturbed m n x Calm) (b : Tally (Timeline Nat) Nat) :
    (journalHost (inner n) o.journal).Plain o.edits.items o.Unsaid (o.ends o.edits)
      (fun a ↦ o.At Calm a b) where
  journal h := h.journal
  update f h := h.setJournal ho f
  describe h hi he := ⟨_, .inl hi, h.grown.describe (ho.lt (.inl hi)) he⟩
  revert {a w i} h hi := by
    obtain ⟨item, hitem, ha⟩ := ho.edits i hi
    refine ⟨(inner n).call .undo i, ?_, Journal.Holding.calls (ho.calls_edit (.inl rfl) hi)⟩
    show (fun _ ↦ (inner n).call .undo i) <$> w.allows i .undo = _
    rw [h.grown.allows hitem ha]
    rfl
  reapply {a w i} h hi := by
    obtain ⟨item, hitem, ha⟩ := ho.edits i hi
    have hr : item.allows .redo = true := by
      cases item <;> first | rfl | cases ha
    refine ⟨(inner n).call .redo i, ?_, Journal.Holding.calls (ho.calls_edit (.inr rfl) hi)⟩
    show (fun _ ↦ (inner n).call .redo i) <$> w.allows i .redo = _
    rw [h.grown.allows hitem hr]
    rfl
  announce notice h :=
    h.leads_apart ((ho.bystanders.around apart_framing _).leads_announceJournal ho.room _ notice)
  log remark h := h.leads_apart ((ho.bystanders.around apart_framing _).leads_log remark.text)

theorem timeline_plain (ho : o.Undisturbed m n x Calm) (a : Tally (Journal Nat) Nat) :
    (timelineHost (inner n) o.timeline).Plain o.states.items o.Unsaid (o.ends o.states)
      o.start.sameItem (fun b ↦ o.At Calm a b) where
  timeline h := h.timeline
  update f h := h.setTimeline ho f
  same h hi hj := h.grown.sameItem (ho.states _ hi) (ho.states _ hj)
  describe h hi he := ⟨_, .inr hi, h.grown.describe (ho.lt (.inr hi)) he⟩
  restore hi := ho.calls_state hi
  announce notice h :=
    h.leads_apart ((ho.bystanders.around apart_framing _).leads_announceTimeline ho.room _ notice)
  log remark h := h.leads_apart ((ho.bystanders.around apart_framing _).leads_log remark.text)

theorem setMode_keeps (ho : o.Undisturbed m n x Calm) (mode : Value) :
    (Session.setMode (inner n) o.dispatcher mode).Keeps (o.At Calm a b) False := by
  have hroom := ho.room
  have hannounce (signal : Signal) (arguments : List Answer) :
      (announce (inner n) (.dispatcher o.dispatcher) signal arguments).Keeps (o.At Calm a b)
        False := by
    intro w h
    refine (h.leads_apart ((ho.bystanders.around apart_framing w).leads_announce_outer (by omega)
      (fun _ ↦ rfl) ⟨_, .inr rfl⟩)).mono (fun _ _ hv ↦ hv) (fun _ _ hv ↦ hv.elim)
  have hlog (t : Text) : (log t).Keeps (o.At Calm a b) False := by
    intro w h
    exact (h.leads_apart ((ho.bystanders.around apart_framing w).leads_log t)).mono
      (fun _ _ hv ↦ hv) (fun _ _ hv ↦ hv.elim)
  unfold Session.setMode
  cases Mode.ofValue? mode with
  | none => exact .raise _
  | some mode =>
    refine .bind (fun _ h ↦ h) fun w ↦ ?_
    dsimp only
    split
    · exact .pure _
    · refine .bind (.modify fun w h ↦ h.setMode ho _) fun _ ↦ .bind (hlog _) fun _ ↦ ?_
      exact .bind (hannounce _ _) fun _ ↦ .bind (fun _ h ↦ h) fun _ ↦ hannounce _ _

end Undisturbed

end Office

section Forward

variable {b : Inner} {w : World} {k : Nat} {Q : Bool → World → Prop} {E : Fault → World → Prop}
  {X : Prop}

/-- Asks something of the history that a dispatcher drives. -/
def forward (b : Inner) (k : Nat) (r : Request Nat) : Run World Unit := do
  let d := (← Run.get).dispatcher k
  if d.usesTimeline then (timelineHost b d.timeline).handle r
  else (journalHost b d.journal).handle r

theorem leads_dispatchUndo :
    (dispatchUndo b k).Leads w Q E X ↔
      if (w.abilities k).1 then (forward b k .undo).Leads w (fun _ ↦ Q true) E X
      else Q false w := by
  unfold dispatchUndo forward
  simp only [Run.leads_bind, Run.leads_get]
  cases (w.abilities k).1 with
  | false => rfl
  | true =>
    simp only [Bool.not_true, Bool.false_eq_true, if_false, if_true, Run.leads_bind, Run.leads_get]
    split
    · rw [Run.leads_bind]
      rfl
    · rw [Run.leads_bind]
      rfl

theorem leads_dispatchRedo :
    (dispatchRedo b k).Leads w Q E X ↔
      if (w.abilities k).2 then (forward b k .redo).Leads w (fun _ ↦ Q true) E X
      else Q false w := by
  unfold dispatchRedo forward
  simp only [Run.leads_bind, Run.leads_get]
  cases (w.abilities k).2 with
  | false => rfl
  | true =>
    simp only [Bool.not_true, Bool.false_eq_true, if_false, if_true, Run.leads_bind, Run.leads_get]
    split
    · rw [Run.leads_bind]
      rfl
    · rw [Run.leads_bind]
      rfl

theorem leads_shortcut {key : Value} :
    (shortcut b k key).Leads w Q E X ↔
      if key.same (.text "UNDO") then (dispatchUndo b k).Leads w (fun _ ↦ Q true) E X
      else if key.same (.text "REDO") then (dispatchRedo b k).Leads w (fun _ ↦ Q true) E X
      else Q false w := by
  unfold shortcut
  split
  · rw [Run.leads_bind]
    rfl
  · split
    · rw [Run.leads_bind]
      rfl
    · rfl

end Forward

/-- What can be done with a dispatcher and its histories. -/
inductive Errand where
  | commit (i : Nat)
  | undo
  | redo
  | shortcut (key : Value)
  | setMode (mode : Value)
  | journal (r : Request Nat)
  | timeline (r : Request Nat)

namespace Errand

def run (b : Inner) (o : Office) : Errand → Run World Unit
  | commit i => do (journalHost b ((← Run.get).dispatcher o.dispatcher).journal).add i
  | undo => do let _ ← dispatchUndo b o.dispatcher
  | redo => do let _ ← dispatchRedo b o.dispatcher
  | shortcut key => do let _ ← Session.shortcut b o.dispatcher key
  | setMode mode => Session.setMode b o.dispatcher mode
  | journal r => (journalHost b o.journal).handle r
  | timeline r => (timelineHost b o.timeline).handle r

/-- Nothing is recorded but what belongs there. -/
def Of (o : Office) : Errand → Prop
  | commit i => o.edits.items i
  | journal r => r.Of o.edits.items
  | timeline r => r.Of o.states.items
  | undo | redo | shortcut _ | setMode _ => True

end Errand

/-- What a journal and a timeline are asked. -/
structure Routes where
  journal : List (Request Nat) := []
  timeline : List (Request Nat) := []
  deriving DecidableEq

instance : Append Routes := ⟨fun s t ↦ ⟨s.journal ++ t.journal, s.timeline ++ t.timeline⟩⟩

theorem Routes.journal_append (s t : Routes) : (s ++ t).journal = s.journal ++ t.journal := rfl

theorem Routes.timeline_append (s t : Routes) : (s ++ t).timeline = s.timeline ++ t.timeline := rfl

namespace World

variable {w : World} {k : Nat}

/-- A request goes to the history that a dispatcher drives, if that can meet it. -/
def routes (w : World) (k : Nat) (able : Bool) (r : Request Nat) : Routes :=
  if able then if (w.dispatcher k).usesTimeline then { timeline := [r] } else { journal := [r] }
  else {}

/-- What the histories of a dispatcher are asked in an errand. -/
def routed (w : World) (k : Nat) : Errand → Routes
  | .commit i => { journal := [.add i] }
  | .undo => w.routes k (w.abilities k).1 .undo
  | .redo => w.routes k (w.abilities k).2 .redo
  | .shortcut key =>
    if key.same (.text "UNDO") then w.routes k (w.abilities k).1 .undo
    else if key.same (.text "REDO") then w.routes k (w.abilities k).2 .redo
    else {}
  | .setMode _ => {}
  | .journal r => { journal := [r] }
  | .timeline r => { timeline := [r] }

end World

namespace Office

variable {o : Office} {w w' : World} {Calm : World → Prop} {m n x : Nat}
  {a : Tally (Journal Nat) Nat} {b : Tally (Timeline Nat) Nat} {Q : Unit → World → Prop}
  {F : Fault → World → Prop}

def edited (o : Office) (a : Tally (Journal Nat) Nat) (rs : List (Request Nat)) :
    Tally (Journal Nat) Nat :=
  rs.foldl (Journal.meet (o.ends o.edits)) a

def visited (o : Office) (b : Tally (Timeline Nat) Nat) (rs : List (Request Nat)) :
    Tally (Timeline Nat) Nat :=
  rs.foldl (Timeline.meet (o.ends o.states) o.start.sameItem) b

/-- The tallies are of nothing but what belongs there. -/
structure Stands (o : Office) (Calm : World → Prop) (a : Tally (Journal Nat) Nat)
    (b : Tally (Timeline Nat) Nat) (w : World) : Prop extends o.At Calm a b w where
  done : ∀ i ∈ a.history.entries, o.edits.items i
  seen : ∀ i ∈ b.history.entries, o.states.items i

theorem Undisturbed.stands (ho : o.Undisturbed m n x Calm) :
    o.Stands Calm ⟨o.start.journal o.journal, []⟩ ⟨o.start.timeline o.timeline, []⟩ o.start :=
  ⟨⟨ho.reached.sound.refl, ho.calm, ho.fits, rfl, rfl, rfl, rfl⟩, ho.done, ho.seen⟩

namespace Stands

theorem dispatcher_eq (h : o.Stands Calm a b w) (ho : o.Undisturbed m n x Calm) :
    (w.dispatcher o.dispatcher).journal = o.journal ∧
      (w.dispatcher o.dispatcher).timeline = o.timeline :=
  (World.dispatcher_eq (h.grown.histories_eq ho.histories)).2

theorem leads_journal (h : o.Stands Calm a b w) (ho : o.Undisturbed m n x Calm) {r : Request Nat}
    (hr : r.Of o.edits.items) :
    ((journalHost (inner n) o.journal).handle r).Leads w (fun _ ↦ o.Stands Calm (o.edited a [r]) b)
      (fun _ ↦ o.Stands Calm (o.edited a [r]) b) False := by
  refine (ho.journal_plain b).leads_handle h.toAt h.done hr ⟨fun v _ hv ↦ ?_, fun e v _ hv ↦ ?_⟩
  · exact ⟨hv, Journal.of_meet h.done hr, h.seen⟩
  · exact ⟨hv, Journal.of_meet h.done hr, h.seen⟩

theorem leads_timeline (h : o.Stands Calm a b w) (ho : o.Undisturbed m n x Calm) {r : Request Nat}
    (hr : r.Of o.states.items) :
    ((timelineHost (inner n) o.timeline).handle r).Leads w
      (fun _ ↦ o.Stands Calm a (o.visited b [r])) (fun _ ↦ o.Stands Calm a (o.visited b [r]))
      False := by
  refine (ho.timeline_plain a).leads_handle h.toAt h.seen hr ⟨fun v _ hv ↦ ?_, fun e v _ hv ↦ ?_⟩
  · exact ⟨hv, h.done, Timeline.of_meet h.seen hr⟩
  · exact ⟨hv, h.done, Timeline.of_meet h.seen hr⟩

/-- What goes to the one history makes no difference to the tally of the other. -/
theorem leads_forward (h : o.Stands Calm a b w) (ho : o.Undisturbed m n x Calm) {r : Request Nat}
    (hr : ∀ P, r.Of P) {s : Routes} (hs : s = w.routes o.dispatcher true r) :
    (forward (inner n) o.dispatcher r).Leads w
      (fun _ ↦ o.Stands Calm (o.edited a s.journal) (o.visited b s.timeline))
      (fun _ ↦ o.Stands Calm (o.edited a s.journal) (o.visited b s.timeline)) False := by
  subst hs
  obtain ⟨hj, ht⟩ := h.dispatcher_eq ho
  unfold forward World.routes
  rw [Run.leads_bind, Run.leads_get]
  dsimp only
  rw [hj, ht, if_pos rfl]
  split
  · exact h.leads_timeline ho (hr _)
  · exact h.leads_journal ho (hr _)

theorem leads_undo (h : o.Stands Calm a b w) (ho : o.Undisturbed m n x Calm) {s : Routes}
    (hs : s = w.routed o.dispatcher .undo) :
    (dispatchUndo (inner n) o.dispatcher).Leads w
      (fun _ ↦ o.Stands Calm (o.edited a s.journal) (o.visited b s.timeline))
      (fun _ ↦ o.Stands Calm (o.edited a s.journal) (o.visited b s.timeline)) False := by
  subst hs
  rw [leads_dispatchUndo]
  simp only [World.routed]
  cases (w.abilities o.dispatcher).1 with
  | false => exact h
  | true => exact h.leads_forward ho (r := .undo) (fun _ ↦ trivial) rfl

theorem leads_redo (h : o.Stands Calm a b w) (ho : o.Undisturbed m n x Calm) {s : Routes}
    (hs : s = w.routed o.dispatcher .redo) :
    (dispatchRedo (inner n) o.dispatcher).Leads w
      (fun _ ↦ o.Stands Calm (o.edited a s.journal) (o.visited b s.timeline))
      (fun _ ↦ o.Stands Calm (o.edited a s.journal) (o.visited b s.timeline)) False := by
  subst hs
  rw [leads_dispatchRedo]
  simp only [World.routed]
  cases (w.abilities o.dispatcher).2 with
  | false => exact h
  | true => exact h.leads_forward ho (r := .redo) (fun _ ↦ trivial) rfl

/-- An errand makes of each tally what is asked of its history. -/
theorem leads_errand (h : o.Stands Calm a b w) (ho : o.Undisturbed m n x Calm) {e : Errand}
    (he : e.Of o) {s : Routes} (hs : s = w.routed o.dispatcher e) :
    (e.run (inner n) o).Leads w
      (fun _ ↦ o.Stands Calm (o.edited a s.journal) (o.visited b s.timeline))
      (fun _ ↦ o.Stands Calm (o.edited a s.journal) (o.visited b s.timeline)) False := by
  cases e with
  | commit i =>
    subst hs
    show (journalHost (inner n) (w.dispatcher o.dispatcher).journal |>.add i).Leads w _ _ _
    rw [(h.dispatcher_eq ho).1]
    exact h.leads_journal ho (r := .add i) he
  | undo => exact Run.leads_bind.2 (h.leads_undo ho hs)
  | redo => exact Run.leads_bind.2 (h.leads_redo ho hs)
  | shortcut key =>
    refine Run.leads_bind.2 (leads_shortcut.2 ?_)
    simp only [World.routed] at hs
    split
    · rename_i hk
      rw [if_pos hk] at hs
      exact h.leads_undo ho hs
    · rename_i hk
      rw [if_neg hk] at hs
      split
      · rename_i hk
        rw [if_pos hk] at hs
        exact h.leads_redo ho hs
      · rename_i hk
        rw [if_neg hk] at hs
        subst hs
        exact h
  | setMode mode =>
    subst hs
    refine (ho.setMode_keeps mode w h.toAt).mono (fun _ v hv ↦ ?_) (fun _ v hv ↦ ?_)
    · exact ⟨hv, h.done, h.seen⟩
    · exact ⟨hv, h.done, h.seen⟩
  | journal r =>
    subst hs
    exact h.leads_journal ho he
  | timeline r =>
    subst hs
    exact h.leads_timeline ho he

end Stands

/-- The worlds that errands lead to, with what the histories have been asked in them, whether an
errand fails or not. -/
inductive Served (o : Office) (n : Nat) : Routes → World → Prop where
  | start : Served o n {} o.start
  | errand {s : Routes} {w w' : World} {e : Errand} (h : Served o n s w) (he : e.Of o)
      (hw : (e.run (inner n) o w).state? = some w') :
      Served o n (s ++ w.routed o.dispatcher e) w'

theorem Served.stands {s : Routes} (h : o.Served n s w) (ho : o.Undisturbed m n x Calm) :
    o.Stands Calm (o.edited ⟨o.start.journal o.journal, []⟩ s.journal)
      (o.visited ⟨o.start.timeline o.timeline, []⟩ s.timeline) w := by
  induction h with
  | start => exact ho.stands
  | errand _ he hw ih =>
    -- What has been asked before is behind both tallies, whatever the dispatcher drives now.
    have h := (ih.leads_errand ho he rfl).ended hw
    rw [Routes.journal_append, Routes.timeline_append]
    unfold edited visited at h ⊢
    rwa [List.foldl_append, List.foldl_append]

/-- Goes through errands, if each of them has an end. -/
def attend (o : Office) (n : Nat) (s : Routes × World) (es : List Errand) :
    Option (Routes × World) :=
  es.foldlM (fun (s, w) e ↦
    (e.run (inner n) o w).state?.map fun w' ↦ (s ++ w.routed o.dispatcher e, w')) s

theorem Served.attend {s s' : Routes} {es : List Errand} (h : o.Served n s w)
    (he : ∀ e ∈ es, e.Of o) (hw : o.attend n (s, w) es = some (s', w')) : o.Served n s' w' := by
  induction es generalizing s w with
  | nil =>
    cases hw
    exact h
  | cons e es ih =>
    obtain ⟨⟨t, v⟩, hv, hw⟩ := Option.bind_eq_some_iff.1 ((List.foldlM_cons ..).symm.trans hw)
    obtain ⟨u, hu, hv⟩ := Option.map_eq_some_iff.1 hv
    cases hv
    exact ih (.errand h (he e List.mem_cons_self) hu) (fun e' he' ↦ he e' (.tail e he')) hw

end Office

end Rewind.Session
