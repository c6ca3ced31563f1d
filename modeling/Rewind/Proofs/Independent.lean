import Rewind.Proofs.Office

namespace Rewind.Session

namespace Office

variable {o : Office} {w w' : World} {Calm : World → Prop} {m n x : Nat}
  {a : Tally (Journal Nat) Nat} {b : Tally (Timeline Nat) Nat}

/-- Those around a history of an office if it stood by itself. -/
def crowd {ε ν : Type} (o : Office) (c : Crew) : Cast ε Nat ν :=
  .alone (o.ends c) o.start.describe o.start.sameItem

theorem Stands.agree {a' : Tally (Journal Nat) Nat} {b' : Tally (Timeline Nat) Nat}
    (h : o.Stands Calm a b w) (h' : o.Stands Calm a' b' w') :
    (a' = a → w'.journal o.journal = w.journal o.journal ∧
      w'.calls o.edits.heeds = w.calls o.edits.heeds) ∧
    (b' = b → w'.timeline o.timeline = w.timeline o.timeline ∧
      w'.calls o.states.heeds = w.calls o.states.heeds) := by
  constructor
  · rintro rfl
    exact ⟨h'.journal.trans h.journal.symm, h'.edits.trans h.edits.symm⟩
  · rintro rfl
    exact ⟨h'.timeline.trans h.timeline.symm, h'.states.trans h.states.symm⟩

end Office

section Independent

variable {o : Office} {w : World} {Calm : World → Prop} {m n x : Nat}

/-- The histories of a dispatcher do not depend on each other. However errands alternate between
them, whether they fail or not: each history has become, and has called, what it would have if it
stood by itself and was asked nothing but what has reached it. So in any two runs in which a history
is asked the same it becomes the same and calls the same. -/
theorem histories_independent (ho : o.Undisturbed m n x Calm) {s : Routes} (h : o.Served n s w) :
    (∃ u, (Script.all s.journal).play (Journal.engine.serve (o.crowd o.edits) 1)
        ⟨o.start.journal o.journal, []⟩ = .returned () u ∧
      w.journal o.journal = u.history ∧ w.calls o.edits.heeds = o.trace o.edits u.calls) ∧
    (∃ u, (Script.all s.timeline).play (Timeline.engine.serve (o.crowd o.states) 1)
        ⟨o.start.timeline o.timeline, []⟩ = .returned () u ∧
      w.timeline o.timeline = u.history ∧ w.calls o.states.heeds = o.trace o.states u.calls) ∧
    (∀ e : Errand, e.Of o → ∃ w', (e.run (inner n) o w).state? = some w') ∧
    ∀ s' w', o.Served n s' w' →
      (s'.journal = s.journal → w'.journal o.journal = w.journal o.journal ∧
        w'.calls o.edits.heeds = w.calls o.edits.heeds) ∧
      (s'.timeline = s.timeline → w'.timeline o.timeline = w.timeline o.timeline ∧
        w'.calls o.states.heeds = w.calls o.states.heeds) := by
  have hw := h.stands ho
  refine ⟨?_, ?_, fun e he ↦ ?_, fun s' w' h' ↦ ?_⟩
  · obtain ⟨u, hu, hc⟩ := Journal.exists_played_alone 0 s.journal (o.start.journal o.journal)
    exact ⟨u, hu, hw.journal.trans hc.1.symm, by rw [hw.edits, hc.2]; rfl⟩
  · obtain ⟨u, hu, hc⟩ := Timeline.exists_played_alone 0 s.timeline (o.start.timeline o.timeline)
    exact ⟨u, hu, hw.timeline.trans hc.1.symm, by rw [hw.states, hc.2]; rfl⟩
  · obtain ⟨w', hw', -⟩ := (hw.leads_errand ho he rfl).exists_ended
    exact ⟨w', hw'⟩
  · have hagree := hw.agree (h'.stands ho)
    exact ⟨fun hs ↦ hagree.1 (by rw [hs]), fun hs ↦ hagree.2 (by rw [hs])⟩

end Independent

/-- The fault of steps that do nothing but fail, if they do that. -/
def failure? : List Step → Option (Option Fault)
  | [] => some none
  | [.fail message] => some (some (.scripted message))
  | _ => none

/-- Under which name an item is called that does nothing but fail, if it does that, and its
fault. -/
def Item.blunt? : Way → Item → Option (Text × Option Fault)
  | .undo, .edit e => if e.times.isNone then (failure? e.undo).map (e.name, ·) else none
  | .redo, .edit e => if e.times.isNone then (failure? e.redo).map (e.name, ·) else none
  | .restore, .state s => if s.times.isNone then (failure? s.restore).map (s.name, ·) else none
  | _, _ => none

/-- Some of the items, which do nothing but fail. -/
def Crew.blunt (items : List Item) (members : List Nat) (names : List Text) : Crew where
  items i := i ∈ members
  heeds name := names.contains name
  does _ way i :=
    match items[i]?.bind (Item.blunt? way) with
    | some (name, fault) => ([(name, way)], fault)
    | none => ([], none)

section Blunt

variable {o : Office} {w : World} {n i : Nat} {way : Way} {item : Item}

theorem Item.blunt_gist (item : Item) (way : Way) : item.gist.blunt? way = item.blunt? way := by
  cases item <;> cases way <;> rfl

theorem leads_failure {steps : List Step} {fault : Option Fault} (h : failure? steps = some fault) :
    (nested (inner n) steps).Leads w (fun _ v ↦ fault = none ∧ v = w)
      (fun e v ↦ fault = some e ∧ v = w) False := by
  match steps, h with
  | [], rfl => exact ⟨rfl, rfl⟩
  | [.fail message], rfl => exact ⟨rfl, rfl⟩

/-- An item that does nothing but fail only leaves behind that it has been called. -/
theorem leads_call_blunt (hi : w.items[i]? = some item) {name : Text} {fault : Option Fault}
    (hb : item.blunt? way = some (name, fault)) :
    ((inner (n + 2)).call way i).Leads w
      (fun _ v ↦ fault = none ∧ ∃ items, v = { w.addEvent (.called name way) with items })
      (fun e v ↦ fault = some e ∧ ∃ items, v = { w.addEvent (.called name way) with items })
      False := by
  show (callItem (inner (n + 1)) way i).Leads w _ _ _
  unfold callItem
  rw [Run.leads_bind, Run.leads_get, hi]
  cases item <;> cases way <;> simp only [Item.blunt?, reduceCtorEq] at hb
  all_goals
    split at hb
    · rename_i ht
      obtain ⟨fault', hf, he⟩ := Option.map_eq_some_iff.1 hb
      obtain ⟨rfl, rfl⟩ := Prod.mk.inj he
      rw [Option.isNone_iff_eq_none] at ht
      simp only [Session.happen, Run.leads_bind, Run.leads_modify, ht, within, Option.all_none,
        if_true]
      refine (leads_failure hf).mono (fun _ v hv ↦ ⟨hv.1, _, hv.2⟩) (fun _ v hv ↦ ⟨hv.1, _, hv.2⟩)
    · cases hb

/-- Whether some items do nothing but fail when called in a way, under names that one crew heeds and
another does not. -/
def bluntly (items : List Item) (members : List Nat) (names others : List Text) (way : Way) :
    Bool :=
  members.all fun i ↦ (items[i]?.bind (Item.blunt? way)).any fun e ↦
    names.contains e.1 && !others.contains e.1

theorem exists_blunt {items : List Item} {members : List Nat} {names others : List Text}
    (hb : bluntly items members names others way = true) (hi : i ∈ members) :
    ∃ item name fault, items[i]? = some item ∧ item.blunt? way = some (name, fault) ∧
      names.contains name = true ∧ others.contains name = false := by
  obtain ⟨⟨name, fault⟩, hblunt, hnames⟩ :=
    (Option.any_eq_true _ _).1 (List.all_eq_true.1 hb i hi)
  obtain ⟨hown, hother⟩ := Bool.and_eq_true_iff.1 hnames
  obtain ⟨item, hitem, hcall⟩ := Option.bind_eq_some_iff.1 hblunt
  exact ⟨item, name, fault, hitem, hcall, hown, by simpa using hother⟩

theorem blunt_serves {items : List Item} {members members' : List Nat} {names others : List Text}
    (hfit : ∀ items called called', o.fit items called called') (hi : o.start.items = items)
    (hb : bluntly items members names others way) :
    o.Serves (n + 2) (fun w ↦ w.links.all fun l ↦ l.slot.failing)
      (.blunt items members names) (.blunt items members' others) way := by
  intro w i hg hc _ hm
  obtain ⟨item, name, fault, hitem, hcall, hown, hother⟩ := exists_blunt hb hm
  have hblunt : items[i]?.bind (Item.blunt? way) = some (name, fault) := by
    rw [hitem, Option.bind_some, hcall]
  obtain ⟨item', hitem', hgist⟩ := hg.item (hi ▸ hitem)
  have hcall' : item'.blunt? way = some (name, fault) := by
    rw [← item'.blunt_gist, hgist, item.blunt_gist, hcall]
  have hdoes (called : List (Text × Way)) :
      (Crew.blunt items members names).does called way i = ([(name, way)], fault) := by
    simp only [Crew.blunt, hblunt]
  have hdone (items' : List Item) : o.Done (fun w ↦ w.links.all fun l ↦ l.slot.failing)
      (.blunt items members names) (.blunt items members' others) way i w
      { w.addEvent (.called name way) with items := items' } := by
    refine ⟨rfl, rfl, ?_, ?_, hfit _ _ _, hc⟩
    · refine (World.calls_called name way).trans ?_
      rw [hdoes, if_pos (show (Crew.blunt items members names).heeds name = true from hown)]
    · refine (World.calls_called name way).trans ?_
      have hnot : others.contains name = false := by simpa using hother
      rw [show (Crew.blunt items members' others).heeds name = false from hnot]
      exact List.append_nil _
  refine (leads_call_blunt hitem' hcall').mono (fun _ v hv ↦ ?_) (fun e v hv ↦ ?_)
  · obtain ⟨hfault, items', rfl⟩ := hv
    exact ⟨(congrArg Prod.snd (hdoes _)).trans hfault, hdone items'⟩
  · obtain ⟨hfault, items', rfl⟩ := hv
    exact ⟨(congrArg Prod.snd (hdoes _)).trans hfault, hdone items'⟩

/-- With items that do nothing but fail, and listeners that do too, an office is undisturbed. -/
theorem Office.undisturbed_blunt {members members' : List Nat} {names names' : List Text}
    (hs : Reached o.start) (hh : o.start.histories[o.dispatcher]? = some (o.journal, o.timeline))
    (hc : o.start.links.all fun l ↦ l.slot.failing)
    (hfit : ∀ items called called', o.fit items called called')
    (hedits : o.edits = .blunt o.start.items members names)
    (hstates : o.states = .blunt o.start.items members' names')
    (hj : (o.start.journal o.journal).entries = [])
    (ht : (o.start.timeline o.timeline).entries = [])
    (hundo : bluntly o.start.items members names names' .undo = true)
    (hredo : bluntly o.start.items members names names' .redo = true)
    (hrestore : bluntly o.start.items members' names' names .restore = true) :
    o.Undisturbed 0 5 0 fun w ↦ w.links.all fun l ↦ l.slot.failing where
  reached := hs
  histories := hh
  calm := hc
  fits := hfit _ _ _
  edits i hi := by
    rw [hedits] at hi
    obtain ⟨item, name, fault, hitem, hcall, -⟩ := exists_blunt hundo hi
    refine ⟨item, hitem, ?_⟩
    cases item <;> first | rfl | cases hcall
  states i hi := by
    rw [hstates] at hi
    obtain ⟨item, name, fault, hitem, -⟩ := exists_blunt hrestore hi
    exact (List.getElem?_eq_some_iff.1 hitem).1
  done i hi := absurd (hj ▸ hi) List.not_mem_nil
  seen i hi := absurd (ht ▸ hi) List.not_mem_nil
  undo := hedits ▸ hstates ▸ blunt_serves hfit rfl hundo
  redo := hedits ▸ hstates ▸ blunt_serves hfit rfl hredo
  restore := hedits ▸ hstates ▸ blunt_serves hfit rfl hrestore
  bystanders := bystanders_failing o.journal 0 apart_framing.refl
  room := by decide

end Blunt

/-- A dispatcher with room for two edits, edits and states of which some always fail, and a listener
that does too. -/
def World.bureau : World :=
  (World.after {} 1 [.newDispatcher "desk" (.given [("max_command_history", .int 2)]),
    .edit "plain" (.text "plain") none [] [] none,
    .edit "stuck" (.text "stuck") none [.fail (.text "no")] [] none,
    .state "first" (.int 1) (.text "first") none [] none,
    .state "lost" (.int 2) (.text "lost") none [.fail (.text "no")] none,
    .state "last" (.int 3) (.text "last") none [] none,
    .listen "desk" "state_changed" [.fail .null] none]).get (by decide +kernel)

theorem World.reached_bureau : Reached bureau := .after (.start false) (Option.some_get _).symm

def Office.bureau : Office where
  dispatcher := 0
  journal := 0
  timeline := 0
  edits := .blunt World.bureau.items [0, 1] ["plain", "stuck"]
  states := .blunt World.bureau.items [2, 3, 4] ["first", "lost", "last"]
  fit _ _ _ := True
  start := World.bureau

theorem Office.undisturbed_bureau : bureau.Undisturbed 0 5 0
    fun w ↦ w.links.all fun l ↦ l.slot.failing := by
  refine undisturbed_blunt World.reached_bureau ?_ ?_ (fun _ _ _ ↦ trivial) rfl rfl rfl rfl ?_ ?_ ?_
  all_goals decide +kernel

/-- The journal is asked the same while the timeline is driven in between and while it is left
alone. An edit that fails when it is undone stays in effect in both. -/
theorem histories_independent_of_mode :
    let o := Office.bureau
    let es : List Errand := [.commit 0, .timeline (.add 2), .commit 1, .undo,
      .setMode (.text "snapshots"), .timeline (.add 3), .setMode (.text "none"),
      .timeline (.add 4), .shortcut (.text "UNDO"), .journal .undo, .setMode (.text "commands"),
      .redo, .journal (.setEnabled (.bool false)), .commit 0]
    let es' : List Errand := [.commit 0, .journal (.add 1), .shortcut (.text "UNDO"), .undo,
      .journal (.setEnabled (.bool false)), .commit 0]
    let called : List (Text × Way) := [("stuck", .undo), ("stuck", .undo)]
    ∃ s s' w w' u, o.attend 5 ({}, o.start) es = some (s, w) ∧
      o.attend 5 ({}, o.start) es' = some (s', w') ∧ s.journal = s'.journal ∧
      s.timeline = [.add 2, .add 3, .add 4, .undo] ∧ s'.timeline = [] ∧
      w.calls o.edits.heeds = called ∧
      w'.journal 0 = w.journal 0 ∧ w'.calls o.edits.heeds = w.calls o.edits.heeds ∧
      (Script.all s.journal).play (Journal.engine.serve (o.crowd o.edits) 1)
        ⟨o.start.journal 0, []⟩ = .returned () u ∧ w.journal 0 = u.history := by
  intro o es es' called
  have hone : ∀ e ∈ es, e.Of o := by
    simp [es, o, Errand.Of, Request.Of, Office.bureau, Crew.blunt]
  have hother : ∀ e ∈ es', e.Of o := by
    simp [es', o, Errand.Of, Request.Of, Office.bureau, Crew.blunt]
  have hseen : (o.attend 5 ({}, o.start) es).map (fun t ↦ (t.1, t.2.calls o.edits.heeds)) =
      some (⟨[.add 0, .add 1, .undo, .undo, .setEnabled (.bool false), .add 0],
        [.add 2, .add 3, .add 4, .undo]⟩, called) := by
    decide +kernel
  have hseen' : (o.attend 5 ({}, o.start) es').map (·.1) = some ⟨[.add 0, .add 1, .undo, .undo,
      .setEnabled (.bool false), .add 0], []⟩ := by decide +kernel
  obtain ⟨⟨s, w⟩, hw, hs⟩ := Option.map_eq_some_iff.1 hseen
  obtain ⟨⟨s', w'⟩, hw', rfl⟩ := Option.map_eq_some_iff.1 hseen'
  obtain ⟨rfl, hcalls⟩ := Prod.mk.inj hs
  have h := Office.Served.start.attend hone hw
  have h' := Office.Served.start.attend hother hw'
  obtain ⟨⟨u, hu, hj, -⟩, -, -, hagree⟩ := histories_independent Office.undisturbed_bureau h
  obtain ⟨hsame, hcalled⟩ := (hagree _ w' h').1 rfl
  exact ⟨_, _, w, w', u, hw, hw', rfl, rfl, rfl, hcalls, hsame, hcalled, hu, hj⟩

end Rewind.Session
