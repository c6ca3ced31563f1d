import Rewind.Proofs.Dues
import Rewind.Proofs.Telling

namespace Rewind.Session

variable {b : Inner} {w : World} {r : Herald} {due : List Object} {size : Nat}

/-- What tells of a dispatcher is the first to be told. -/
theorem InPlace.exists_due (h : InPlace w) {l : Link} (hl : l ∈ w.links) (ht : l.tells = true) :
    ∃ rest, (w.links.filter fun m ↦ m.source = l.source ∧ m.signal = l.signal) = l :: rest := by
  have hm : l ∈ w.links.filter fun m ↦ m.source = l.source ∧ m.signal = l.signal := by
    rw [List.mem_filter, decide_eq_true_eq]
    exact ⟨hl, rfl, rfl⟩
  have hf : (w.links.filter fun m ↦ m.source = l.source ∧ m.signal = l.signal).Pairwise _ :=
    h.wired.first.sublist List.filter_sublist
  cases hd : w.links.filter fun m ↦ m.source = l.source ∧ m.signal = l.signal with
  | nil =>
    rw [hd] at hm
    cases hm
  | cons first rest =>
    have hfirst := List.mem_filter.1 (hd ▸ List.mem_cons_self : first ∈ w.links.filter _)
    rw [decide_eq_true_eq] at hfirst
    rw [hd] at hm hf
    rcases List.mem_cons.1 hm with rfl | hm
    · exact ⟨rest, rfl⟩
    · have hn := (List.pairwise_cons.1 hf).1 l hm hfirst.2.1 hfirst.2.2
      cases ht.symm.trans hn

/-- What those who are told first bring about, the others keep. -/
theorem leads_announce_first {I : World → Prop} (h : InPlace w) {l : Link} (hl : l ∈ w.links)
    (ht : l.tells = true) (arguments : List Answer)
    (he : ∀ w e, I w → I (w.addEvent (.slotFailed e)))
    (hfirst : (b.fire l.number l.signal l.slot arguments).Leads w (fun _ ↦ I) (fun _ ↦ I) True)
    (hothers : ∀ m : Link, (b.fire m.number l.signal m.slot arguments).Keeps I) :
    (announce b l.source l.signal arguments).Leads w (fun _ ↦ I) (fun _ _ ↦ False) True := by
  obtain ⟨rest, hdue⟩ := h.exists_due hl ht
  rw [leads_announce_eq, hdue]
  have hnotify := leads_notify_of he
    (fun hn ↦ absurd (World.isConnected_of_mem hl) (Bool.not_eq_true _ ▸ hn)) hfirst
  refine Run.leads_bind.2 (hnotify.mono (fun _ t ht ↦ ?_) fun _ _ ht ↦ ht)
  exact Run.leads_each ht fun m _ v hv ↦ leads_notify he hv (hothers m)

/-- What is done one level deeper leaves what is told of a dispatcher true. Its record makes it
true, and so does what relays the changes of the history that it drives. -/
structure Inner.Spreads (b : Inner) (r : Herald) : Prop where
  upholds : ∀ due size, b.Upholds .tame (r.Tells due size)
  record : ∀ {due size w l} due' arguments, r.Tells due size w → l ∈ w.links →
    l.source = .dispatcher r.dispatcher → l.signal = .stateChanged → l.slot = .record r.name →
    (b.fire l.number l.signal l.slot arguments).Leads w (fun _ ↦ r.Tells due' size)
      (fun _ ↦ r.Tells due' size) True
  relay : ∀ {due size w l mode} arguments, r.Tells (l.source :: due) size w → l ∈ w.links →
    l.slot = .relay r.dispatcher mode →
    (b.fire l.number l.signal l.slot arguments).Leads w (fun _ ↦ r.Tells due size)
      (fun _ ↦ r.Tells due size) True

namespace Inner.Spreads

variable (hb : b.Spreads r)

include hb

theorem announceAbilities (due' : List Object) (h : r.Tells due size w) :
    (announceAbilities b r.dispatcher).Leads w (fun _ ↦ r.Tells due' size) (fun _ _ ↦ False)
      True := by
  obtain ⟨l, hl, hsource, hsignal, hslot⟩ := h.recorded
  have ht : l.tells = true := by
    rw [Link.tells, hslot, hsignal]
    rfl
  unfold Session.announceAbilities
  rw [Run.leads_bind, Run.leads_get, ← hsource, ← hsignal]
  exact leads_announce_first h.orderly.inPlace hl ht _
    (fun _ _ hv ↦ (upheld_tells r due' size).event hv rfl)
    (hb.record due' _ h hl hsource hsignal hslot) fun _ ↦ (hb.upholds due' size).fire _ _ _ _

/-- When a history has announced its change, what is told of the dispatcher is true whether it
drives that history or not. -/
theorem announced {o : Object} (arguments : List Answer) (h : r.Tells (o :: due) size w) :
    (announce b o .historyChanged arguments).Leads w (fun _ ↦ r.Tells due size)
      (fun _ _ ↦ False) True := by
  by_cases ho : w.driven r.dispatcher = o
  · obtain ⟨mode, -, hd⟩ := h.exists_driven
    obtain ⟨l, hl, hslot⟩ := h.relayed mode
    obtain ⟨hsignal, p, hp, hsource⟩ := h.orderly.inPlace.wired.relayed l hl _ mode hslot
    cases hp.symm.trans h.histories
    obtain rfl : l.source = o := (hsource.trans hd.symm).trans ho
    have ht : l.tells = true := by
      rw [Link.tells, hslot]
      rfl
    rw [← hsignal]
    exact leads_announce_first h.orderly.inPlace hl ht _
      (fun _ _ hv ↦ (upheld_tells r due size).event hv rfl) (hb.relay _ h hl hslot)
      fun _ ↦ (hb.upholds due size).fire _ _ _ _
  · exact (upheld_tells r due size).announces (hb.upholds due size) (h.of_driven_ne ho) _ _ _

theorem dues : Dues b r.Tells where
  upheld := upheld_tells r
  upholds := hb.upholds
  orderly h := h.orderly
  mono h hd hs := h.mono hd hs
  journal h hd ho hc := h.journal hd ho hc
  timeline h hd ho hl hc := h.timeline hd ho hl hc
  unbound {_ _ w k} h hn := by
    refine h.of_driven_ne fun hd ↦ ?_
    have hk : k = r.timeline := by
      rw [h.driven_eq] at hd
      split at hd
      · exact (Object.timeline.inj hd).symm
      · cases hd
    have hl := h.limit
    rw [← hk, hn] at hl
    cases hl
  muted h hn := { h with fresh := fun hd ↦ absurd hd hn }
  announced := hb.announced

theorem setMode (k : Nat) (value : Value) : (setMode b k value).Keeps (r.Tells due size) := by
  by_cases hk : k = r.dispatcher
  · subst hk
    intro w h
    unfold Session.setMode
    cases Mode.ofValue? value with
    | none => exact h
    | some mode =>
      rw [Run.leads_bind, Run.leads_get]
      dsimp only
      split
      · exact h
      · rw [Run.leads_bind, Run.leads_modify, Run.leads_bind]
        -- Those who hear of the mode may do anything; what is told after that is the truth.
        have hlog := (upheld_tells r _ size).log ("History mode set to " ++ mode.text) _
          (h.setMode mode)
        refine Run.leads_bind.2 (((upheld_tells r _ size).announces (hb.upholds _ size) hlog
          (.dispatcher r.dispatcher) .modeChanged [.value (.text mode.text)]).mono
            (fun _ t ht ↦ ?_) fun _ _ ht ↦ ht.elim)
        exact (hb.announceAbilities due ht).mono (fun _ _ ht ↦ ht) fun _ _ ht ↦ ht.elim
  · exact (upheld_tells r due size).setMode (hb.upholds due size) k
      (fun mode h ↦ h.setMode_other hk mode) value

theorem histories (due : List Object) (size : Nat) : Histories .tame (r.Tells due size) b :=
  hb.dues.histories due size hb.setMode

theorem tellTruly {l : Link} (h : r.Tells due size w) (hl : l ∈ w.links) :
    (tellTruly b l).Leads w (fun _ ↦ r.Tells due size) (fun _ ↦ r.Tells due size) True := by
  unfold Session.tellTruly
  rw [Run.leads_bind, Run.leads_get]
  split
  · split
    · rw [Session.announceAbilities, Run.leads_bind, Run.leads_get]
      exact (upheld_tells r due size).announce (hb.upholds due size) _ _ _ w h
    · exact h
  · rename_i name hslot
    split
    · rename_i k hsource hsignal
      exact h.announced hl hsource hsignal hslot
    · exact h
  · exact h

theorem candidSlot (due : List Object) (size number : Nat) (signal : Signal) (slot : Slot)
    (arguments : List Answer) :
    (candidSlot b number signal slot arguments).Keeps (r.Tells due size) := by
  cases ht : slot.tells signal with
  | false =>
    rw [candidSlot_of_not_tells ht]
    refine (upheld_tells r due size).fireSlot (hb.upholds due size) (hb.histories due size) _ _ _ _
      fun name hs ↦ (upheld_tells r due size).happen ?_
    subst hs
    cases signal with
    | stateChanged => cases ht
    | commandAdded | undoPerformed | redoPerformed | stateAdded | stateRestored | historyChanged
    | modeChanged | selectionChanged | resetBegun | resetDone => rfl
  | true =>
    intro w h
    unfold Session.candidSlot
    rw [if_pos ht, Run.leads_bind, Run.leads_get]
    split
    · rename_i l hl
      exact hb.tellTruly h (List.mem_of_find?_eq_some hl)
    · exact h

/-- A relay that is not heeded belongs to the history that the dispatcher does not drive. -/
theorem tellTruly_relay {l : Link} {mode : Mode} (h : r.Tells (l.source :: due) size w)
    (hl : l ∈ w.links) (hslot : l.slot = .relay r.dispatcher mode) :
    (Session.tellTruly b l).Leads w (fun _ ↦ r.Tells due size) (fun _ ↦ r.Tells due size)
      True := by
  unfold Session.tellTruly
  rw [Run.leads_bind, Run.leads_get, hslot]
  dsimp only
  split
  · exact (hb.announceAbilities due h).mono (fun _ _ ht ↦ ht) fun _ _ ht ↦ ht.elim
  · rename_i hn
    refine h.of_driven_ne fun hd ↦ hn ⟨?_, hd.symm⟩
    obtain ⟨mode', hm, hd'⟩ := h.exists_driven
    obtain ⟨-, p, hp, hsource⟩ := h.orderly.inPlace.wired.relayed l hl _ mode hslot
    cases hp.symm.trans h.histories
    rw [hm, Value.same_text]
    cases mode <;> cases mode' <;> first | rfl | cases hsource.symm.trans (hd.symm.trans hd')

end Inner.Spreads

theorem candid_spreads (r : Herald) (n : Nat) : (candid n).Spreads r := by
  induction n with
  | zero =>
    exact ⟨fun _ _ ↦ ⟨fun _ _ ↦ .raise _, fun _ _ ↦ .raise _, fun _ _ _ _ _ _ ↦ trivial⟩,
      fun _ _ _ _ _ _ _ ↦ trivial, fun _ _ _ _ ↦ trivial⟩
  | succ n ih =>
    refine ⟨fun due size ↦ ?_, fun {due size w l} due' arguments h hl hsource hsignal hslot ↦ ?_,
      fun {due size w l mode} arguments h hl hslot ↦ ?_⟩
    · have hu := upheld_tells r due size
      exact ⟨fun _ hs ↦ hu.nested (ih.upholds due size) (ih.histories due size) hs,
        hu.callItem (ih.upholds due size), ih.candidSlot due size⟩
    · have ht : l.tells = true := by
        rw [Link.tells, hslot, hsignal]
        rfl
      show (candidSlot (candid n) l.number l.signal l.slot arguments).Leads w _ _ True
      unfold Run.Leads
      rw [candidSlot_of_tells h.sound hl ht]
      show (tellTruly (candid n) l).Leads w _ _ True
      unfold tellTruly
      rw [Run.leads_bind, Run.leads_get, hslot, hsource, hsignal]
      exact h.told due' fun _ ↦ rfl
    · have ht : l.tells = true := by
        rw [Link.tells, hslot]
        rfl
      show (candidSlot (candid n) l.number l.signal l.slot arguments).Leads w _ _ True
      unfold Run.Leads
      rw [candidSlot_of_tells h.sound hl ht]
      exact ih.tellTruly_relay h hl hslot

namespace Herald.Tells

variable {w' : World} {n : Nat}

theorem perform (h : r.Tells due size w) {step : Step} (ht : step.isTame = true)
    (hs : (perform (inner n) step w).state? = some w') : r.Tells due size w' := by
  rw [perform_candid h.orderly.inPlace] at hs
  have hb := candid_spreads r n
  exact ((upheld_tells r due size).perform (hb.upholds due size) (hb.histories due size) ht w
    h).ended hs

theorem after {steps : List Step} (h : r.Tells due size w) (ht : Step.allTame steps = true)
    (hs : w.after n steps = some w') : r.Tells due size w' := by
  induction steps generalizing w with
  | nil =>
    cases hs
    exact h
  | cons step steps ih =>
    rw [Step.allTame, Bool.and_eq_true] at ht
    obtain ⟨v, hv, hs⟩ := Option.bind_eq_some_iff.1 ((List.foldlM_cons ..).symm.trans hs)
    exact ih (h.perform ht.1 hv) ht.2 hs

end Herald.Tells

namespace World

/-- The next dispatcher, under a name. -/
def nextHerald (w : World) (name : Text) : Herald :=
  ⟨name, w.dispatchers.length, w.journals.length, w.timelines.length⟩

theorem lastNews_of_quiet {name : Text} (h : ∀ e ∈ w.events, e.news? name = none) :
    w.lastNews name = [.bool false, .bool false] := by
  rw [lastNews, List.findSome?_eq_none_iff.2 h]
  rfl

/-- Whatever mode a new dispatcher is in, there is nothing that it can undo or redo. -/
theorem tidings_withDispatcher (w : World) (name : Text) {s : Settings Value} {mode : Mode}
    (hm : s.mode = .text mode.text) :
    (w.withDispatcher name s).tidings (.dispatcher w.dispatchers.length) =
      [.bool false, .bool false] := by
  rw [← tidings_driven, driven_eq (w.histories_withDispatcher name s)
    (Value.same_text.2 ((w.mode_withDispatcher name s).trans hm))]
  cases mode with
  | commands =>
    unfold Object.history tidings
    dsimp only
    rw [journal_withDispatcher]
    rfl
  | snapshots =>
    unfold Object.history tidings
    dsimp only
    rw [timeline_withDispatcher]
    rfl

end World

theorem Orderly.tells_withDispatcher (h : Orderly 0 w) {name : Text}
    {source : Settings.Source Value} {s : Settings Value} {mode : Mode}
    (hs : source.settings id = .ok s) (ht : (Step.newDispatcher name source).isTame = true)
    (hm : s.mode = .text mode.text) (hl : s.snapshotLimit.bound?.isSome = true)
    (hquiet : ∀ e ∈ w.events, e.news? name = none) :
    (w.nextHerald name).Tells [] 0 (w.withDispatcher name s) := by
  refine ⟨(upheld_orderly 0).dispatcher name h ht hs, w.histories_withDispatcher name s,
    ⟨mode, (w.mode_withDispatcher name s).trans hm⟩, ?_, w.exists_relay name s,
    w.exists_record name s, fun _ _ _ ↦ ?_⟩
  · show ((w.withDispatcher name s).timeline w.timelines.length).limit.bound?.isSome = true
    rw [w.timeline_withDispatcher]
    exact hl
  · have hevents : (w.withDispatcher name s).events = w.events := by
      obtain ⟨links, linkCount, objects, he, -⟩ := w.exists_withDispatcher name s
      rw [he]
      rfl
    exact (World.lastNews_of_quiet (hevents ▸ hquiet)).trans
      (w.tidings_withDispatcher name hm).symm

/-- Whatever is done to a dispatcher and its histories, and however deep that nests, what was last
told of the dispatcher is what it can do, as long as all items can be described. Whatever tells of
it tells what is true at that moment, and nothing when the history that has changed is not the one
that it drives: a session would go the same way if that were looked up each time. -/
theorem abilities_announced {v : World} (hv : ReachedTamely v) {name : Text}
    {source : Settings.Source Value} {s : Settings Value} (hs : source.settings id = .ok s)
    (hmode : (Mode.ofValue? s.mode).isSome = true)
    (hcommands : s.commandLimit.bound?.isSome = true)
    (hsnapshots : s.snapshotLimit.bound?.isSome = true)
    (hquiet : ∀ e ∈ v.events, e.news? name = none) {n : Nat} {steps : List Step}
    (ht : Step.allTame steps = true)
    (hw : v.after n (.newDispatcher name source :: steps) = some w)
    (hr : w.RecordsOnly name v.dispatchers.length) :
    (w.Described → w.lastNews name = w.tidings (.dispatcher v.dispatchers.length)) ∧
      ∀ n step, perform (inner n) step w = perform (candid n) step w := by
  obtain ⟨mode, hmode⟩ := Option.isSome_iff_exists.1 hmode
  have hm : s.mode = .text mode.text := by
    have hsame := List.find?_some hmode
    exact Value.same_text.1 hsame
  have htame : (Step.newDispatcher name source).isTame = true := by
    simp only [Step.isTame, hs, hcommands]
  obtain ⟨u, hu, hw⟩ := Option.bind_eq_some_iff.1 ((List.foldlM_cons ..).symm.trans hw)
  have hnew : perform (inner n) (.newDispatcher name source) v =
      .returned .nothing (v.withDispatcher name s) :=
    Run.bind_returned (World.newDispatcher_eq hs)
  rw [hnew] at hu
  cases hu
  have h := (hv.orderly.tells_withDispatcher hs htame hm hsnapshots hquiet).after ht hw
  exact ⟨fun hd ↦ h.fresh hd hr List.not_mem_nil,
    fun n step ↦ perform_candid h.orderly.inPlace n step⟩

/-- A dispatcher that records the changes of a selection. The code of an edit drives the other
history before it fails, and those who hear of the dispatcher clear that history, select something
else and fail. -/
def reentered : List Step :=
  [.newSelection "nodes" (.list []), .watch "desk" "nodes",
    .edit "cut" (.text "Cut") none
      [.setMode "desk" (.text "snapshots"), .select "nodes" (.list [.int 1]), .fail .null] [] none,
    .listen "desk" "state_changed"
      [.clear "desk.snapshots", .select "nodes" (.list [.int 2]), .fail .null] (some 1),
    .listen "desk.snapshots" "history_changed" [.attempt [.undo "desk"]] (some 4),
    .add "desk.commands" "cut", .undo "desk"]

theorem abilities_announced_reentered :
    ∃ w, World.after {} 12 (.newDispatcher "desk" (.given []) :: reentered) = some w ∧
      (w.dispatcher 0).mode = .text "snapshots" ∧
      w.lastNews "desk" = [.bool false, .bool true] ∧
      w.tidings (.dispatcher 0) = [.bool false, .bool true] ∧
      ∀ n step, perform (inner n) step w = perform (candid n) step w := by
  have hended : (World.after {} 12 (.newDispatcher "desk" (.given []) :: reentered)).any
      (fun w ↦ (w.dispatcher 0).mode = .text "snapshots" ∧
        w.tidings (.dispatcher 0) = [.bool false, .bool true] ∧ w.RecordsOnly "desk" 0 ∧
        w.Described) = true := by
    decide +kernel
  obtain ⟨w, hw, hseen⟩ := (Option.any_eq_true _ _).1 hended
  obtain ⟨hm, htidings, hr, hd⟩ := of_decide_eq_true hseen
  obtain ⟨hnews, hcandid⟩ := abilities_announced (.start false) (s := Settings.standard.map id) rfl
    (by decide +kernel) rfl rfl nofun (by decide +kernel) hw hr
  exact ⟨w, hw, hm, (hnews hd).trans htidings, htidings, hcandid⟩

end Rewind.Session
