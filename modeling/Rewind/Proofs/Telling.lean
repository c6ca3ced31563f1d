import Rewind.Proofs.Candour
import Rewind.Proofs.Orderly

namespace Rewind.Session

/-- What is told of a dispatcher, if that is what has happened under the name. -/
def Event.news? (name : Text) : Event → Option (List Answer)
  | .announced n .stateChanged arguments => if n = name then some arguments else none
  | _ => none

theorem Event.news?_eq_none {e : Event} (h : e.isNews = false) (name : Text) :
    e.news? name = none := by
  cases e with
  | announced n signal arguments =>
    cases signal with
    | stateChanged => cases h
    | commandAdded | undoPerformed | redoPerformed | stateAdded | stateRestored | historyChanged
    | modeChanged | selectionChanged | resetBegun | resetDone => rfl
  | called | answered | caught | slotFailed | logged => rfl

variable {w w' : World}

namespace World

/-- What was last told of a dispatcher under a name. Before that, there is nothing to undo and
nothing to redo. -/
def lastNews (w : World) (name : Text) : List Answer :=
  (w.events.findSome? (·.news? name)).getD [.bool false, .bool false]

/-- No other dispatcher is recorded under the name. -/
def RecordsOnly (w : World) (name : Text) (k : Nat) : Prop :=
  ∀ l ∈ w.links, l.slot = .record name → l.signal = .stateChanged → l.source = .dispatcher k

instance (slot : Slot) (name : Text) : Decidable (slot = .record name) :=
  match slot with
  | .record n => decidable_of_iff (n = name) (by simp)
  | .listen _ _ | .refresh _ | .relay _ _ | .capture _ => isFalse nofun

instance (w : World) (name : Text) (k : Nat) : Decidable (w.RecordsOnly name k) :=
  inferInstanceAs (Decidable (∀ l ∈ w.links, _ → _ → _))

theorem lastNews_addEvent {name : Text} {e : Event} (h : e.news? name = none) :
    (w.addEvent e).lastNews name = w.lastNews name := by
  simp [lastNews, addEvent, h]

theorem lastNews_announced (name : Text) (arguments : List Answer) :
    (w.addEvent (.announced name .stateChanged arguments)).lastNews name = arguments := by
  simp [lastNews, addEvent, Event.news?]

theorem mode_modify {k i : Nat} {f : Dispatcher → Dispatcher} (hf : ∀ d, (f d).mode = d.mode) :
    (World.dispatcher { w with dispatchers := w.dispatchers.modify i f } k).mode =
      (w.dispatcher k).mode := by
  rw [dispatcher, dispatcher, List.getD_eq_getElem?_getD, List.getD_eq_getElem?_getD,
    List.getElem?_modify]
  cases w.dispatchers[k]? with
  | none => rfl
  | some d =>
    show (if i = k then f d else d).mode = d.mode
    split
    · exact hf d
    · rfl

/-- What tells of a dispatcher records nothing of a selection. -/
theorem mem_unwatch_of_tells {l : Link} (hl : l ∈ w.links) (ht : l.tells = true) {k : Nat}
    {o : Object} : l ∈ (w.unwatch k o).links := by
  refine List.mem_filter.2 ⟨hl, ?_⟩
  cases hs : l.slot with
  | capture x =>
    rw [Link.tells, hs] at ht
    cases ht
  | record | listen | refresh | relay => rfl

end World

/-- A dispatcher with its histories, and the name that it is recorded under. -/
structure Herald where
  name : Text
  dispatcher : Nat
  journal : Nat
  timeline : Nat

/-- As long as all items can be described, what has last been told of the dispatcher is true, unless
the history that it drives is one of those whose changes are still to be announced. There are as
many items as given, or more. -/
structure Herald.Tells (r : Herald) (due : List Object) (size : Nat) (w : World) : Prop where
  orderly : Orderly size w
  histories : w.histories[r.dispatcher]? = some (r.journal, r.timeline)
  mode : ∃ mode : Mode, (w.dispatcher r.dispatcher).mode = .text mode.text
  limit : (w.timeline r.timeline).limit.bound?.isSome = true
  relayed : ∀ mode, ∃ l ∈ w.links, l.slot = .relay r.dispatcher mode
  recorded : ∃ l ∈ w.links, l.source = .dispatcher r.dispatcher ∧ l.signal = .stateChanged ∧
    l.slot = .record r.name
  fresh : w.Described → w.RecordsOnly r.name r.dispatcher → w.driven r.dispatcher ∉ due →
    w.lastNews r.name = w.tidings (.dispatcher r.dispatcher)

namespace Herald.Tells

variable {r : Herald} {due : List Object} {size : Nat}

theorem sound (h : r.Tells due size w) : w.Sound := h.orderly.inPlace.sound

theorem driven_eq (h : r.Tells due size w) : w.driven r.dispatcher =
    if (w.dispatcher r.dispatcher).usesTimeline then .timeline r.timeline
    else .journal r.journal := by
  obtain ⟨-, hj, ht⟩ := World.dispatcher_eq h.histories
  simp only [World.driven, hj, ht]

theorem exists_driven (h : r.Tells due size w) : ∃ mode : Mode,
    (w.dispatcher r.dispatcher).mode = .text mode.text ∧
      w.driven r.dispatcher = Object.history (r.journal, r.timeline) mode := by
  obtain ⟨mode, hm⟩ := h.mode
  exact ⟨mode, hm, World.driven_eq h.histories (Value.same_text.2 hm)⟩

theorem mono (h : r.Tells due size w) {due' : List Object} {size' : Nat} (hd : due ⊆ due')
    (hs : size' ≤ w.items.length) : r.Tells due' size' w :=
  { h with
    orderly := h.orderly.sized hs
    fresh := fun hs ho hn ↦ h.fresh hs ho fun hm ↦ hn (hd hm) }

theorem of_driven_ne {o : Object} (h : r.Tells (o :: due) size w) (ho : w.driven r.dispatcher ≠ o) :
    r.Tells due size w :=
  { h with fresh := fun hd hr hn ↦ h.fresh hd hr (List.not_mem_cons_of_ne_of_not_mem ho hn) }

/-- What takes nothing from the items and the links, and leaves the dispatcher, its histories and
what is told of it as they are, makes no difference. -/
theorem frame (h : r.Tells due size w) (ho : Orderly size w') (hg : w.Grown w')
    (hl : ∀ l ∈ w.links, l.tells = true → l ∈ w'.links)
    (hm : (w'.dispatcher r.dispatcher).mode = (w.dispatcher r.dispatcher).mode)
    (hj : w'.journal r.journal = w.journal r.journal)
    (ht : w'.timeline r.timeline = w.timeline r.timeline)
    (hn : w'.lastNews r.name = w.lastNews r.name) : r.Tells due size w' := by
  have hh := hg.histories_eq h.histories
  have hd : w'.driven r.dispatcher = w.driven r.dispatcher := by
    obtain ⟨-, hj', ht'⟩ := World.dispatcher_eq hh
    rw [h.driven_eq]
    unfold World.driven Dispatcher.usesTimeline
    dsimp only
    rw [hj', ht', hm]
  have htidings : w'.tidings (.dispatcher r.dispatcher) = w.tidings (.dispatcher r.dispatcher) := by
    rw [← w'.tidings_driven, ← w.tidings_driven, hd, h.driven_eq]
    split
    · simp only [World.tidings, ht]
    · simp only [World.tidings, hj]
  -- Relays and records tell of a dispatcher, so that none of them is lost.
  refine ⟨ho, hh, ?_, ?_, fun mode ↦ ?_, ?_, fun hdescribed hr hdue ↦ ?_⟩
  · rw [hm]
    exact h.mode
  · rw [ht]
    exact h.limit
  · obtain ⟨l, hlm, hs⟩ := h.relayed mode
    exact ⟨l, hl l hlm (by rw [Link.tells, hs]; rfl), hs⟩
  · obtain ⟨l, hlm, hsource, hsignal, hs⟩ := h.recorded
    exact ⟨l, hl l hlm (by rw [Link.tells, hs, hsignal]; rfl), hsource, hsignal, hs⟩
  · rw [hn, htidings]
    refine h.fresh (hg.described hdescribed) (fun l hlm hs hsignal ↦ ?_) (hd ▸ hdue)
    exact hr l (hl l hlm (by rw [Link.tells, hs, hsignal]; rfl)) hs hsignal

theorem link (h : r.Tells due size w) (ho : Orderly size w') (hg : w.Grown w')
    (hl : w.links ⊆ w'.links) (hd : w'.dispatchers = w.dispatchers)
    (hj : w'.journals = w.journals) (ht : w'.timelines = w.timelines)
    (he : w'.events = w.events) : r.Tells due size w' := by
  refine h.frame ho hg (fun l hm _ ↦ hl hm) ?_ ?_ ?_ ?_
  · rw [World.dispatcher, hd, World.dispatcher]
  · rw [World.journal, hj, World.journal]
  · rw [World.timeline, ht, World.timeline]
  · rw [World.lastNews, he, World.lastNews]

theorem withDispatcher (h : r.Tells due size w) {name : Text} {s : Settings Value}
    (ho : Orderly size (w.withDispatcher name s)) : r.Tells due size (w.withDispatcher name s) := by
  obtain ⟨links, linkCount, objects, he, hl⟩ := w.exists_withDispatcher name s
  have hp := (List.getElem?_eq_some_iff.1 h.histories)
  have hk := (World.dispatcher_eq h.histories).1
  have hh := h.sound.histories _ (List.mem_of_getElem? h.histories)
  refine h.frame ho (h.sound.grown_withDispatcher name s) (fun l hm _ ↦ ?_) ?_ ?_
    ?_ ?_
  · rw [he]
    exact hl.subset hm
  · rw [he]
    simp [World.dispatcher, World.withHistories, List.getElem?_append_left hk]
  · rw [he]
    simp [World.journal, World.withHistories, List.getElem?_append_left hh.1]
  · rw [he]
    simp [World.timeline, World.withHistories, List.getElem?_append_left hh.2]
  · rw [he]
    rfl

theorem setSlot (h : r.Tells due size w) {l : Link} {steps : List Step} {was : Option Int}
    {left : Option Int} (hl : l ∈ w.links) (hs : l.slot = .listen steps was)
    (ho : Orderly size (w.setSlot l.number (.listen steps left))) :
    r.Tells due size (w.setSlot l.number (.listen steps left)) := by
  have hsound := h.sound
  refine h.frame ho (hsound.grown_setSlot _ _ _) (fun m hm ht ↦ ?_) rfl rfl rfl rfl
  refine List.mem_map.2 ⟨m, hm, if_neg fun hn ↦ ?_⟩
  -- The listener has a number of its own.
  obtain rfl := hsound.eq_of_number hm hl hn
  rw [Link.tells, hs] at ht
  cases ht

theorem unwatch (h : r.Tells due size w) {k : Nat} {o : Object}
    (ho : Orderly size (w.unwatch k o)) : r.Tells due size (w.unwatch k o) := by
  exact h.frame ho (h.sound.grown_unwatch k o)
    (fun _ hl ht ↦ World.mem_unwatch_of_tells hl ht) (World.mode_modify fun _ ↦ rfl) rfl rfl rfl

/-- A journal that changes is due, unless that makes no difference to what can be done. -/
theorem journal (h : r.Tells due size w) {due' : List Object} (hd : due ⊆ due') {k : Nat}
    {f : Journal Nat → Journal Nat}
    (ho : Orderly size { w with journals := w.journals.modify k f })
    (hc : .journal k ∉ due' → (f (w.journal k)).canUndo = (w.journal k).canUndo ∧
      (f (w.journal k)).canRedo = (w.journal k).canRedo) :
    r.Tells due' size { w with journals := w.journals.modify k f } := by
  refine ⟨ho, h.histories, h.mode, h.limit, h.relayed, h.recorded, fun hs hr hn ↦ ?_⟩
  refine (h.fresh hs hr fun hm ↦ hn (hd hm)).trans ?_
  have hlt := (h.sound.histories _ (List.mem_of_getElem? h.histories)).1
  have hdriven : World.driven { w with journals := w.journals.modify k f } r.dispatcher =
    w.driven r.dispatcher := rfl
  rw [← World.tidings_driven, ← World.tidings_driven, hdriven]
  rw [hdriven, h.driven_eq] at hn
  rw [h.driven_eq]
  split
  · rfl
  · rename_i hu
    rw [if_neg hu] at hn
    by_cases hk : k = r.journal
    · subst hk
      obtain ⟨hundo, hredo⟩ := hc hn
      have hj : World.journal { w with journals := w.journals.modify r.journal f } r.journal =
          f (w.journal r.journal) := by simp [World.journal, hlt]
      simp only [World.tidings, hj, hundo, hredo]
    · simp [World.tidings, World.journal, hk]

/-- A timeline that changes is due, unless that makes no difference to what can be done. -/
theorem timeline (h : r.Tells due size w) {due' : List Object} (hd : due ⊆ due') {k : Nat}
    {f : Timeline Nat → Timeline Nat}
    (ho : Orderly size { w with timelines := w.timelines.modify k f })
    (hl : (w.timeline k).limit.bound?.isSome = true → (f (w.timeline k)).limit.bound?.isSome = true)
    (hc : .timeline k ∉ due' → (f (w.timeline k)).canUndo = (w.timeline k).canUndo ∧
      (f (w.timeline k)).canRedo = (w.timeline k).canRedo) :
    r.Tells due' size { w with timelines := w.timelines.modify k f } := by
  have hlt := (h.sound.histories _ (List.mem_of_getElem? h.histories)).2
  have hother (hk : k ≠ r.timeline) :
      World.timeline { w with timelines := w.timelines.modify k f } r.timeline =
        w.timeline r.timeline := by simp [World.timeline, hk]
  have hown : World.timeline { w with timelines := w.timelines.modify r.timeline f } r.timeline =
      f (w.timeline r.timeline) := by simp [World.timeline, hlt]
  refine ⟨ho, h.histories, h.mode, ?_, h.relayed, h.recorded, fun hs hr hn ↦ ?_⟩
  · by_cases hk : k = r.timeline
    · subst hk
      rw [hown]
      exact hl h.limit
    · rw [hother hk]
      exact h.limit
  · refine (h.fresh hs hr fun hm ↦ hn (hd hm)).trans ?_
    have hdriven : World.driven { w with timelines := w.timelines.modify k f } r.dispatcher =
      w.driven r.dispatcher := rfl
    rw [← World.tidings_driven, ← World.tidings_driven, hdriven]
    rw [hdriven, h.driven_eq] at hn
    rw [h.driven_eq]
    split
    · rename_i hu
      rw [if_pos hu] at hn
      by_cases hk : k = r.timeline
      · subst hk
        obtain ⟨hundo, hredo⟩ := hc hn
        simp only [World.tidings, hown, hundo, hredo]
      · simp only [World.tidings, hother hk]
    · rfl

/-- A dispatcher that has no other recorded under its name is told the truth of. -/
theorem told (h : r.Tells due size w) (due' : List Object) {k : Nat}
    (hk : w.RecordsOnly r.name r.dispatcher → k = r.dispatcher) :
    r.Tells due' size (w.addEvent (.announced r.name .stateChanged
      (w.tidings (.dispatcher k)))) := by
  refine ⟨h.orderly.addEvent _, h.histories, h.mode, h.limit, h.relayed, h.recorded,
    fun _ hr _ ↦ ?_⟩
  rw [World.lastNews_announced, hk hr]
  rfl

theorem announced (h : r.Tells due size w) {l : Link} {name : Text} {k : Nat} (hl : l ∈ w.links)
    (hsource : l.source = .dispatcher k) (hsignal : l.signal = .stateChanged)
    (hslot : l.slot = .record name) :
    r.Tells due size (w.addEvent (.announced name .stateChanged (w.tidings (.dispatcher k)))) := by
  by_cases hn : name = r.name
  · subst hn
    exact h.told due fun hr ↦ Object.dispatcher.inj (hsource.symm.trans (hr l hl hslot hsignal))
  · exact h.frame (h.orderly.addEvent _) (h.sound.grown_aside _ _ _ _)
      (fun _ hm _ ↦ hm) rfl rfl rfl (World.lastNews_addEvent (if_neg hn))

theorem setMode_other (h : r.Tells due size w) {k : Nat} (hk : k ≠ r.dispatcher) (mode : Value) :
    r.Tells due size { w with dispatchers := w.dispatchers.modify k ({ · with mode }) } :=
  h.frame (h.orderly.setMode k mode) (h.sound.grown_setMode k mode)
    (fun _ hl _ ↦ hl) (by simp [World.dispatcher, hk]) rfl rfl rfl

/-- When the dispatcher changes its mode, it is as if both of its histories had changed. -/
theorem setMode (h : r.Tells due size w) (mode : Mode) :
    r.Tells [.journal r.journal, .timeline r.timeline] size { w with
      dispatchers := w.dispatchers.modify r.dispatcher ({ · with mode := .text mode.text }) } := by
  have hh := (h.sound.grown_setMode r.dispatcher (.text mode.text)).histories_eq
    h.histories
  have hk := (World.dispatcher_eq h.histories).1
  have hm : (World.dispatcher { w with
      dispatchers := w.dispatchers.modify r.dispatcher ({ · with mode := .text mode.text }) }
      r.dispatcher).mode = .text mode.text := by
    simp [World.dispatcher, hk]
  refine ⟨h.orderly.setMode _ _, hh, ⟨mode, hm⟩, h.limit, h.relayed, h.recorded, fun _ _ hn ↦ ?_⟩
  -- It drives one of the two, whichever it is.
  rw [World.driven_eq hh (Value.same_text.2 hm)] at hn
  cases mode <;> simp [Object.history] at hn

end Herald.Tells

variable {r : Herald} {due : List Object} {size : Nat}

theorem upheld_tells (r : Herald) (due : List Object) (size : Nat) :
    Upheld .tame (r.Tells due size) where
  sound h := h.sound
  aside i x h := h.link ((upheld_orderly size).aside i x h.orderly)
    (h.sound.grown_aside _ _ _ _) (List.Subset.refl _) rfl rfl rfl rfl
  event h he := h.frame (h.orderly.addEvent _) (h.sound.grown_aside _ _ _ _)
    (fun _ hl _ ↦ hl) rfl rfl rfl (World.lastNews_addEvent (Event.news?_eq_none he _))
  begun h hk := h.link ((upheld_orderly size).begun h.orderly hk)
    (h.sound.grown_aside _ _ _ _) (List.Subset.refl _) rfl rfl rfl rfl
  read k h := h.link ((upheld_orderly size).read k h.orderly)
    (h.sound.grown_listing k _) (List.Subset.refl _) rfl rfl rfl rfl
  done k h := h.link ((upheld_orderly size).done k h.orderly)
    (h.sound.grown_aside _ _ _ _) (List.Subset.refl _) rfl rfl rfl rfl
  renewed h hi := h.link ((upheld_orderly size).renewed h.orderly hi)
    (h.sound.grown_renewed hi) (List.Subset.refl _) rfl rfl rfl rfl
  captured x nodes h := h.link ((upheld_orderly size).captured x nodes h.orderly)
    (h.sound.grown_item _) (List.Subset.refl _) rfl rfl rfl rfl
  edit h hs := h.link ((upheld_orderly size).edit h.orderly hs)
    (h.sound.grown_nameItem _ _) (List.Subset.refl _) rfl rfl rfl rfl
  state h hs := h.link ((upheld_orderly size).state h.orderly hs)
    (h.sound.grown_nameItem _ _) (List.Subset.refl _) rfl rfl rfl rfl
  item name _ h hp ho := h.link ((upheld_orderly size).item name h.orderly hp ho)
    (h.sound.grown_nameItem _ _) (List.Subset.refl _) rfl rfl rfl rfl
  journal h hl := by
    have hlt := (h.sound.histories _ (List.mem_of_getElem? h.histories)).1
    refine h.frame ((upheld_orderly size).journal h.orderly hl)
      (h.sound.grown_addJournal _) (fun _ hm _ ↦ hm) rfl ?_ rfl rfl
    simp [World.journal, List.getElem?_append_left hlt]
  timeline limit h := by
    have hlt := (h.sound.histories _ (List.mem_of_getElem? h.histories)).2
    refine h.frame ((upheld_orderly size).timeline limit h.orderly)
      (h.sound.grown_addTimeline _) (fun _ hm _ ↦ hm) rfl rfl ?_ rfl
    simp [World.timeline, List.getElem?_append_left hlt]
  selection h hs := h.link ((upheld_orderly size).selection h.orderly hs)
    (h.sound.grown_addSelection hs) (List.Subset.refl _) rfl rfl rfl rfl
  presented := fun {_ w} name {o} hu hn h ho hk hd ↦ by
    obtain ⟨links, linkCount, objects, he, hl⟩ := w.exists_present name o
    refine h.link ((upheld_orderly size).presented name hu.orderly hn h.orderly ho hk hd)
      (h.sound.grown_present name ho) ?_ ?_ ?_ ?_ ?_
    all_goals rw [he]
    exact hl.subset
  listing := fun {w _ o rows} name h ho hr ↦ by
    obtain ⟨links, linkCount, objects, listings, he, hl⟩ := w.exists_withListing name o rows
    refine h.link ((upheld_orderly size).listing name h.orderly ho hr)
      (h.sound.grown_withListing name hr) ?_ ?_ ?_ ?_ ?_
    all_goals rw [he]
    exact hl.subset
  dispatcher name h hs hsettings :=
    h.withDispatcher ((upheld_orderly size).dispatcher name h.orderly hs hsettings)
  listened := fun signal _ _ steps times h ho hs ↦
    h.link ((upheld_orderly size).listened signal h.orderly ho hs)
      (h.sound.grown_connect _ signal (.listen steps times) trivial nofun)
      (List.subset_append_left _ _) rfl rfl rfl rfl
  left left h hl hs := h.setSlot hl hs ((upheld_orderly size).left left h.orderly hl hs)
  watched := fun {w _ k x} h hk ho ↦ by
    refine h.frame ((upheld_orderly size).watched h.orderly hk ho)
      ((upheld_grown w).watched h.sound.refl hk ho) (fun l hl ht ↦ ?_)
      (World.mode_modify fun _ ↦ rfl) rfl rfl rfl
    exact List.mem_append_left _ (World.mem_unwatch_of_tells hl ht)
  unwatched h ho hx := h.unwatch ((upheld_orderly size).unwatched h.orderly ho hx)
  chosen x h hs := h.link ((upheld_orderly size).chosen x h.orderly hs)
    (h.sound.grown_selection x hs) (List.Subset.refl _) rfl rfl rfl rfl
  listener h := (upheld_orderly size).listener h.orderly
  program h := (upheld_orderly size).program h.orderly
  restore h := (upheld_orderly size).restore h.orderly

end Rewind.Session
