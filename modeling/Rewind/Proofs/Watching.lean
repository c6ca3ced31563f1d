import Rewind.Proofs.Rig

namespace Rewind

variable {ι : Type}

/-- With a new state, if states are recorded now. What cannot be trimmed stays as long as it is. -/
def Timeline.taken (t : Timeline ι) (same : ι → ι → Bool) (x : ι) : Timeline ι :=
  if t.enabled.truth = true ∧ t.restoring = false then
    (t.push same x).trim.toOption.getD (t.push same x)
  else t

namespace Timeline

variable {t u : Timeline ι} {same : ι → ι → Bool} {x : ι}

theorem taken_of_ok (he : t.enabled.truth = true) (hr : t.restoring = false)
    (h : (t.push same x).trim = .ok u) : t.taken same x = u := by
  rw [taken, if_pos ⟨he, hr⟩, h]
  rfl

theorem taken_of_error (he : t.enabled.truth = true) (hr : t.restoring = false) {e : Fault}
    (h : (t.push same x).trim = .error e) : t.taken same x = t.push same x := by
  rw [taken, if_pos ⟨he, hr⟩, h]
  rfl

theorem taken_of_not (h : ¬ (t.enabled.truth = true ∧ t.restoring = false)) :
    t.taken same x = t := if_neg h

end Timeline

namespace Session

/-- The dispatcher that a slot captures for. -/
def Slot.taker? : Slot → Option Nat
  | capture k => some k
  | _ => none

theorem Slot.taker?_eq_some {slot : Slot} {k : Nat} :
    slot.taker? = some k ↔ slot = .capture k := by
  cases slot <;> simp [taker?]

namespace World

/-- The dispatchers that hear of the changes of a selection, each as often as it is connected. -/
def takers (w : World) (x : Nat) : List Nat :=
  (w.links.filter fun l ↦ l.source = .selection x ∧ l.signal = .selectionChanged).filterMap
    (·.slot.taker?)

/-- With a capture of a selection that a dispatcher has added to its timeline. -/
def takenBy (x : Nat) (w : World) (k : Nat) : World :=
  let u := w.addItem (.capture ⟨none, .selection x, (w.selection x).nodes⟩)
  { u with
    timelines := u.timelines.modify (w.dispatcher k).timeline
      (·.taken u.sameItem w.items.length) }

/-- Nothing is recorded in a timeline, captured or selected, and who captures what still does. -/
structure Untouched (t : Nat) (w w' : World) : Prop where
  items : w'.items = w.items
  timeline : w'.timeline t = w.timeline t
  selections : w'.selections = w.selections
  watched : ∀ k, (w'.dispatcher k).watched = (w.dispatcher k).watched
  links : ∀ l ∈ w.links, ∀ k, l.slot = .capture k → l ∈ w'.links

variable {w w' u v b : World} {j k t x : Nat}

theorem sameItem_congr (h : w'.items = w.items) : w'.sameItem = w.sameItem := by
  funext i j
  simp only [sameItem, equal, answersEqual, h]

theorem selection_congr (h : w'.selections = w.selections) : w'.selection x = w.selection x := by
  rw [selection, h, selection]

theorem untouched_of_eq (hi : w'.items = w.items) (ht : w'.timeline t = w.timeline t)
    (hs : w'.selections = w.selections) (hd : w'.dispatchers = w.dispatchers)
    (hl : w'.links = w.links) : w.Untouched t w' := by
  refine ⟨hi, ht, hs, fun k ↦ ?_, fun l hm _ _ ↦ hl ▸ hm⟩
  rw [dispatcher, hd, dispatcher]

theorem untouched_framing (t : Nat) : Framing (fun s ↦ s = t) (Untouched t) where
  refl _ := untouched_of_eq rfl rfl rfl rfl rfl
  trans h h' := ⟨h'.items.trans h.items, h'.timeline.trans h.timeline,
    h'.selections.trans h.selections, fun k ↦ (h'.watched k).trans (h.watched k),
    fun l hl k hs ↦ h'.links l (h.links l hl k hs) k hs⟩
  event _ _ _ := untouched_of_eq rfl rfl rfl rfl rfl
  reading _ _ := untouched_of_eq rfl rfl rfl rfl rfl
  listing _ _ _ := untouched_of_eq rfl rfl rfl rfl rfl
  timeline w s f hs := untouched_of_eq rfl (by simp [World.timeline, hs]) rfl rfl rfl
  left {w l steps was} left hw hl hs := by
    -- The link that is set is a listener's, and so none of those that capture.
    refine ⟨rfl, rfl, rfl, fun _ ↦ rfl, fun m hm k hk ↦ List.mem_map.2 ⟨m, hm, ?_⟩⟩
    have hn : m.number ≠ l.number := by
      intro hn
      rw [hw.eq_of_number hm hl hn, hs] at hk
      cases hk
    rw [if_neg hn]

theorem modify_timeline_congr {f g : Timeline Nat → Timeline Nat}
    (h : f (w.timeline t) = g (w.timeline t)) :
    w.timelines.modify t f = w.timelines.modify t g := by
  refine List.ext_getElem? fun i ↦ ?_
  rw [List.getElem?_modify, List.getElem?_modify]
  by_cases hi : t = i
  · subst hi
    cases ht : w.timelines[t]? with
    | none => rfl
    | some a =>
      have ha : w.timeline t = a := by simp [timeline, ht]
      simpa [ha] using h
  · simp [hi]

theorem dispatcher_modify (links : List Link) (f : Dispatcher → Dispatcher) (i : Nat) :
    World.dispatcher { w with links, dispatchers := w.dispatchers.modify k f } i =
      if k = i ∧ i < w.dispatchers.length then f (w.dispatcher i) else w.dispatcher i := by
  simp only [dispatcher, List.getD_eq_getElem?_getD, List.getElem?_modify]
  by_cases hi : i < w.dispatchers.length
  · by_cases hk : k = i
    · simp [hi, hk]
    · simp [hi, hk]
  · simp [hi]

theorem watched_append (mode : Value) (j t i : Nat) :
    (World.dispatcher { w with dispatchers := w.dispatchers ++ [⟨mode, j, t, none⟩] } i).watched =
      (w.dispatcher i).watched := by
  simp only [dispatcher, List.getD_eq_getElem?_getD]
  by_cases hi : i < w.dispatchers.length
  · rw [List.getElem?_append_left hi]
  · rw [List.getElem?_append_right (by omega), List.getElem?_eq_none (Nat.not_lt.1 hi)]
    cases i - w.dispatchers.length <;> rfl

theorem timeline_takenBy (h : (w.dispatcher k).timeline < w.timelines.length) :
    (takenBy x w k).timeline t = if (w.dispatcher k).timeline = t then
      (w.timeline t).taken
        (w.addItem (.capture ⟨none, .selection x, (w.selection x).nodes⟩)).sameItem
        w.items.length
    else w.timeline t := by
  split
  · rename_i ht
    subst ht
    exact timeline_modify (w := w.addItem _) h _
  · rename_i ht
    simp [takenBy, timeline, ht, addItem]

/-- Captures are the same where nothing has been touched. -/
theorem Untouched.takenBy (h : b.Untouched t u)
    (hk : (u.dispatcher k).timeline = (b.dispatcher k).timeline)
    (hb : (b.dispatcher k).timeline < b.timelines.length)
    (hu : (u.dispatcher k).timeline < u.timelines.length) :
    (takenBy x b k).Untouched t (takenBy x u k) := by
  have hx : u.selection x = b.selection x := selection_congr h.selections
  have hi : (World.takenBy x u k).items = (World.takenBy x b k).items := by
    show u.items ++ [_] = b.items ++ [_]
    rw [h.items, hx]
  refine ⟨hi, ?_, h.selections, h.watched, h.links⟩
  rw [timeline_takenBy hb, timeline_takenBy hu, hk, h.timeline, h.items, hx]
  have hs : (u.addItem (.capture ⟨none, .selection x, (b.selection x).nodes⟩)).sameItem =
      (b.addItem (.capture ⟨none, .selection x, (b.selection x).nodes⟩)).sameItem :=
    sameItem_congr (by rw [addItem, h.items, addItem])
  rw [hs]

end World

variable {m n : Nat} {kept : Nat → Prop} {R : World → World → Prop} {Calm : World → Prop}
  {w w' u v b : World} {j k t x y : Nat}

/-- Adding to a timeline leads to `I` if those who hear of it make no difference to `I`. -/
theorem leads_add_taken {b : Inner} {I : World → Prop} {X : Prop} {i : Nat}
    (hh : (timelineHost b t).Heard I X) (ht : t < w.timelines.length)
    (hw : I { w with timelines := w.timelines.modify t (·.taken w.sameItem i) }) :
    ((timelineHost b t).add i).Leads w (fun _ ↦ I) (fun _ ↦ I) X := by
  let taken (l : Timeline Nat) : Timeline Nat := l.taken w.sameItem i
  have hmodify {f : Timeline Nat → Timeline Nat} (hf : taken (w.timeline t) = f (w.timeline t)) :
      I { w with timelines := w.timelines.modify t f } := by
    rw [← World.modify_timeline_congr (f := taken) hf]
    exact hw
  by_cases hr : (w.timeline t).enabled.truth = true ∧ (w.timeline t).restoring = false
  · obtain ⟨he, hr⟩ := hr
    have hpush : (timelineHost b t).timeline ((timelineHost b t).update (·.push w.sameItem i) w) =
        (w.timeline t).push w.sameItem i := World.timeline_modify ht _
    refine hh.told.leads_add_recorded trivial he hr (fun l hl ↦ ?_) (fun e hl ↦ ?_)
    · rw [update_timelineHost]
      apply hmodify (f := fun _ ↦ l)
      exact Timeline.taken_of_ok he hr (hpush ▸ hl)
    · apply hmodify (f := (·.push w.sameItem i))
      exact Timeline.taken_of_error he hr (hpush ▸ hl)
  · have hw := hmodify (f := id) (Timeline.taken_of_not hr)
    rw [List.modify_id] at hw
    exact hh.leads_add_of hw fun he hp ↦ absurd ⟨he, hp⟩ hr

/-- What a dispatcher records is a capture that it has taken, apart from what bystanders do. -/
theorem Bystanders.leads_recordCapture (hb : Bystanders m j y R Calm) (hr : Framing kept R)
    (hn : m + 3 ≤ n) (hw : w.Sound) (hc : Calm w)
    (ht : (w.dispatcher k).timeline < w.timelines.length) :
    (recordCapture (inner n) (w.dispatcher k).timeline x).Leads w
      (fun _ v ↦ R (World.takenBy x w k) v ∧ w.Grown v ∧ Calm v)
      (fun _ v ↦ R (World.takenBy x w k) v ∧ w.Grown v ∧ Calm v) False := by
  have hg : w.Grown (World.takenBy x w k) :=
    (hw.grown_item _).trans ((hw.grown_item _).sound.grown_timeline _ _)
  have hc : Calm (World.takenBy x w k) :=
    hb.stable hc (World.beside_of_eq rfl rfl rfl rfl (List.prefix_append _ _))
  have hh := (hb.around hr (World.takenBy x w k)).heard hn (w.dispatcher k).timeline
  unfold recordCapture
  rw [Run.leads_bind, Run.leads_get, Run.leads_bind, Run.leads_modify]
  refine (leads_add_taken (w := w.addItem _) hh ht ⟨hr.refl _, hg.sound.refl, hc⟩).mono
    (fun _ v hv ↦ ?_) (fun _ v hv ↦ ?_)
  · exact ⟨hv.1, hg.trans hv.2.1, hv.2.2⟩
  · exact ⟨hv.1, hg.trans hv.2.1, hv.2.2⟩

/-- Captures have been taken since a world, which has become what is given, and nothing else has
been touched. -/
structure Taking (t : Nat) (Calm : World → Prop) (w b u : World) : Prop where
  untouched : b.Untouched t u
  grown : w.Grown u
  calm : Calm u
  dispatchers : b.dispatchers = w.dispatchers
  selections : b.selections = w.selections
  links : b.links = w.links
  size : b.timelines.length = w.timelines.length

theorem Taking.refl (hw : w.Sound) (hc : Calm w) : Taking t Calm w w w :=
  ⟨(World.untouched_framing t).refl w, hw.refl, hc, rfl, rfl, rfl, rfl⟩

theorem Taking.of_untouched (h : Taking t Calm w b u) (hu : u.Untouched t v) (hg : u.Grown v)
    (hc : Calm v) : Taking t Calm w b v :=
  ⟨(World.untouched_framing t).trans h.untouched hu, h.grown.trans hg, hc, h.dispatchers,
    h.selections, h.links, h.size⟩

theorem Taking.addEvent (h : Taking t Calm w b u) (hb : Bystanders m j y (World.Untouched t) Calm)
    {e : Event} (he : e.isCall = false) : Taking t Calm w b (u.addEvent e) :=
  h.of_untouched ((World.untouched_framing t).event u e he) (h.grown.sound.refl.addEvent e)
    (hb.stable h.calm ((World.beside_tolerant fun _ ↦ False).event u e he))

theorem Taking.take (h : Taking t Calm w b u) (hw : w.Sound) (hk : k < w.dispatchers.length)
    (hv : (World.takenBy x u k).Untouched t v) (hg : u.Grown v) (hc : Calm v) :
    Taking t Calm w (World.takenBy x b k) v := by
  have hd : b.dispatcher k = w.dispatcher k := by
    rw [World.dispatcher, h.dispatchers, World.dispatcher]
  have ht : (u.dispatcher k).timeline = (b.dispatcher k).timeline := by
    rw [hd]
    exact h.grown.timeline_eq hk
  have hb : (b.dispatcher k).timeline < b.timelines.length := by
    rw [hd, h.size]
    exact hw.timeline_lt hk
  have hu : (u.dispatcher k).timeline < u.timelines.length := by
    apply h.grown.sound.timeline_lt
    exact Nat.lt_of_lt_of_le hk (h.grown.count (.dispatcher 0))
  refine ⟨(World.untouched_framing t).trans (h.untouched.takenBy ht hb hu) hv, h.grown.trans hg,
    hc, h.dispatchers, h.selections, h.links, ?_⟩
  simpa [World.takenBy, World.addItem] using h.size

theorem leads_notify_taker {l : Link} (hb : Bystanders m j y (World.Untouched t) Calm)
    (hn : m + 3 ≤ n) (hw : w.Sound) (hl : l ∈ w.links) (hk : l.slot = .capture k)
    (hx : l.source = .selection x) (hu : Taking t Calm w b u) {arguments : List Answer} :
    (notify (inner (n + 1)) .selectionChanged arguments l).Leads u
      (fun _ ↦ Taking t Calm w (World.takenBy x b k)) (fun _ _ ↦ False) False := by
  obtain ⟨hlt, hwatched, -, -⟩ := hw.capture hl hk
  have hwatched : (u.dispatcher k).watched = some (.selection x) := by
    rw [hu.untouched.watched, World.dispatcher, hu.dispatchers, ← hx]
    exact hwatched
  have hconnected : u.isConnected l.number = true := by
    refine World.isConnected_of_mem (hu.untouched.links l ?_ k hk)
    rwa [hu.links]
  have hltu : k < u.dispatchers.length :=
    Nat.lt_of_lt_of_le hlt (hu.grown.count (.dispatcher 0))
  have hrecord : (recordCapture (inner n) (u.dispatcher k).timeline x).Leads u
      (fun _ ↦ Taking t Calm w (World.takenBy x b k))
      (fun _ ↦ Taking t Calm w (World.takenBy x b k)) False := by
    refine (hb.leads_recordCapture (World.untouched_framing t) hn hu.grown.sound hu.calm
      (hu.grown.sound.timeline_lt hltu)).mono (fun _ v hv ↦ ?_) (fun _ v hv ↦ ?_)
    · exact hu.take hw hlt hv.1 hv.2.1 hv.2.2
    · exact hu.take hw hlt hv.1 hv.2.1 hv.2.2
  refine leads_notify_of (fun v e hv ↦ hv.addEvent hb rfl) (fun hn ↦ ?_) ?_
  · cases hconnected.symm.trans hn
  · show (fireSlot (inner n) l.number .selectionChanged l.slot arguments).Leads u _ _ _
    unfold fireSlot
    rw [hk]
    simp only [Run.leads_bind, Run.leads_get, hwatched]
    exact hrecord

theorem leads_notify_other {l : Link} (hb : Bystanders m j y (World.Untouched t) Calm)
    (hn : m + 3 ≤ n) (hk : l.slot.taker? = none) (hu : Taking t Calm w b u) {signal : Signal}
    {arguments : List Answer} :
    (notify (inner (n + 1)) signal arguments l).Leads u (fun _ ↦ Taking t Calm w b)
      (fun _ _ ↦ False) False := by
  have ha := hb.around (World.untouched_framing t) u
  have hslot (k : Nat) : l.slot ≠ .capture k := by
    intro hs
    cases (Slot.taker?_eq_some.2 hs).symm.trans hk
  have hfire : (fireSlot (inner n) l.number signal l.slot arguments).Keeps _ False :=
    ha.fire (by omega) hslot l.number fun _ _ ↦ rfl
  refine (leads_notify (fun _ e ↦ ha.event _ rfl)
    ⟨(World.untouched_framing t).refl u, hu.grown.sound.refl, hu.calm⟩ hfire).mono
    (fun _ v hv ↦ hu.of_untouched hv.1 hv.2.1 hv.2.2) (fun _ _ h ↦ h)

/-- When a selection has changed, each dispatcher that hears of it captures it in its turn. -/
theorem leads_announce_takers (hb : Bystanders m j y (World.Untouched t) Calm) (hn : m + 4 ≤ n)
    (hw : w.Sound) (hc : Calm w) {arguments : List Answer} :
    (announce (inner n) (.selection x) .selectionChanged arguments).Leads w
      (fun _ ↦ Taking t Calm w ((w.takers x).foldl (World.takenBy x) w)) (fun _ _ ↦ False)
      False := by
  obtain ⟨n, rfl⟩ : ∃ k, n = k + 1 := ⟨n - 1, by omega⟩
  rw [World.takers, List.foldl_filterMap]
  -- All who heard of it before are told, whatever has been captured by then.
  refine leads_announce_eq.2 (Run.leads_each_foldl (.refl hw hc) fun b l hl u hu ↦ ?_)
  rw [List.mem_filter, decide_eq_true_eq] at hl
  obtain ⟨hl, hx, -⟩ := hl
  cases hk : l.slot.taker? with
  | none => exact leads_notify_other hb (by omega) hk hu
  | some k => exact leads_notify_taker hb (by omega) hw hl (Slot.taker?_eq_some.1 hk) hx hu

/-- A dispatcher with its timeline, and the selection that it watches if it watches any. -/
structure Watches (k t : Nat) (last : Option Nat) (w : World) : Prop where
  sound : w.Sound
  histories : ∃ j, w.histories[k]? = some (j, t)
  watched : (w.dispatcher k).watched = last.map .selection
  linked : ∀ x, last = some x → ∃ l ∈ w.links, l.slot = .capture k

namespace Watches

variable {last : Option Nat}

theorem later (h : Watches k t last w) (hg : w.Grown w')
    (hw : (w'.dispatcher k).watched = (w.dispatcher k).watched)
    (hl : ∀ l ∈ w.links, ∀ k, l.slot = .capture k → l ∈ w'.links) : Watches k t last w' := by
  refine ⟨hg.sound, ?_, hw.trans h.watched, fun x hx ↦ ?_⟩
  · obtain ⟨j, hj⟩ := h.histories
    exact ⟨j, hg.histories_eq hj⟩
  · obtain ⟨l, hm, hs⟩ := h.linked x hx
    exact ⟨l, hl l hm k hs, hs⟩

theorem timeline_eq (h : Watches k t last w) :
    k < w.dispatchers.length ∧ (w.dispatcher k).timeline = t := by
  obtain ⟨j, hj⟩ := h.histories
  obtain ⟨hk, -, ht⟩ := World.dispatcher_eq hj
  exact ⟨hk, ht⟩

theorem rewatched (h : Watches k t last w) (x : Nat) : Watches k t (some x)
    ((w.unwatch k (.selection x)).connect (.selection x) .selectionChanged (.capture k)) := by
  obtain ⟨j, hj⟩ := h.histories
  obtain ⟨hk, -⟩ := h.timeline_eq
  have hg := h.sound.grown_rewatch hk x
  refine ⟨hg.sound, ⟨j, hg.histories_eq hj⟩, World.watched_unwatch hk, fun y _ ↦ ?_⟩
  exact ⟨_, List.mem_append_right _ List.mem_cons_self, rfl⟩

/-- There is one connection to the selection that is watched, and no other. -/
theorem links_eq (h : Watches k t last w) :
    (w.links.filter fun l ↦ l.slot.taker? = some k).map (fun l ↦ (l.source, l.signal)) =
      last.toList.map fun x ↦ (.selection x, .selectionChanged) := by
  have hall : ∀ l ∈ w.links.filter fun l ↦ l.slot.taker? = some k,
      l.slot = .capture k ∧ last.map .selection = some l.source ∧ l.signal = .selectionChanged := by
    intro l hl
    rw [List.mem_filter, decide_eq_true_eq, Slot.taker?_eq_some] at hl
    obtain ⟨-, hwatched, hsignal, -⟩ := h.sound.capture hl.1 hl.2
    exact ⟨hl.2, h.watched.symm.trans hwatched, hsignal⟩
  have honce := h.sound.once.sublist (List.filter_sublist (p := fun l ↦ l.slot.taker? = some k))
  cases hf : w.links.filter fun l ↦ l.slot.taker? = some k with
  | nil =>
    cases last with
    | none => rfl
    | some x =>
      obtain ⟨l, hl, hs⟩ := h.linked x rfl
      have hm : l ∈ w.links.filter fun l ↦ l.slot.taker? = some k :=
        List.mem_filter.2 ⟨hl, decide_eq_true (Slot.taker?_eq_some.2 hs)⟩
      rw [hf] at hm
      cases hm
  | cons l rest =>
    rw [hf] at hall honce
    obtain ⟨hs, hsource, hsignal⟩ := hall l List.mem_cons_self
    cases rest with
    | nil =>
      obtain ⟨x, rfl, hx⟩ := Option.map_eq_some_iff.1 hsource
      simp [hx, hsignal]
    | cons l' rest =>
      -- No two links capture for one dispatcher.
      have hs' := (hall l' (List.mem_cons_of_mem l List.mem_cons_self)).1
      exact absurd hs' ((List.pairwise_cons.1 honce).1 l' List.mem_cons_self k hs)

theorem count_takers (h : Watches k t last w) :
    (w.takers x).count k = if last = some x then 1 else 0 := by
  have hcount : (w.takers x).count k =
      ((w.links.filter fun l ↦ l.slot.taker? = some k).map fun l ↦ (l.source, l.signal)).countP
        fun p ↦ p = (.selection x, .selectionChanged) := by
    rw [World.takers, List.count_filterMap, List.countP_filter, List.countP_map, List.countP_filter]
    refine List.countP_congr fun l _ ↦ ?_
    simp [and_comm]
  rw [hcount, h.links_eq]
  cases last with
  | none => rfl
  | some y => simp [List.countP_cons]

end Watches

/-- The dispatchers that capture a selection when it changes, none of them if it has not. -/
def World.due (x : Nat) (w w' : World) : List Nat :=
  if (w'.selection x).nodes = (w.selection x).nodes then [] else w.takers x

/-- What is done with selections, and with a dispatcher that may watch them. -/
inductive Gesture where
  | watch (x : Nat)
  | select (x : Nat) (nodes : Value)
  | clear (x : Nat)

namespace Gesture

def selection : Gesture → Nat
  | watch x | select x _ | clear x => x

def run (b : Inner) (k : Nat) : Gesture → Run World Unit
  | watch x => Session.watch b k (.selection x)
  | select x nodes => do Session.select b x (← Run.lift nodes.members)
  | clear x => Session.select b x []

/-- The selection that is watched after a gesture. -/
def watched (last : Option Nat) : Gesture → Option Nat
  | watch x => some x
  | select _ _ | clear _ => last

/-- The dispatchers that capture the selection of a gesture. -/
def takers (k : Nat) (w w' : World) : Gesture → List Nat
  | watch _ => [k]
  | select x _ | clear x => w.due x w'

end Gesture

/-- One selection may have changed, and a timeline has no more and no other captures of it than the
given dispatchers have taken. -/
structure World.Captured (t x : Nat) (ks : List Nat) (w w' : World) : Prop where
  selections : w'.selections = w.selections.set x (w'.selection x)
  items : w'.items = (ks.foldl (takenBy x) { w with selections := w'.selections }).items
  timeline : w'.timeline t =
    (ks.foldl (takenBy x) { w with selections := w'.selections }).timeline t

/-- What a gesture leaves behind that the given dispatchers capture a selection in. -/
structure Left (k t x : Nat) (last : Option Nat) (ks : List Nat) (Calm : World → Prop)
    (w w' : World) : Prop where
  watches : Watches k t last w'
  grown : w.Grown w'
  calm : Calm w'
  captured : w.Captured t x ks w'

theorem nodes_ne_of_select {s s' : Selection} {nodes : List Value}
    (h : s.select? nodes = .ok (some s')) : s'.nodes ≠ s.nodes := by
  intro hn
  have hd := distinct_of_select h
  have hsame : Value.sameItems s'.nodes s.nodes = true :=
    (Value.sameItems_iff (Value.settled_of_distinct hd).hashable _).2 (by rw [hn])
  rw [select?_of_distinct hd, if_pos hsame] at h
  cases h

theorem World.captured_refl (hx : x < w.selections.length) : w.Captured t x [] w := by
  refine ⟨?_, rfl, rfl⟩
  simp [selection, hx]

section Gestures

variable {last : Option Nat}

theorem Left.idle (h : Watches k t last w) (hc : Calm w) (hx : x < w.selections.length) :
    Left k t x last (w.due x w) Calm w w := by
  refine ⟨h, h.sound.refl, hc, ?_⟩
  rw [World.due, if_pos rfl]
  exact World.captured_refl hx

theorem Watches.count_due (h : Watches k t last w) :
    (w.due x w').count k =
      if last = some x ∧ (w'.selection x).nodes ≠ (w.selection x).nodes then 1 else 0 := by
  unfold World.due
  split
  · rename_i hn
    rw [if_neg fun h ↦ h.2 hn]
    rfl
  · rename_i hn
    rw [h.count_takers]
    simp [hn]

theorem Watches.select (h : Watches k t last w) (hc : Calm w)
    (hb : Bystanders m j x (World.Untouched t) Calm) (hn : m + 4 ≤ n)
    (hx : x < w.selections.length) (nodes : List Value) :
    (select (inner n) x nodes).Leads w (fun _ w' ↦ Left k t x last (w.due x w') Calm w w')
      (fun _ w' ↦ Left k t x last (w.due x w') Calm w w') False := by
  have hidle : Left k t x last (w.due x w) Calm w w := .idle h hc hx
  refine leads_select.2 ⟨fun _ _ ↦ hidle, fun _ ↦ hidle, fun s hs ↦ ?_⟩
  have hset := h.sound.grown_selection x (Value.settled_of_distinct (distinct_of_select hs))
  have hcset := hb.stable hc (World.beside_selection s)
  refine (leads_announce_takers hb hn hset.sound hcset).mono (fun _ v hv ↦ ?_)
    (fun _ _ hv ↦ hv.elim)
  have hselections : v.selections = w.selections.set x s :=
    hv.untouched.selections.trans hv.selections
  have hselection : v.selection x = s := by
    rw [World.selection, hselections]
    exact World.selection_set hx s
  refine ⟨h.later (hset.trans hv.grown) ?_ fun l hl k hk ↦ ?_, hset.trans hv.grown, hv.calm, ?_⟩
  · rw [hv.untouched.watched, World.dispatcher, hv.dispatchers, World.dispatcher]
  · refine hv.untouched.links l ?_ k hk
    rw [hv.links]
    exact hl
  · rw [World.due, if_neg (hselection ▸ nodes_ne_of_select hs)]
    refine ⟨by rw [hselection, hselections], ?_, ?_⟩
    · rw [hselections]
      exact hv.untouched.items
    · rw [hselections]
      exact hv.untouched.timeline

/-- Watching makes a dispatcher capture a selection at once, and nobody else. -/
theorem Watches.watch (h : Watches k t last w) (hc : Calm w)
    (hb : Bystanders m j x (World.Untouched t) Calm) (hn : m + 3 ≤ n)
    (hx : x < w.selections.length) :
    (watch (inner n) k (.selection x)).Leads w (fun _ ↦ Left k t x (some x) [k] Calm w)
      (fun _ ↦ Left k t x (some x) [k] Calm w) False := by
  obtain ⟨hk, ht⟩ := h.timeline_eq
  let z := (w.unwatch k (.selection x)).connect (.selection x) .selectionChanged (.capture k)
  have hwz : Watches k t (some x) z := h.rewatched x
  obtain ⟨hkz, htz⟩ := hwz.timeline_eq
  have hz : w.Grown z := h.sound.grown_rewatch hk x
  have hcz : Calm z := hb.stable hc World.beside_rewatch
  have hlater (v : World) (hv : (World.takenBy x z k).Untouched t v ∧ z.Grown v ∧ Calm v) :
      Left k t x (some x) [k] Calm w v := by
    obtain ⟨hv, hg, hcv⟩ := hv
    have hselections : v.selections = w.selections := hv.selections
    have hselection : v.selection x = w.selection x := World.selection_congr hselections
    refine ⟨hwz.later hg (hv.watched k) hv.links, hz.trans hg, hcv, ?_, ?_, ?_⟩
    · rw [hselections, hselection]
      exact (World.captured_refl (t := t) hx).selections
    · rw [hselections]
      exact hv.items
    · rw [hselections]
      refine hv.timeline.trans ?_
      -- A capture goes by what is selected and not by the connections.
      show (World.takenBy x z k).timeline t = (World.takenBy x w k).timeline t
      rw [World.timeline_takenBy (hwz.sound.timeline_lt hkz),
        World.timeline_takenBy (h.sound.timeline_lt hk), htz, ht]
      rfl
  refine leads_watch.2 ⟨fun o ho e he ↦ ?_, fun _ ↦ ?_⟩
  · rw [h.watched] at ho
    obtain ⟨y, -, rfl⟩ := Option.map_eq_some_iff.1 ho
    cases he
  · unfold rewatch
    have hchanges : changesOf (.selection x) = .ok x := rfl
    have hrecord := hb.leads_recordCapture (x := x) (World.untouched_framing t) hn hz.sound hcz
      (hwz.sound.timeline_lt hkz)
    rw [htz] at hrecord
    rw [Run.leads_bind, Run.leads_modify, Run.leads_bind, Run.leads_lift_ok hchanges,
      Run.leads_bind, Run.leads_modify, ht]
    exact hrecord.mono (fun _ v hv ↦ hlater v hv) (fun _ v hv ↦ hlater v hv)

theorem Watches.gesture (h : Watches k t last w) (hc : Calm w)
    (hb : ∀ x, Bystanders m j x (World.Untouched t) Calm) (hn : m + 4 ≤ n) {g : Gesture}
    (hg : g.selection < w.selections.length) :
    (g.run (inner n) k).Leads w
      (fun _ w' ↦ Left k t g.selection (g.watched last) (g.takers k w w') Calm w w')
      (fun _ w' ↦ Left k t g.selection (g.watched last) (g.takers k w w') Calm w w') False := by
  cases g with
  | watch x => exact h.watch hc (hb x) (by omega) hg
  | select x nodes =>
    unfold Gesture.run
    rw [Run.leads_bind, Run.leads_lift]
    refine ⟨fun nodes _ ↦ h.select hc (hb x) hn hg nodes, fun _ _ ↦ ?_⟩
    exact .idle h hc hg
  | clear x => exact h.select hc (hb x) hn hg []

/-- The world after gestures, if each of them has an end. -/
def World.gestures (w : World) (n k : Nat) (gs : List Gesture) : Option World :=
  gs.foldlM (fun w g ↦ (g.run (inner n) k w).state?) w

theorem Watches.exists_gestures (h : Watches k t last w) (hc : Calm w)
    (hb : ∀ x, Bystanders m j x (World.Untouched t) Calm) (hn : m + 4 ≤ n) {gs : List Gesture}
    (hg : ∀ g ∈ gs, g.selection < w.selections.length) :
    ∃ w', w.gestures n k gs = some w' ∧ Watches k t (gs.foldl Gesture.watched last) w' ∧
      w.Grown w' ∧ Calm w' := by
  induction gs generalizing w last with
  | nil => exact ⟨w, rfl, h, h.sound.refl, hc⟩
  | cons g gs ih =>
    obtain ⟨u, hu, hleft⟩ := (h.gesture hc hb hn (hg g List.mem_cons_self)).exists_ended
    obtain ⟨w', hw', hlast, hgrown, hc'⟩ := ih hleft.watches hleft.calm fun g hm ↦
      Nat.lt_of_lt_of_le (hg g (List.mem_cons_of_mem _ hm)) (hleft.grown.count (.selection 0))
    refine ⟨w', ?_, hlast, hleft.grown.trans hgrown, hc'⟩
    rw [World.gestures, List.foldlM_cons, hu]
    exact hw'

end Gestures

/-- A world in which a dispatcher that watches a selection is connected. -/
structure Attentive (w : World) : Prop where
  sound : w.Sound
  linked : ∀ k x, (w.dispatcher k).watched = some (.selection x) →
    ∃ l ∈ w.links, l.slot = .capture k

namespace Attentive

theorem later (h : Attentive w) (hg : w'.Sound)
    (hw : ∀ k x, (w'.dispatcher k).watched = some (.selection x) →
      (w.dispatcher k).watched = some (.selection x))
    (hl : ∀ l ∈ w.links, ∀ k, l.slot = .capture k → l ∈ w'.links) : Attentive w' := by
  refine ⟨hg, fun k x hx ↦ ?_⟩
  obtain ⟨l, hm, hs⟩ := h.linked k x (hw k x hx)
  exact ⟨l, hl l hm k hs, hs⟩

theorem grown (h : Attentive w) (hg : w.Grown w') (hd : w'.dispatchers = w.dispatchers)
    (hl : w.links <+: w'.links) : Attentive w' := by
  refine h.later hg.sound (fun k x hx ↦ ?_) fun l hm _ _ ↦ hl.subset hm
  rwa [World.dispatcher, hd] at hx

theorem withDispatcher (h : Attentive w) (name : Text) (s : Settings Value) :
    Attentive (w.withDispatcher name s) := by
  obtain ⟨links, linkCount, objects, he, hl⟩ := w.exists_withDispatcher name s
  refine h.later (h.sound.grown_withDispatcher name s).sound (fun k x hx ↦ ?_) fun l hm _ _ ↦ ?_
  · rw [he] at hx
    exact (World.watched_append _ _ _ k).symm.trans hx
  · rw [he]
    exact hl.subset hm

theorem setSlot (h : Attentive w) {l : Link} {steps : List Step} {was : Option Int}
    (left : Option Int) (hl : l ∈ w.links) (hs : l.slot = .listen steps was) :
    Attentive (w.setSlot l.number (.listen steps left)) :=
  h.later (h.sound.grown_setSlot _ _ _).sound (fun _ _ hx ↦ hx)
    ((World.untouched_framing 0).left left h.sound hl hs).links

theorem mem_unwatch {k i : Nat} {o : Object} {l : Link} (hl : l ∈ w.links)
    (hs : l.slot = .capture i) (hi : i ≠ k) : l ∈ (w.unwatch k o).links :=
  List.mem_filter.2 ⟨hl, by simp [hs, hi]⟩

theorem unwatch (h : Attentive w) (k : Nat) {o : Object} (ho : ∀ x, o ≠ .selection x) :
    Attentive (w.unwatch k o) := by
  refine ⟨(h.sound.grown_unwatch k o).sound, fun i x hx ↦ ?_⟩
  rw [World.unwatch, World.dispatcher_modify] at hx
  split at hx
  · exact absurd (Option.some.inj hx) (ho x)
  · rename_i hi
    obtain ⟨l, hl, hs⟩ := h.linked i x hx
    have hk := (h.sound.capture hl hs).1
    exact ⟨l, mem_unwatch hl hs fun he ↦ hi ⟨he.symm, hk⟩, hs⟩

theorem rewatch (h : Attentive w) (hk : k < w.dispatchers.length) : Attentive
    ((w.unwatch k (.selection x)).connect (.selection x) .selectionChanged (.capture k)) := by
  refine ⟨(h.sound.grown_rewatch hk x).sound, fun i y hy ↦ ?_⟩
  by_cases hi : i = k
  · subst hi
    exact ⟨_, List.mem_append_right _ List.mem_cons_self, rfl⟩
  · have hy : ((w.unwatch k (.selection x)).dispatcher i).watched = some (.selection y) := hy
    rw [World.unwatch, World.dispatcher_modify, if_neg fun h ↦ hi h.1.symm] at hy
    obtain ⟨l, hl, hs⟩ := h.linked i y hy
    exact ⟨l, List.mem_append_left _ (mem_unwatch hl hs hi), hs⟩

end Attentive

theorem upheld_attentive : Upheld .any Attentive where
  sound h := h.sound
  aside _ _ h := h.grown (h.sound.grown_aside _ _ _ _) rfl List.prefix_rfl
  event h _ := h.grown (h.sound.grown_aside _ _ _ _) rfl List.prefix_rfl
  begun h _ := h.grown (h.sound.grown_aside _ _ _ _) rfl List.prefix_rfl
  read k h := h.grown (h.sound.grown_listing k _) rfl List.prefix_rfl
  done _ h := h.grown (h.sound.grown_aside _ _ _ _) rfl List.prefix_rfl
  renewed h hi := h.grown (h.sound.grown_renewed hi) rfl List.prefix_rfl
  captured _ _ h := h.grown (h.sound.grown_item _) rfl List.prefix_rfl
  edit h _ := h.grown (h.sound.grown_nameItem _ _) rfl List.prefix_rfl
  state h _ := h.grown (h.sound.grown_nameItem _ _) rfl List.prefix_rfl
  item _ _ h _ _ := h.grown (h.sound.grown_nameItem _ _) rfl List.prefix_rfl
  journal h _ := h.grown (h.sound.grown_addJournal _) rfl List.prefix_rfl
  timeline _ h := h.grown (h.sound.grown_addTimeline _) rfl List.prefix_rfl
  selection h hs := h.grown (h.sound.grown_addSelection hs) rfl List.prefix_rfl
  presented := fun {_ w} name {o} _ _ h ho _ _ ↦ by
    obtain ⟨links, linkCount, objects, he, hl⟩ := w.exists_present name o
    exact h.grown (h.sound.grown_present name ho) (by rw [he]) (by rw [he]; exact hl)
  listing := fun {w _ o rows} name h _ hr ↦ by
    obtain ⟨links, linkCount, objects, listings, he, hl⟩ := w.exists_withListing name o rows
    exact h.grown (h.sound.grown_withListing name hr) (by rw [he]) (by rw [he]; exact hl)
  dispatcher name h _ _ := h.withDispatcher name _
  listened _ _ _ _ _ h _ _ := h.grown (h.sound.grown_connect _ _ _ trivial nofun) rfl
    (List.prefix_append _ _)
  left left h hl hs := h.setSlot left hl hs
  watched h hk _ := h.rewatch hk
  unwatched h _ ho := h.unwatch _ ho
  chosen k h hs := h.grown (h.sound.grown_selection k hs) rfl List.prefix_rfl
  listener _ _ _ _ _ := trivial
  program _ _ := ⟨fun _ _ ↦ trivial, fun _ _ ↦ trivial⟩
  restore _ _ _ _ := trivial

theorem aloof_attentive : Aloof Attentive where
  journal k f h := h.grown (h.sound.grown_journal k f) rfl List.prefix_rfl
  timeline k f h := h.grown (h.sound.grown_timeline k f) rfl List.prefix_rfl
  mode := fun {w} k mode h ↦ by
    refine h.later (h.sound.grown_setMode k mode).sound (fun i x hx ↦ ?_) fun l hl _ _ ↦ hl
    rw [World.dispatcher_modify w.links] at hx
    split at hx
    · exact hx
    · exact hx

theorem Reached.attentive (h : Reached w) : Attentive w := by
  induction h with
  | start logging => exact ⟨World.sound_new logging, nofun⟩
  | @step w w' _ n step hs ih =>
    have hb := upheld_attentive.inner aloof_attentive
      (fun _ e h ↦ h.grown (h.sound.refl.addEvent e) rfl List.prefix_rfl) n
    have hp : (perform (inner n) step).Keeps Attentive :=
      upheld_attentive.perform hb (upheld_attentive.histories aloof_attentive hb) trivial
    exact (hp w ih).ended hs
  | forget _ events ih => exact ih.grown (ih.sound.grown_aside _ _ _ _) rfl List.prefix_rfl

/-- Whatever selections a dispatcher has been told to watch, and whatever has been selected in them
meanwhile: it is connected once to the selection it was last told to watch, and to no other. If that
one changes, the dispatcher captures what is selected then and adds that to its timeline, once. It
does the same when it is told to watch a selection, and at no other time. -/
theorem one_selection_recorded (h : Reached w) (hk : w.histories[k]? = some (j, t))
    {first : Option Nat} (hw : (w.dispatcher k).watched = first.map .selection) (hc : Calm w)
    (hb : ∀ x, Bystanders m j x (World.Untouched t) Calm) (hn : m + 4 ≤ n) {gs : List Gesture}
    (hg : ∀ g ∈ gs, g.selection < w.selections.length) :
    ∃ w', w.gestures n k gs = some w' ∧
      ((w'.links.filter fun l ↦ l.slot.taker? = some k).map fun l ↦ (l.source, l.signal)) =
        ((gs.foldl Gesture.watched first).toList.map fun x ↦ (.selection x, .selectionChanged)) ∧
      ∀ g : Gesture, g.selection < w.selections.length →
        ∃ w'', (g.run (inner n) k w').state? = some w'' ∧
          w'.Captured t g.selection (g.takers k w' w'') w'' ∧
          (g.takers k w' w'').count k =
            match g with
            | .watch _ => 1
            | .select x _ | .clear x =>
              if gs.foldl Gesture.watched first = some x ∧
                (w''.selection x).nodes ≠ (w'.selection x).nodes then 1 else 0 := by
  have hwatches : Watches k t first w := by
    refine ⟨h.sound, ⟨j, hk⟩, hw, fun x hx ↦ h.attentive.linked k x ?_⟩
    rw [hw, hx]
    rfl
  obtain ⟨w', hw', hlast, hgrown, hc'⟩ := hwatches.exists_gestures hc hb hn hg
  refine ⟨w', hw', hlast.links_eq, fun g hx ↦ ?_⟩
  have hx := Nat.lt_of_lt_of_le hx (hgrown.count (.selection 0))
  obtain ⟨w'', hw'', hleft⟩ := (hlast.gesture hc' hb hn hx).exists_ended
  refine ⟨w'', hw'', hleft.captured, ?_⟩
  cases g with
  | watch x => exact List.count_singleton_self
  | select x _ => exact hlast.count_due
  | clear x => exact hlast.count_due

/-- Two dispatchers, one of which watches the first of two selections, and a listener that always
fails. -/
def World.atrium : World :=
  (World.after {} 4 [.newDispatcher "near" .standard, .newDispatcher "far" .standard,
    .newSelection "left" (.list [.int 1]), .newSelection "right" (.list []),
    .listen "left" "selection_changed" [.fail .null] none, .watch "far" "left"]).get
      (by decide +kernel)

theorem World.reached_atrium : Reached atrium := .after (.start false) (Option.some_get _).symm

/-- A change of a selection that two dispatchers watch, one of them for the second time. -/
theorem one_selection_recorded_returned_to :
    let gs : List Gesture := [.watch 0, .select 0 (.list [.int 2, .int 1]), .watch 1, .clear 0,
      .select 1 (.list [.int 4]), .watch 0, .clear 0]
    let g : Gesture := .select 0 (.list [.int 3, .int 3])
    ∃ w w', World.atrium.gestures 4 0 gs = some w ∧ (g.run (inner 4) 0 w).state? = some w' ∧
      ((w.links.filter fun l ↦ l.slot.taker? = some 0).map fun l ↦ (l.source, l.signal)) =
        [(.selection 0, .selectionChanged)] ∧
      (w'.selection 0).nodes = [.int 3] ∧ w.Captured 0 0 (g.takers 0 w w') w' ∧
      (g.takers 0 w w').count 0 = 1 := by
  intro gs g
  have hk : World.atrium.histories[0]? = some (0, 0) := by decide +kernel
  have hfirst : (World.atrium.dispatcher 0).watched = Option.map .selection none := by
    decide +kernel
  have hsize : World.atrium.selections.length = 2 := by decide +kernel
  have hg : ∀ g ∈ gs, g.selection < World.atrium.selections.length := by
    rw [hsize]
    decide
  obtain ⟨w, hw, hlinks, hall⟩ := one_selection_recorded World.reached_atrium hk hfirst
    (by decide +kernel) (fun x ↦ bystanders_failing 0 x (World.untouched_framing 0).refl)
    (Nat.le_refl 4) hg
  obtain ⟨w', hw', hcaptured, hcount⟩ := hall g (by rw [hsize]; decide)
  have hseen : ((World.atrium.gestures 4 0 gs).bind fun w ↦
      (g.run (inner 4) 0 w).state?.map fun w' ↦ ((w.selection 0).nodes, (w'.selection 0).nodes)) =
      some ([], [.int 3]) := by decide +kernel
  rw [hw, Option.bind_some, hw'] at hseen
  obtain ⟨hbefore, hafter⟩ := Prod.mk.inj (Option.some.inj hseen)
  refine ⟨w, w', hw, hw', hlinks, hafter, hcaptured, ?_⟩
  rw [hcount]
  exact if_pos ⟨rfl, by rw [hbefore, hafter]; nofun⟩

end Session

end Rewind
