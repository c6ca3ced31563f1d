import Rewind.Proofs.Rig

namespace Rewind.Session

namespace Rig

/-- A rig that has kept in step since a world. -/
structure Tracks (r : Rig) (Calm : World → Prop) (v w : World) : Prop where
  follows : r.Follows w
  inStep : r.InStep w
  grown : v.Grown w
  calm : Calm w

/-- A rig that has kept in step since a world and has the entries that it had there. -/
structure Revisits (r : Rig) (Calm : World → Prop) (v w : World) : Prop
    extends r.Tracks Calm v w where
  entries : (w.timeline r.timeline).entries = (v.timeline r.timeline).entries

variable {r : Rig} {m n : Nat} {v w w' : World} {Calm : World → Prop}

theorem Tracks.refl (h : r.Tracks Calm v w) : r.Tracks Calm w w :=
  ⟨h.follows, h.inStep, h.follows.sound.refl, h.calm⟩

theorem Tracks.since (h : r.Tracks Calm w w') (hg : v.Grown w) : r.Tracks Calm v w' :=
  ⟨h.follows, h.inStep, hg.trans h.grown, h.calm⟩

theorem Tracks.of_spares (h : r.Tracks Calm v w) (hs : r.Spares w w') (hg : w.Grown w')
    (hc : Calm w') : r.Tracks Calm v w' :=
  ⟨h.follows.of_spares hs hg, h.inStep.of_spares hs hg, h.grown.trans hg, hc⟩

theorem Tracks.leads_spares (h : r.Tracks Calm v w) {code : Run World Unit}
    (hcode : r.Spares w w ∧ w.Grown w ∧ Calm w → code.Leads w
      (fun _ w' ↦ r.Spares w w' ∧ w.Grown w' ∧ Calm w') (fun _ _ ↦ False) False) :
    code.Leads w (fun _ ↦ r.Tracks Calm v) (fun _ ↦ r.Tracks Calm v) False := by
  refine (hcode ⟨spares_tolerant.refl w, h.follows.sound.refl, h.calm⟩).mono (fun _ w' ht ↦ ?_)
    (fun _ _ ht ↦ ht.elim)
  obtain ⟨hs, hg, hc⟩ := ht
  exact h.of_spares hs hg hc

theorem Tracks.event (h : r.Tracks Calm v w) (hb : Bystanders m r.journal r.selection r.Spares Calm)
    (e : Fault) : r.Tracks Calm v (w.addEvent (.slotFailed e)) :=
  h.of_spares (spares_tolerant.event _ _ rfl) (h.follows.sound.grown_aside _ _ _ _)
    (hb.stable h.calm (World.beside_of_eq rfl rfl rfl rfl List.prefix_rfl))

theorem leads_fire_own {b : Inner} (h : r.Follows w) {number : Nat} {signal : Signal}
    {arguments : List Answer} {Q : Unit → World → Prop} {E : Fault → World → Prop} {X : Prop} :
    (fireSlot b number signal (.capture r.dispatcher) arguments).Leads w Q E X ↔
      (recordCapture b r.timeline r.selection).Leads w Q E X := by
  have ht := (World.dispatcher_eq h.histories).2.2
  unfold fireSlot
  simp only [Run.leads_bind, Run.leads_get, h.watched, ht]

/-- Of those who hear of a selection, one is the dispatcher that follows it. -/
theorem Follows.exists_due (h : r.Follows w) : ∃ before own after,
    w.links.filter (fun l ↦ l.source = .selection r.selection ∧ l.signal = .selectionChanged) =
        before ++ own :: after ∧ own.slot = .capture r.dispatcher ∧
      ∀ l ∈ before ++ after, l ∈ w.links ∧ l.slot ≠ .capture r.dispatcher := by
  obtain ⟨own, hown, hs⟩ := h.linked
  obtain ⟨-, hw, hsig, -⟩ := h.sound.capture hown hs
  have hsrc : own.source = .selection r.selection := Option.some.inj (hw.symm.trans h.watched)
  have hmem : own ∈ w.links.filter fun l ↦
      l.source = .selection r.selection ∧ l.signal = .selectionChanged :=
    List.mem_filter.2 ⟨hown, decide_eq_true ⟨hsrc, hsig⟩⟩
  obtain ⟨before, after, hdue⟩ := List.append_of_mem hmem
  refine ⟨before, own, after, hdue, hs, fun l hl ↦ ⟨?_, fun hls ↦ ?_⟩⟩
  · have hm : l ∈ before ++ own :: after := by
      rcases List.mem_append.1 hl with hl | hl
      · exact List.mem_append_left _ hl
      · exact List.mem_append_right _ (List.mem_cons_of_mem _ hl)
    exact (List.mem_filter.1 (hdue ▸ hm)).1
  · -- No two slots capture for one dispatcher.
    have hsub : (before ++ own :: after).Sublist w.links := hdue ▸ List.filter_sublist
    have ho := h.sound.once.sublist hsub
    rw [List.pairwise_append, List.pairwise_cons] at ho
    rcases List.mem_append.1 hl with hl | hl
    · exact ho.2.2 l hl own List.mem_cons_self _ hls hs
    · exact ho.2.1.1 l hl _ hs hls

section Recording

variable (hb : Bystanders m r.journal r.selection r.Spares Calm)

include hb

/-- Unless it is restoring, the timeline is in step once it has recorded a capture, even if that
cannot be described. -/
theorem leads_record (hn : m + 3 ≤ n) (h : r.Follows w) (hc : Calm w)
    (hr : (w.timeline r.timeline).restoring = false) :
    (recordCapture (inner n) r.timeline r.selection).Leads w (fun _ ↦ r.Tracks Calm w)
      (fun _ ↦ r.Tracks Calm w) False := by
  let nodes := (w.selection r.selection).nodes
  let i := w.items.length
  let u := w.addItem (.capture ⟨none, .selection r.selection, nodes⟩)
  have hu : w.Grown u := h.sound.grown_item _
  have hi : u.Captures r.selection i nodes := by
    exact ⟨none, by simp [u, i, World.addItem], h.settled⟩
  obtain ⟨room, hroom⟩ := Option.isSome_iff_exists.1 h.room
  obtain ⟨ys, hys, htrim⟩ := Timeline.exists_trim_push hroom u.sameItem i
  let trimmed : Timeline Nat := { w.timeline r.timeline with
    entries := ys ++ [i]
    pointer := (ys ++ [i]).length - 1 }
  let z : World := { u with timelines := u.timelines.modify r.timeline fun _ ↦ trimmed }
  have hz : z.timeline r.timeline = trimmed := World.timeline_modify h.timeline_lt _
  have huz : u.Grown z := hu.sound.grown_timeline _ _
  have hcz : Calm z := hb.stable hc (World.beside_of_eq rfl rfl rfl rfl (List.prefix_append _ _))
  have hcaptures : ∀ k ∈ trimmed.entries, ∃ ns, z.Captures r.selection k ns := by
    intro k hk
    rcases List.mem_append.1 hk with hk | hk
    · obtain ⟨ns, hns⟩ := h.captures k (hys hk)
      exact ⟨ns, hns.grown (hu.trans huz)⟩
    · rw [List.mem_singleton.1 hk]
      exact ⟨nodes, hi.grown huz⟩
  have hfollows : r.Follows z := h.of_timeline (hu.trans huz) rfl rfl rfl hz hcaptures h.enabled
    h.room (.trim htrim)
  have hstep : r.InStep z := by
    refine ⟨hz ▸ hr, i, nodes, ?_, hi.grown huz, ?_⟩
    · rw [hz]
      exact Timeline.current_of_last rfl rfl
    · exact (Value.sameItems_iff h.settled.hashable _).2 rfl
  have htracks : r.Tracks Calm w z := ⟨hfollows, hstep, hu.trans huz, hcz⟩
  unfold recordCapture
  rw [Run.leads_bind, Run.leads_get, Run.leads_bind, Run.leads_modify]
  apply (Timeline.Host.leads_add_recorded h.enabled hr).2
  have hpush : World.timeline ((timelineHost (inner n) r.timeline).update (·.push u.sameItem i) u)
      r.timeline = (w.timeline r.timeline).push u.sameItem i :=
    World.timeline_modify h.timeline_lt _
  apply (Run.leads_lift_ok (by rw [← htrim, ← hpush]; rfl)).2
  rw [update_timelineHost]
  refine (hb.aside spares_tolerant z).leads_reportTimeline hn
    ⟨spares_tolerant.refl z, huz.sound.refl, hcz⟩ (fun w' hw' ↦ ?_) fun _ _ ↦ htracks
  obtain ⟨hs, hg, hc'⟩ := hw'
  exact htracks.of_spares hs hg hc'

/-- While the timeline is restoring, it makes no difference to it what is selected. -/
theorem leads_changed_restoring (hn : m + 4 ≤ n) (h : r.Follows w) (hc : Calm w)
    (hr : (w.timeline r.timeline).restoring = true) :
    (announce (inner n) (.selection r.selection) .selectionChanged []).Leads w
      (fun _ w' ↦ r.Spares w w' ∧ w.Grown w' ∧ Calm w') (fun _ _ ↦ False) False := by
  obtain ⟨n, rfl⟩ : ∃ k, n = k + 1 := ⟨n - 1, by omega⟩
  have ha := hb.aside spares_tolerant w
  refine leads_announce (fun _ e ↦ ha.event _ rfl) ⟨spares_tolerant.refl w, h.sound.refl, hc⟩
    fun l hl _ _ ↦ ?_
  by_cases hs : l.slot = .capture r.dispatcher
  · intro u hu
    have hf := h.of_spares hu.1 hu.2.1
    obtain ⟨limit, hlimit⟩ := hu.1.same.timeline
    show (fireSlot (inner n) l.number .selectionChanged l.slot []).Leads u _ _ _
    rw [hs]
    refine (leads_fire_own hf).2 (ha.leads_record_restoring hu hf.enabled ?_)
    rw [hlimit]
    exact hr
  · exact ha.fire_other (by omega) _ _ _ fun k hk v hv ↦ h.elsewhere hl hs hk hv.2.1

theorem leads_notify_others (hn : m + 3 ≤ n) (hw : w.Sound) (hc : Calm w) {links : List Link}
    (hl : ∀ l ∈ links, ∀ k, l.slot = .capture k → ∀ u, w.Grown u →
      (u.dispatcher k).timeline ≠ r.timeline) :
    (Run.each links (notify (inner (n + 1)) .selectionChanged [])).Leads w
      (fun _ w' ↦ r.Spares w w' ∧ w.Grown w' ∧ Calm w') (fun _ _ ↦ False) False := by
  have ha := hb.aside spares_tolerant w
  refine Run.leads_each (I := fun w' ↦ r.Spares w w' ∧ w.Grown w' ∧ Calm w')
    ⟨spares_tolerant.refl w, hw.refl, hc⟩ fun l hm u hu ↦ ?_
  refine leads_notify (fun _ e ↦ ha.event _ rfl) hu (ha.fire_other hn _ _ _ fun k hk v hv ↦ ?_)
  exact hl l hm k hk v hv.2.1

/-- Once what is selected has changed, the timeline is in step with it again. -/
theorem leads_changed (hn : m + 4 ≤ n) (h : r.Follows w) (hc : Calm w)
    (hr : (w.timeline r.timeline).restoring = false) :
    (announce (inner n) (.selection r.selection) .selectionChanged []).Leads w
      (fun _ ↦ r.Tracks Calm w) (fun _ _ ↦ False) False := by
  obtain ⟨n, rfl⟩ : ∃ k, n = k + 1 := ⟨n - 1, by omega⟩
  obtain ⟨before, own, after, hdue, hs, hothers⟩ := h.exists_due
  have hother (l : Link) (hl : l ∈ before ++ after) (k : Nat) (hk : l.slot = .capture k) (u : World)
      (hg : w.Grown u) : (u.dispatcher k).timeline ≠ r.timeline :=
    h.elsewhere (hothers l hl).1 (hothers l hl).2 hk hg
  rw [leads_announce_eq, hdue, Run.each_append, Run.leads_bind]
  have hbefore := leads_notify_others hb (n := n) (by omega) h.sound hc fun l hl ↦
    hother l (List.mem_append_left after hl)
  refine hbefore.mono (fun _ u hu ↦ ?_) (fun _ _ h ↦ h)
  obtain ⟨hspares, hg, hcu⟩ := hu
  have hfu := h.of_spares hspares hg
  have hown : (notify (inner (n + 1)) .selectionChanged [] own).Leads u
      (fun _ ↦ r.Tracks Calm u) (fun _ _ ↦ False) False := by
    have hlinked : own ∈ u.links := by
      refine hspares.links own ?_ hs
      exact (List.mem_filter.1 (hdue ▸ List.mem_append_right before List.mem_cons_self)).1
    have hconn : u.isConnected own.number = true :=
      List.any_eq_true.2 ⟨own, hlinked, beq_self_eq_true _⟩
    have hru : (u.timeline r.timeline).restoring = false := by
      obtain ⟨limit, hlimit⟩ := hspares.same.timeline
      rw [hlimit]
      exact hr
    unfold notify
    rw [Run.leads_bind, Run.leads_get, if_pos hconn, Run.leads_recover]
    show (fireSlot (inner n) own.number .selectionChanged own.slot []).Leads u _ _ _
    rw [hs]
    apply (leads_fire_own hfu).2
    exact (leads_record hb (by omega) hfu hcu hru).mono (fun _ _ h ↦ h) fun e _ h ↦ h.event hb e
  show (notify (inner (n + 1)) .selectionChanged [] own >>= fun _ ↦
    Run.each after (notify (inner (n + 1)) .selectionChanged [])).Leads u _ _ _
  rw [Run.leads_bind]
  refine hown.mono (fun _ z hz ↦ ?_) (fun _ _ h ↦ h)
  have hz := hz.since hg
  have hafter := leads_notify_others hb (n := n) (by omega) hz.follows.sound hz.calm
    fun l hl k hk v hv ↦ hother l (List.mem_append_right before hl) k hk v (hz.grown.trans hv)
  exact hafter.mono (fun _ _ hu ↦ hz.of_spares hu.1 hu.2.1 hu.2.2) (fun _ _ h ↦ h)

end Recording

section Operations

variable (hb : Bystanders m r.journal r.selection r.Spares Calm)

include hb

theorem select_tracks (hn : m + 4 ≤ n) (nodes : List Value) :
    (select (inner n) r.selection nodes).Keeps (r.Tracks Calm v) False := by
  intro w h
  refine leads_select.2 ⟨fun _ _ ↦ h, fun _ ↦ h, fun s hs ↦ ?_⟩
  have hs := Value.settled_of_distinct (distinct_of_select hs)
  have hset := h.follows.sound.grown_selection r.selection hs
  have hc := hb.stable h.calm (World.beside_selection s)
  refine (leads_changed hb hn (h.follows.select hs) hc h.inStep.1).mono (fun _ _ ht ↦ ?_)
    (fun _ _ ht ↦ ht.elim)
  exact ht.since (h.grown.trans hset)

/-- A capture that is restored is selected, and the timeline records nothing meanwhile. -/
theorem leads_restore (hn : m + 5 ≤ n) (h : r.Follows w) (hc : Calm w)
    (hr : (w.timeline r.timeline).restoring = true) {i : Nat} {nodes : List Value}
    (hi : w.Captures r.selection i nodes) :
    ((inner n).call .restore i).Leads w
      (fun _ w' ↦ r.Follows w' ∧ w.SameTimeline r.timeline w' ∧ w.Grown w' ∧ Calm w' ∧
        Value.sameItems nodes (w'.selection r.selection).nodes = true)
      (fun _ _ ↦ False) False := by
  obtain ⟨n, rfl⟩ : ∃ k, n = k + 1 := ⟨n - 1, by omega⟩
  obtain ⟨name, hi, hsettled⟩ := hi
  have hsel := select?_of_distinct (s := w.selection r.selection) hsettled.distinct_eq
  show (callItem (inner n) .restore i).Leads w _ _ _
  unfold callItem
  simp only [Run.leads_bind, Run.leads_get, hi, selectIn]
  refine leads_select.2 ⟨fun e he ↦ ?_, fun he ↦ ?_, fun s he ↦ ?_⟩
  · rw [hsel] at he
    cases he
  · refine ⟨h, .of_eq rfl, h.sound.refl, hc, ?_⟩
    rw [hsel] at he
    split at he
    · assumption
    · cases he
  · obtain rfl : s = ⟨nodes⟩ := by
      rw [hsel] at he
      split at he
      · cases he
      · cases he
        rfl
    have hset := h.sound.grown_selection r.selection (s := ⟨nodes⟩) hsettled
    have hf := h.select (s := ⟨nodes⟩) hsettled
    refine (leads_changed_restoring hb (by omega) hf (hb.stable hc (World.beside_selection _))
      hr).mono (fun _ w' hw' ↦ ?_) (fun _ _ h ↦ h)
    obtain ⟨hs, hg, hc'⟩ := hw'
    have hsame : w.SameTimeline r.timeline
      { w with selections := w.selections.set r.selection ⟨nodes⟩ } := .of_eq rfl
    refine ⟨hf.of_spares hs hg, hsame.trans hs.same, hset.trans hg, hc', ?_⟩
    rw [hs.selection, World.selection_set h.selection]
    exact (Value.sameItems_iff hsettled.hashable _).2 rfl

theorem leads_moveTo (hn : m + 5 ≤ n) (h : r.Follows w) (hc : Calm w)
    (hr : (w.timeline r.timeline).restoring = false) {p : Int} {i : Nat}
    (hp0 : 0 ≤ p) (hp : p < (w.timeline r.timeline).entries.length)
    (hi : Position.item? (w.timeline r.timeline).entries p = some i) :
    ((timelineHost (inner n) r.timeline).moveTo p).Leads w
      (fun _ ↦ r.Revisits Calm w) (fun _ ↦ r.Revisits Calm w) False := by
  have hmem := Position.mem_of_item? hi
  have hrange : Timeline.InRange { w.timeline r.timeline with pointer := p } := by
    rw [Timeline.InRange, if_neg (List.ne_nil_of_mem hmem)]
    exact ⟨hp0, hp⟩
  let v : World := { w with
    timelines := w.timelines.modify r.timeline ({ · with restoring := true }) }
  have hv : v.timeline r.timeline = { w.timeline r.timeline with restoring := true } :=
    World.timeline_modify h.timeline_lt _
  have hwv : w.Grown v := h.sound.grown_timeline _ _
  have hcaptures {z : World} (hz : w.Grown z) {k : Nat}
      (hk : k ∈ (w.timeline r.timeline).entries) : ∃ ns, z.Captures r.selection k ns := by
    obtain ⟨ns, hns⟩ := h.captures k hk
    exact ⟨ns, hns.grown hz⟩
  have hfv : r.Follows v := h.of_timeline hwv rfl rfl rfl hv (fun _ ↦ hcaptures hwv) h.enabled
    h.room h.inRange
  have hcv : Calm v := hb.stable hc (World.beside_of_eq rfl rfl rfl rfl List.prefix_rfl)
  obtain ⟨nodes, hnodes⟩ := hcaptures hwv hmem
  refine Timeline.Host.leads_moveTo (fun hn ↦ ?_) fun k hk ↦ ?_
  · cases hi.symm.trans hn
  obtain rfl : i = k := Option.some.inj (hi.symm.trans hk)
  refine (leads_restore hb hn hfv hcv (by rw [hv]) hnodes).mono (fun _ t ht ↦ ?_)
    (fun _ _ h ↦ h.elim)
  obtain ⟨hft, hsame, hvt, hct, hlive⟩ := ht
  obtain ⟨limit, hlimit⟩ := hsame.timeline
  have hroom := hsame.room (hv ▸ h.room)
  rw [hlimit] at hroom
  let settled (t : Timeline Nat) : Timeline Nat := { t with restoring := false, pointer := p }
  let z : World := { t with timelines := t.timelines.modify r.timeline settled }
  have hz : z.timeline r.timeline = { w.timeline r.timeline with limit, pointer := p } := by
    rw [World.timeline_modify hft.timeline_lt, hlimit, hv]
    simp [settled, hr]
  have htz : t.Grown z := hft.sound.grown_timeline _ _
  have hwz := (hwv.trans hvt).trans htz
  have hfz : r.Follows z := hft.of_timeline htz rfl rfl rfl hz (fun _ ↦ hcaptures hwz) h.enabled
    hroom hrange
  have hcz : Calm z := hb.stable hct (World.beside_of_eq rfl rfl rfl rfl List.prefix_rfl)
  have hnz := (hnodes.grown hvt).grown htz
  have hstep : r.InStep z := by
    refine ⟨hz ▸ hr, i, nodes, ?_, hnz, hlive⟩
    rw [hz]
    exact Timeline.current_of_item hi rfl
  have htracks : r.Tracks Calm w z := ⟨hfz, hstep, hwz, hcz⟩
  simp only [Timeline.Host.settle, Run.leads_bind, Timeline.Host.leads_change,
    Timeline.Host.leads_look, update_timelineHost]
  refine (hb.aside spares_tolerant z).leads_reportTimeline (by omega)
    ⟨spares_tolerant.refl z, hfz.sound.refl, hcz⟩ (fun w' hw' ↦ ?_) fun _ _ ↦ ⟨htracks, by rw [hz]⟩
  obtain ⟨hs, hg, hc'⟩ := hw'
  obtain ⟨limit', hlimit'⟩ := hs.same.timeline
  refine ⟨htracks.of_spares hs hg hc', ?_⟩
  rw [hlimit', hz]

/-- Undoing and redoing with the timeline keeps it in step and leaves its entries alone. -/
theorem leads_timeline (hn : m + 5 ≤ n) (h : r.Tracks Calm v w) :
    (timelineHost (inner n) r.timeline).undo.Leads w (fun _ ↦ r.Revisits Calm w)
      (fun _ ↦ r.Revisits Calm w) False ∧
    (timelineHost (inner n) r.timeline).redo.Leads w (fun _ ↦ r.Revisits Calm w)
      (fun _ ↦ r.Revisits Calm w) False := by
  have hmove {p : Int} (hp0 : 0 ≤ p) (hp : p < (w.timeline r.timeline).entries.length) :
      ((timelineHost (inner n) r.timeline).moveTo p).Leads w (fun _ ↦ r.Revisits Calm w)
        (fun _ ↦ r.Revisits Calm w) False := by
    obtain ⟨i, -, hi⟩ := Position.exists_item? hp0 hp
    exact leads_moveTo hb hn h.follows h.calm h.inStep.1 hp0 hp hi
  have hrange := h.follows.inRange
  unfold Timeline.InRange at hrange
  constructor
  · refine Timeline.Host.leads_undo (fun _ ↦ ⟨h.refl, rfl⟩) fun he hp ↦ ?_
    have he : (w.timeline r.timeline).entries ≠ [] := List.isEmpty_eq_false_iff.1 he
    have hp : (w.timeline r.timeline).pointer ≠ 0 := hp
    rw [if_neg he] at hrange
    exact hmove (p := (w.timeline r.timeline).pointer - 1) (by omega) (by omega)
  · refine Timeline.Host.leads_redo (fun _ ↦ ⟨h.refl, rfl⟩) fun hp ↦ ?_
    have hp : (w.timeline r.timeline).pointer ≠ (w.timeline r.timeline).entries.length - 1 := hp
    split at hrange
    · rename_i he
      rw [he, hrange] at hp
      exact absurd rfl hp
    · exact hmove (p := (w.timeline r.timeline).pointer + 1) (by omega) (by omega)

/-- The changes of the selection that the journal records, undoes and redoes keep the timeline in
step. -/
theorem journal_steady (hn : m + 3 ≤ n) :
    (journalHost (inner n) r.journal).Steady (v.Alters r.selection) (r.Tracks Calm v) False where
  update f w h hf := by
    have hg := h.follows.sound.grown_journal r.journal f
    have hc := hb.stable h.calm (World.beside_journal f)
    refine ⟨⟨⟨hg.sound, h.follows.histories, h.follows.selection, fun i hi ↦ ?_,
      h.follows.captures, h.follows.enabled, h.follows.room, h.follows.inRange⟩, h.follows.watched,
      h.follows.linked⟩, h.inStep, h.grown.trans hg, hc⟩
    have hi : i ∈ (f (w.journal r.journal)).entries := by
      rwa [← World.journal_modify h.follows.journal_lt f]
    rcases hf i hi with hi | hi
    · exact h.follows.changes i hi
    · exact hi.grown (h.grown.trans hg)
  announce notice w h := by
    rw [announce_journalHost]
    exact h.leads_spares ((hb.aside spares_tolerant w).leads_announceJournal hn r.journal notice)
  log remark w h := h.leads_spares ((hb.aside spares_tolerant w).leads_log remark.text)

theorem leads_call_change (hn : m + 5 ≤ n) (h : r.Tracks Calm v w) {i : Nat}
    (hi : w.Alters r.selection i) {way : Way} (hw : way = .undo ∨ way = .redo) :
    ((inner n).call way i).Leads w (fun _ ↦ r.Tracks Calm v) (fun _ ↦ r.Tracks Calm v) False := by
  obtain ⟨n, rfl⟩ : ∃ k, n = k + 1 := ⟨n - 1, by omega⟩
  obtain ⟨c, hi, hsel⟩ := hi
  show (callItem (inner n) way i).Leads w _ _ _
  unfold callItem
  rcases hw with rfl | rfl
  · simp only [Run.leads_bind, Run.leads_get, hi, hsel, selectIn]
    exact select_tracks hb (by omega) _ w h
  · simp only [Run.leads_bind, Run.leads_get, hi, hsel, selectIn]
    exact select_tracks hb (by omega) _ w h

theorem journal_undo_tracks (hn : m + 5 ≤ n) :
    (journalHost (inner n) r.journal).undo.Keeps (r.Tracks Calm v) False := by
  have hs := journal_steady (v := v) hb (n := n) (by omega)
  refine hs.undo fun w i code h hi hcode ↦ ?_
  rw [eq_call_of_map hcode]
  exact leads_call_change hb hn (hs.update _ w h fun _ ↦ .inl) (h.follows.changes i hi) (.inl rfl)

theorem journal_redo_tracks (hn : m + 5 ≤ n) :
    (journalHost (inner n) r.journal).redo.Keeps (r.Tracks Calm v) False := by
  have hs := journal_steady (v := v) hb (n := n) (by omega)
  refine hs.redo fun w i code h hi hcode ↦ ?_
  rw [eq_call_of_map hcode]
  exact leads_call_change hb hn (hs.update _ w h fun _ ↦ .inl) (h.follows.changes i hi) (.inr rfl)

theorem dispatch_tracks (hn : m + 5 ≤ n) :
    (dispatchUndo (inner n) r.dispatcher).Keeps (r.Tracks Calm v) False ∧
    (dispatchRedo (inner n) r.dispatcher).Keeps (r.Tracks Calm v) False := by
  constructor
  · refine .get_bind fun w h ↦ ?_
    obtain ⟨-, hj, ht⟩ := World.dispatcher_eq h.follows.histories
    split
    · exact h
    · rw [Run.leads_bind, Run.leads_get]
      dsimp only
      rw [hj, ht]
      split
      · rw [Run.leads_bind]
        exact (leads_timeline hb hn h).1.mono (fun _ _ hu ↦ hu.since h.grown)
          (fun _ _ hu ↦ hu.since h.grown)
      · rw [Run.leads_bind]
        exact journal_undo_tracks hb hn w h
  · refine .get_bind fun w h ↦ ?_
    obtain ⟨-, hj, ht⟩ := World.dispatcher_eq h.follows.histories
    split
    · exact h
    · rw [Run.leads_bind, Run.leads_get]
      dsimp only
      rw [hj, ht]
      split
      · rw [Run.leads_bind]
        exact (leads_timeline hb hn h).2.mono (fun _ _ hu ↦ hu.since h.grown)
          (fun _ _ hu ↦ hu.since h.grown)
      · rw [Run.leads_bind]
        exact journal_redo_tracks hb hn w h

theorem shortcut_tracks (hn : m + 5 ≤ n) (key : Value) :
    (shortcut (inner n) r.dispatcher key).Keeps (r.Tracks Calm v) False := by
  unfold shortcut
  split
  · exact .bind (dispatch_tracks hb hn).1 fun _ ↦ .pure _
  · split
    · exact .bind (dispatch_tracks hb hn).2 fun _ ↦ .pure _
    · exact .pure _

theorem setMode_tracks (hn : m + 2 ≤ n) (mode : Value) :
    (setMode (inner n) r.dispatcher mode).Keeps (r.Tracks Calm v) False := by
  have hannounce (signal : Signal) (arguments : List Answer) :
      (announce (inner n) (.dispatcher r.dispatcher) signal arguments).Keeps (r.Tracks Calm v)
        False := fun w h ↦ h.leads_spares
    ((hb.aside spares_tolerant w).leads_announce_outer hn (fun _ ↦ rfl) ⟨r.dispatcher, .inr rfl⟩)
  have hlog (t : Text) : (log t).Keeps (r.Tracks Calm v) False := fun w h ↦
    h.leads_spares ((hb.aside spares_tolerant w).leads_log t)
  unfold setMode
  cases Mode.ofValue? mode with
  | none => exact .raise _
  | some mode =>
    refine .bind (fun _ h ↦ h) fun w ↦ ?_
    dsimp only
    split
    · exact .pure _
    · refine .bind (.modify fun w h ↦ ?_) fun _ ↦ .bind (hlog _) fun _ ↦ ?_
      · have hg := h.follows.sound.grown_setMode r.dispatcher (.text mode.text)
        refine ⟨⟨⟨hg.sound, hg.histories_eq h.follows.histories, h.follows.selection,
          h.follows.changes, h.follows.captures, h.follows.enabled, h.follows.room,
          h.follows.inRange⟩, ?_, h.follows.linked⟩, h.inStep, h.grown.trans hg,
          hb.stable h.calm (World.beside_of_eq rfl rfl rfl rfl List.prefix_rfl)⟩
        rw [← h.follows.watched]
        have hk := (World.dispatcher_eq h.follows.histories).1
        simp [World.dispatcher, List.getElem?_eq_getElem hk]
      · exact .bind (hannounce _ _) fun _ ↦ .bind (fun _ h ↦ h) fun _ ↦ hannounce _ _

/-- A dispatcher that is told to watch a selection is in step with it at once. -/
theorem leads_watch_tracks (hn : m + 3 ≤ n) (h : r.Ready w) (hc : Calm w)
    (hr : (w.timeline r.timeline).restoring = false)
    (hw : ∀ o, (w.dispatcher r.dispatcher).watched = some o → o = .selection r.selection) :
    (watch (inner n) r.dispatcher (.selection r.selection)).Leads w (fun _ ↦ r.Tracks Calm w)
      (fun _ ↦ r.Tracks Calm w) False := by
  obtain ⟨hk, -, ht⟩ := World.dispatcher_eq h.histories
  let z := (w.unwatch r.dispatcher (.selection r.selection)).connect (.selection r.selection)
    .selectionChanged (.capture r.dispatcher)
  have hwz : w.Grown z := h.sound.grown_rewatch hk r.selection
  have hwatched : (z.dispatcher r.dispatcher).watched = some (.selection r.selection) :=
    World.watched_unwatch hk
  have hf : r.Follows z := by
    refine ⟨⟨hwz.sound, hwz.histories_eq h.histories, h.selection, h.changes, h.captures,
      h.enabled, h.room, h.inRange⟩, hwatched, _, List.mem_append_right _ List.mem_cons_self, rfl⟩
  have hcz : Calm z := hb.stable hc World.beside_rewatch
  refine leads_watch.2 ⟨fun o ho e he ↦ ?_, fun _ ↦ ?_⟩
  · rw [hw o ho] at he
    cases he
  · unfold rewatch
    have hx : changesOf (.selection r.selection) = .ok r.selection := rfl
    rw [Run.leads_bind, Run.leads_modify, Run.leads_bind, Run.leads_lift_ok hx, Run.leads_bind,
      Run.leads_modify, ht]
    exact (leads_record hb hn hf hcz hr).mono (fun _ _ h ↦ h.since hwz) fun _ _ h ↦ h.since hwz

end Operations

end Rig

/-- What is done with a rig, or aside from it. -/
inductive Deed where
  | select (nodes : Value)
  | clear
  | watch
  | commit (item : Nat)
  | undo
  | redo
  | shortcut (key : Value)
  | setMode (mode : Value)
  | journalUndo
  | journalRedo
  | timelineUndo
  | timelineRedo
  | aside (step : Step)

namespace Deed

def run (b : Inner) (r : Rig) : Deed → Run World Unit
  | select nodes => do Session.select b r.selection (← Run.lift nodes.members)
  | clear => Session.select b r.selection []
  | watch => Session.watch b r.dispatcher (.selection r.selection)
  | commit item => do (journalHost b ((← Run.get).dispatcher r.dispatcher).journal).add item
  | undo => do let _ ← dispatchUndo b r.dispatcher
  | redo => do let _ ← dispatchRedo b r.dispatcher
  | shortcut key => do let _ ← Session.shortcut b r.dispatcher key
  | setMode mode => Session.setMode b r.dispatcher mode
  | journalUndo => (journalHost b r.journal).undo
  | journalRedo => (journalHost b r.journal).redo
  | timelineUndo => (timelineHost b r.timeline).undo
  | timelineRedo => (timelineHost b r.timeline).redo
  | aside step => do let _ ← perform b step

/-- Nothing but changes of the selection is committed, and what is done aside spares the rig. -/
def Allowed (n : Nat) (r : Rig) (Calm : World → Prop) (w : World) : Deed → Prop
  | commit item => w.Alters r.selection item
  | aside step => (perform (inner n) step).Leads w (fun _ w' ↦ r.Spares w w' ∧ Calm w')
      (fun _ w' ↦ r.Spares w w' ∧ Calm w') False
  | _ => True

end Deed

/-- The worlds that any deeds lead to, from when the dispatcher is told to watch the selection. A
deed that fails does not stop the others. -/
inductive Rig.Driven (n : Nat) (r : Rig) (Calm : World → Prop) (start : World) : World → Prop where
  | watch {w : World}
    (hw : (Session.watch (inner n) r.dispatcher (.selection r.selection) start).state? = some w) :
    Driven n r Calm start w
  | deed {w w' : World} (h : Driven n r Calm start w) {a : Deed} (ha : a.Allowed n r Calm w)
    (hw : (a.run (inner n) r w).state? = some w') : Driven n r Calm start w'

section Deeds

variable {r : Rig} {m n : Nat} {v w w' : World} {Calm : World → Prop}

theorem Rig.Tracks.leads_deed (h : r.Tracks Calm v w)
    (hb : Bystanders m r.journal r.selection r.Spares Calm) (hn : m + 5 ≤ n) {a : Deed}
    (ha : a.Allowed n r Calm w) :
    (a.run (inner n) r).Leads w (fun _ ↦ r.Tracks Calm v) (fun _ ↦ r.Tracks Calm v) False := by
  have hsteady := Rig.journal_steady hb (v := w) (n := n) (by omega)
  have hsince {code : Run World Unit}
      (hc : code.Leads w (fun _ ↦ r.Tracks Calm w) (fun _ ↦ r.Tracks Calm w) False) :
      code.Leads w (fun _ ↦ r.Tracks Calm v) (fun _ ↦ r.Tracks Calm v) False :=
    hc.mono (fun _ _ ht ↦ ht.since h.grown) (fun _ _ ht ↦ ht.since h.grown)
  cases a with
  | select nodes =>
    exact Run.Keeps.bind (.lift _) (fun _ ↦ Rig.select_tracks hb (by omega) _) w h
  | clear => exact Rig.select_tracks hb (by omega) [] w h
  | watch =>
    refine (Rig.leads_watch_tracks hb (by omega) h.follows.toReady h.calm h.inStep.1
      fun o ho ↦ ?_).mono (fun _ _ ht ↦ ht.since h.grown) (fun _ _ ht ↦ ht.since h.grown)
    rw [h.follows.watched] at ho
    exact (Option.some.inj ho).symm
  | commit item =>
    show (journalHost (inner n) (w.dispatcher r.dispatcher).journal |>.add item).Leads w _ _ _
    rw [(World.dispatcher_eq h.follows.histories).2.1]
    exact hsince (hsteady.add ha w h.refl)
  | undo => exact Run.Keeps.bind (Rig.dispatch_tracks hb hn).1 (fun _ ↦ .pure _) w h
  | redo => exact Run.Keeps.bind (Rig.dispatch_tracks hb hn).2 (fun _ ↦ .pure _) w h
  | shortcut key => exact Run.Keeps.bind (Rig.shortcut_tracks hb hn key) (fun _ ↦ .pure _) w h
  | setMode mode => exact Rig.setMode_tracks hb (by omega) mode w h
  | journalUndo => exact Rig.journal_undo_tracks hb hn w h
  | journalRedo => exact Rig.journal_redo_tracks hb hn w h
  | timelineUndo =>
    exact (Rig.leads_timeline hb hn h).1.mono (fun _ _ ht ↦ ht.since h.grown)
      (fun _ _ ht ↦ ht.since h.grown)
  | timelineRedo =>
    exact (Rig.leads_timeline hb hn h).2.mono (fun _ _ ht ↦ ht.since h.grown)
      (fun _ _ ht ↦ ht.since h.grown)
  | aside step =>
    have hg := perform_grows (inner_grows w n) step w h.follows.sound.refl
    show (perform (inner n) step >>= fun _ ↦ Pure.pure ()).Leads w _ _ _
    rw [Run.leads_bind]
    exact (hg.and ha).mono (fun _ _ ht ↦ h.of_spares ht.2.1 ht.1 ht.2.2)
      (fun _ _ ht ↦ h.of_spares ht.2.1 ht.1 ht.2.2)

theorem Rig.Driven.tracks (h : r.Driven n Calm v w) (hv : r.Ready v) (hc : Calm v)
    (hr : (v.timeline r.timeline).restoring = false)
    (hw : ∀ o, (v.dispatcher r.dispatcher).watched = some o → o = .selection r.selection)
    (hb : Bystanders m r.journal r.selection r.Spares Calm) (hn : m + 5 ≤ n) :
    r.Tracks Calm v w := by
  induction h with
  | watch hwatch => exact (Rig.leads_watch_tracks hb (by omega) hv hc hr hw).ended hwatch
  | deed _ ha hdeed ih => exact (ih.leads_deed hb hn ha).ended hdeed

/-- From when a new dispatcher is told to watch a selection, whatever is done with it, with its
histories and with the selection, in whatever order and whether it fails or not: what its timeline
holds to be current is what is selected. To undo and redo with the timeline itself neither adds,
drops nor replaces what it has recorded. -/
theorem selection_followed (h : Reached w) {mode limit limit' : Value}
    (hd : w.dispatchers[r.dispatcher]? = some ⟨mode, r.journal, r.timeline, none⟩)
    (hj : w.journal r.journal = { limit := limit' }) (ht : w.timeline r.timeline = { limit })
    (hl : limit.room?.isSome) (hx : r.selection < w.selections.length) (hc : Calm w)
    (hb : Bystanders m r.journal r.selection r.Spares Calm) (hn : m + 5 ≤ n) :
    (∃ w', (watch (inner n) r.dispatcher (.selection r.selection) w).state? = some w') ∧
    ∀ w', r.Driven n Calm w w' →
      (∃ i nodes, (w'.timeline r.timeline).current = .ok (some i) ∧
        w'.capturedNodes i = .ok nodes ∧
        Value.sameItems nodes (w'.selection r.selection).nodes = true) ∧
      (∀ a : Deed, a.Allowed n r Calm w' → ∃ u, (a.run (inner n) r w').state? = some u) ∧
      ∀ code, code = (timelineHost (inner n) r.timeline).undo ∨
          code = (timelineHost (inner n) r.timeline).redo →
        ∃ u, (code w').state? = some u ∧
          (u.timeline r.timeline).entries = (w'.timeline r.timeline).entries ∧
          ∀ i ∈ (w'.timeline r.timeline).entries, u.items[i]? = w'.items[i]? := by
  have hdispatcher : w.dispatcher r.dispatcher = ⟨mode, r.journal, r.timeline, none⟩ := by
    simp [World.dispatcher, hd]
  have hready : r.Ready w := by
    refine ⟨h.sound, ?_, hx, ?_, ?_, ?_, ?_, ?_⟩
    · rw [World.histories, List.getElem?_map, hd]
      rfl
    · rw [hj]
      exact fun _ hi ↦ absurd hi List.not_mem_nil
    all_goals rw [ht]
    · exact fun _ hi ↦ absurd hi List.not_mem_nil
    · rfl
    · exact hl
    · rfl
  have hidle : (w.timeline r.timeline).restoring = false := by rw [ht]
  have hnone (o : Object) (ho : (w.dispatcher r.dispatcher).watched = some o) :
      o = .selection r.selection := by
    rw [hdispatcher] at ho
    cases ho
  constructor
  · have hwatch := Rig.leads_watch_tracks hb (n := n) (by omega) hready hc hidle hnone
    obtain ⟨w', hw', -⟩ := hwatch.exists_ended
    exact ⟨w', hw'⟩
  intro w' hw'
  have htracks := hw'.tracks hready hc hidle hnone hb hn
  refine ⟨?_, fun a ha ↦ ?_, fun code hcode ↦ ?_⟩
  · obtain ⟨-, i, nodes, hi, hcaptures, hs⟩ := htracks.inStep
    exact ⟨i, nodes, hi, hcaptures.capturedNodes, hs⟩
  · obtain ⟨u, hu, -⟩ := (htracks.leads_deed hb hn ha).exists_ended
    exact ⟨u, hu⟩
  · have hcode : code.Leads w' (fun _ ↦ r.Revisits Calm w') (fun _ ↦ r.Revisits Calm w')
        False := by
      rcases hcode with rfl | rfl
      · exact (Rig.leads_timeline hb hn htracks).1
      · exact (Rig.leads_timeline hb hn htracks).2
    obtain ⟨u, hu, ht⟩ := hcode.exists_ended
    refine ⟨u, hu, ht.entries, fun i hi ↦ ?_⟩
    obtain ⟨nodes, name, hi, -⟩ := htracks.follows.captures i hi
    rw [hi, ht.grown.capture hi]

instance (w : World) (x i : Nat) : Decidable (w.Alters x i) :=
  decidable_of_iff (w.items[i]?.any fun
    | .change c => decide (c.selection = .selection x)
    | _ => false) <| by
      unfold World.Alters
      cases w.items[i]? with
      | none => simp
      | some item => cases item <;> simp

def Deed.permitted (r : Rig) (w : World) : Deed → Bool
  | commit item => w.Alters r.selection item
  | aside _ => false
  | _ => true

theorem Deed.allowed_of_permitted {a : Deed} (h : a.permitted r w = true) :
    a.Allowed n r Calm w := by
  cases a with
  | commit item => exact (decide_eq_true_iff (p := w.Alters r.selection item)).1 h
  | aside step => cases h
  | select | clear | watch | undo | redo | shortcut | setMode | journalUndo | journalRedo
    | timelineUndo | timelineRedo => trivial

def Rig.drive (n : Nat) (r : Rig) (w : World) (as : List Deed) : Option World :=
  as.foldlM (fun w a ↦ if a.permitted r w then (a.run (inner n) r w).state? else none) w

theorem Rig.Driven.drive (h : r.Driven n Calm v w) {as : List Deed}
    (hw : r.drive n w as = some w') : r.Driven n Calm v w' := by
  induction as generalizing w with
  | nil =>
    cases hw
    exact h
  | cons a as ih =>
    obtain ⟨u, hu, hw⟩ := Option.bind_eq_some_iff.1 ((List.foldlM_cons ..).symm.trans hw)
    split at hu
    · rename_i ha
      exact ih (.deed h (Deed.allowed_of_permitted ha) hu) hw
    · cases hu

/-- A dispatcher with room for two captures, a selection with a change of it, and a listener that
always fails. -/
def World.desk : World :=
  (World.after {} 1 [.newDispatcher "desk" (.given [("max_snapshot_history", .int 2)]),
    .newSelection "nodes" (.list [.int 1]),
    .change "edit" "nodes" (.list [.int 1]) (.list [.int 2, .bool true]),
    .listen "nodes" "selection_changed" [.fail .null] none]).get (by decide +kernel)

theorem World.reached_desk : Reached desk := .after (.start false) (Option.some_get _).symm

/-- The timeline is in step after a change that is undone by either history. -/
theorem selection_followed_both_ways :
    let r : Rig := ⟨0, 0, 0, 0⟩
    let as : List Deed := [.select (.list [.int 2, .int 1, .bool true]), .commit 0, .undo,
      .setMode (.text "snapshots"), .select .null, .watch, .shortcut (.text "UNDO")]
    ∃ w w', (watch (inner 5) 0 (.selection 0) World.desk).state? = some w ∧
      r.drive 5 w as = some w' ∧ (w'.selection 0).nodes = [.int 2, .int 1] ∧
      ∃ i nodes, (w'.timeline 0).current = .ok (some i) ∧ w'.capturedNodes i = .ok nodes ∧
        Value.sameItems nodes (w'.selection 0).nodes = true := by
  intro r as
  have hd : World.desk.dispatchers[0]? = some ⟨.text "commands", 0, 0, none⟩ := rfl
  have hj : World.desk.journal 0 = { limit := .int 100 } := rfl
  have ht : World.desk.timeline 0 = { limit := .int 2 } := rfl
  obtain ⟨⟨w, hw⟩, hall⟩ := selection_followed (r := r) World.reached_desk hd hj ht rfl
    (by decide +kernel) (by decide +kernel) (bystanders_failing 0 0 Rig.spares_tolerant.refl)
    (Nat.le_refl 5)
  have hseen : ((watch (inner 5) 0 (.selection 0) World.desk).state?.bind fun w ↦
      r.drive 5 w as).map (fun w' ↦ (w'.selection 0).nodes) = some [.int 2, .int 1] := by
    decide +kernel
  rw [hw] at hseen
  obtain ⟨w', hw', hnodes⟩ := Option.map_eq_some_iff.1 hseen
  exact ⟨w, w', hw, hw', hnodes, (hall w' (.drive (.watch hw) hw')).1⟩

end Deeds

end Rewind.Session
