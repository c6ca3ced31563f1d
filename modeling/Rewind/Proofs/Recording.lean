import Rewind.Proofs.Bystanders

namespace Rewind.Session

/-- Whether a slot records what is announced. -/
def Slot.isRecord : Slot → Bool
  | record _ => true
  | _ => false

/-- Whether what has happened is that a change of a selection has been recorded under a name. -/
def Event.changes (name : Text) : Event → Bool
  | .announced o .selectionChanged _ => o == name
  | _ => false

namespace World

/-- How often a change of a selection has been recorded under a name. -/
def heard (name : Text) (w : World) : Nat := w.events.countP (Event.changes name)

/-- The records that are kept of a selection. -/
def records (x : Nat) (w : World) : List Link :=
  w.links.filter fun l ↦ l.source = .selection x ∧ l.slot.isRecord

/-- In a later world the same records of a selection are kept. -/
structure SameRecords (x : Nat) (w w' : World) : Prop where
  grown : w.Grown w'
  present : x < w.selections.length
  records : w'.records x = w.records x

variable {w w' w'' : World} {x k : Nat} {name : Text} {e : Event}

theorem heard_addEvent :
    (w.addEvent e).heard name = w.heard name + if e.changes name then 1 else 0 :=
  List.countP_cons

theorem mem_records {l : Link} :
    l ∈ w.records x ↔ l ∈ w.links ∧ l.source = .selection x ∧ l.slot.isRecord = true := by
  rw [records, List.mem_filter, decide_eq_true_eq]

theorem records_congr (h : w'.links = w.links) : w'.records x = w.records x := by
  rw [records, h, records]

theorem records_connect {o : Object} {signal : Signal} {slot : Slot}
    (h : o ≠ .selection x ∨ slot.isRecord = false) :
    (w.connect o signal slot).records x = w.records x := by
  have hn : ¬ (o = .selection x ∧ slot.isRecord = true) := by
    rintro ⟨ho, hs⟩
    rcases h with h | h
    · exact h ho
    · cases h.symm.trans hs
  simp [records, connect, List.filter_append, hn]

theorem records_connect_record (signal : Signal) :
    (w.connect (.selection x) signal (.record name)).records x =
      w.records x ++ [⟨w.linkCount, .selection x, signal, .record name⟩] := by
  have hr : (Slot.record name).isRecord = true := rfl
  simp [records, connect, List.filter_append, hr]

theorem records_present {o : Object} (h : o ≠ .selection x) :
    (w.present name o).records x = w.records x := by
  have hall (signals : List Signal) (v : World) :
      (signals.foldl (fun w signal ↦ w.connect o signal (.record name)) v).records x =
        v.records x := by
    induction signals generalizing v with
    | nil => rfl
    | cons signal signals ih =>
      rw [List.foldl_cons, ih]
      exact records_connect (.inl h)
  exact hall o.signals (w.nameObject name o)

theorem records_unwatch (o : Object) : (w.unwatch k o).records x = w.records x := by
  show List.filter _ (List.filter _ w.links) = _
  rw [List.filter_filter]
  refine List.filter_congr fun l _ ↦ ?_
  cases hs : l.slot <;> simp [Slot.isRecord]

/-- A listener stays a listener. -/
theorem records_setSlot (hw : w.Sound) {l : Link} {steps : List Step} {was : Option Int}
    (left : Option Int) (hl : l ∈ w.links) (hs : l.slot = .listen steps was) :
    (w.setSlot l.number (.listen steps left)).records x = w.records x := by
  have hsame {m : Link} (hm : m ∈ w.links) (hn : m.number = l.number) :
      m.slot.isRecord = false := by
    rw [hw.eq_of_number hm hl hn, hs]
    rfl
  show List.filter _ (List.map _ w.links) = _
  rw [List.filter_map]
  have hcongr : w.links.filter
      ((fun l : Link ↦ decide (l.source = .selection x ∧ l.slot.isRecord)) ∘ fun m ↦
        if m.number = l.number then { m with slot := .listen steps left } else m) =
      w.records x := by
    refine List.filter_congr fun m hm ↦ ?_
    by_cases hn : m.number = l.number
    · have hr := hsame hm hn
      have hf : (Slot.listen steps left).isRecord = false := rfl
      simp [hn, hr, hf]
    · simp [hn]
  rw [hcongr]
  refine (List.map_congr_left fun m hm ↦ ?_).trans (List.map_id _)
  obtain ⟨hm, -, hr⟩ := mem_records.1 hm
  refine if_neg fun hn ↦ ?_
  cases (hsame hm hn).symm.trans hr

namespace SameRecords

theorem refl (hw : w.Sound) (hx : x < w.selections.length) : w.SameRecords x w := ⟨hw.refl, hx, rfl⟩

theorem trans (h : w.SameRecords x w') (h' : w'.SameRecords x w'') : w.SameRecords x w'' :=
  ⟨h.grown.trans h'.grown, h.present, h'.records.trans h.records⟩

theorem later (h : w.SameRecords x w') (hg : w'.Grown w'') (hr : w''.records x = w'.records x) :
    w.SameRecords x w'' := ⟨h.grown.trans hg, h.present, hr.trans h.records⟩

theorem sound (h : w.SameRecords x w') : w'.Sound := h.grown.sound

/-- A record that is kept is still connected. -/
theorem isConnected (h : w.SameRecords x w') {l : Link} (hl : l ∈ w.records x) :
    w'.isConnected l.number = true := by
  rw [← h.records] at hl
  exact isConnected_of_mem (mem_records.1 hl).1

end SameRecords

end World

theorem upheld_recorded (x : Nat) (v : World) : Upheld .any (v.SameRecords x) where
  sound h := h.sound
  aside _ _ h := h.later (h.sound.grown_aside _ _ _ _) rfl
  event h _ := h.later (h.sound.grown_aside _ _ _ _) rfl
  begun h _ := h.later (h.sound.grown_aside _ _ _ _) rfl
  read k h := h.later (h.sound.grown_listing k _) rfl
  done _ h := h.later (h.sound.grown_aside _ _ _ _) rfl
  renewed h hi := h.later (h.sound.grown_renewed hi) rfl
  captured _ _ h := h.later (h.sound.grown_item _) rfl
  edit h _ := h.later (h.sound.grown_nameItem _ _) rfl
  state h _ := h.later (h.sound.grown_nameItem _ _) rfl
  item _ _ h _ _ := h.later (h.sound.grown_nameItem _ _) rfl
  journal h _ := h.later (h.sound.grown_addJournal _) rfl
  timeline _ h := h.later (h.sound.grown_addTimeline _) rfl
  selection h hs := h.later (h.sound.grown_addSelection hs) rfl
  presented := fun {u w} name {o} hu hn h ho _ _ ↦ by
    -- What has not been there before is not the selection.
    refine h.later (h.sound.grown_present name ho) (World.records_present ?_)
    rintro rfl
    exact hn (Nat.lt_of_lt_of_le hu.present (hu.grown.count (.selection x)))
  listing := fun {w _ o rows} name h _ hr ↦ by
    refine h.later (h.sound.grown_withListing name hr) ?_
    unfold World.withListing
    rw [World.records_present (by nofun), World.records_connect (.inr rfl)]
    rfl
  dispatcher := fun {w _ s} name h _ _ ↦ by
    refine h.later (h.sound.grown_withDispatcher name s) ?_
    unfold World.withDispatcher
    rw [World.records_present (by nofun), World.records_present (by nofun),
      World.records_present (by nofun), World.records_connect (.inr rfl),
      World.records_connect (.inr rfl)]
    rfl
  listened _ _ _ _ _ h _ _ := h.later (h.sound.grown_connect _ _ _ trivial nofun)
    (World.records_connect (.inr rfl))
  left left h hl hs := h.later (h.sound.grown_setSlot _ _ _)
    (World.records_setSlot h.sound left hl hs)
  watched h hk _ := h.later (h.sound.grown_rewatch hk _)
    ((World.records_connect (.inr rfl)).trans (World.records_unwatch _))
  unwatched h _ _ := h.later (h.sound.grown_unwatch _ _) (World.records_unwatch _)
  chosen k h hs := h.later (h.sound.grown_selection k hs) rfl
  listener _ _ _ _ _ := trivial
  program _ _ := ⟨fun _ _ ↦ trivial, fun _ _ ↦ trivial⟩
  restore _ _ _ _ := trivial

theorem aloof_recorded (x : Nat) (v : World) : Aloof (v.SameRecords x) where
  journal k f h := h.later (h.sound.grown_journal k f) rfl
  timeline k f h := h.later (h.sound.grown_timeline k f) rfl
  mode k mode h := h.later (h.sound.grown_setMode k mode) rfl

theorem inner_recorded (x : Nat) (v : World) (n : Nat) : (inner n).Upholds .any (v.SameRecords x) :=
  (upheld_recorded x v).inner (aloof_recorded x v)
    (fun _ _ h ↦ h.later (h.sound.grown_aside _ _ _ _) rfl) n

/-- No step makes or ends a record of a selection that is there already. -/
theorem perform_recorded (x : Nat) (v : World) (n : Nat) (step : Step) :
    (perform (inner n) step).Keeps (v.SameRecords x) :=
  (upheld_recorded x v).perform (inner_recorded x v n)
    ((upheld_recorded x v).histories (aloof_recorded x v) (inner_recorded x v n)) trivial

/-- A selection is kept as it is, and no change is recorded under a name. -/
structure World.Unheard (x : Nat) (name : Text) (w w' : World) : Prop where
  selection : w'.selection x = w.selection x
  heard : w'.heard name = w.heard name

/-- A change has been recorded so many times under a name, and nothing else has become of a
selection. -/
structure World.Told (x : Nat) (name : Text) (Calm : World → Prop) (w : World) (times : Nat)
    (w' : World) : Prop where
  selection : w'.selection x = w.selection x
  heard : w'.heard name = w.heard name + times
  recorded : w.SameRecords x w'
  calm : Calm w'

variable {m n j x times : Nat} {name : Text} {Calm : World → Prop} {w v : World}

theorem World.Told.later (h : w.Told x name Calm times v) {u : World} (hu : v.Unheard x name u)
    (hg : v.Grown u) (hr : u.records x = v.records x) (hc : Calm u) : w.Told x name Calm times u :=
  ⟨hu.selection.trans h.selection, hu.heard.trans h.heard, h.recorded.later hg hr, hc⟩

/-- Where listeners leave a selection alone, so does all that goes on around, unless it records a
change of it. -/
theorem Bystanders.told (hb : Bystanders m j x (World.Unheard x name) Calm) (w : World)
    (times : Nat) : Around m (fun _ ↦ False) (fun e ↦ e.changes name = false)
      (w.Told x name Calm times) where
  sound h := h.recorded.sound
  failed _ := rfl
  logged _ := rfl
  announced _ signal _ hs := by
    cases signal with
    | selectionChanged => exact absurd rfl hs
    | _ => rfl
  event {v} e he h := by
    refine h.later ⟨rfl, ?_⟩ (h.recorded.sound.grown_aside _ _ _ _) rfl
      (hb.stable h.calm (World.beside_of_eq rfl rfl rfl rfl List.prefix_rfl))
    rw [World.heard_addEvent, he]
    rfl
  reading ks h := h.later ⟨rfl, rfl⟩ (h.recorded.sound.grown_aside _ _ _ _) rfl
    (hb.stable h.calm (World.beside_of_eq rfl rfl rfl rfl List.prefix_rfl))
  listing k f h := h.later ⟨rfl, rfl⟩ (h.recorded.sound.grown_listing k f) rfl
    (hb.stable h.calm (World.beside_of_eq rfl rfl rfl rfl List.prefix_rfl))
  timeline f h _ := h.later ⟨rfl, rfl⟩ (h.recorded.sound.grown_timeline _ f) rfl
    (hb.stable h.calm (World.beside_of_eq rfl rfl rfl rfl List.prefix_rfl))
  left left h hl hs := h.later ⟨rfl, rfl⟩ (h.recorded.sound.grown_setSlot _ _ _)
    (World.records_setSlot h.recorded.sound left hl hs)
    (hb.stable h.calm ((World.beside_tolerant fun _ ↦ False).left left h.recorded.sound hl hs))
  steps {v l steps left n} h hl hs hn := by
    have hr := (inner_recorded x w (n + 1)).steps steps (fun _ _ ↦ trivial) v h.recorded
    have hc := hb.steps h.recorded.sound h.calm l hl steps left hs n hn
    refine (hr.and hc).mono (fun _ u hu ↦ ?_) (fun _ u hu ↦ ?_)
    · exact ⟨hu.2.1.selection.trans h.selection, hu.2.1.heard.trans h.heard, hu.1, hu.2.2⟩
    · exact ⟨hu.2.1.selection.trans h.selection, hu.2.1.heard.trans h.heard, hu.1, hu.2.2⟩

theorem foldl_count {α : Type} (p : α → Bool) (xs : List α) (n : Nat) :
    xs.foldl (fun n a ↦ n + if p a then 1 else 0) n = n + xs.countP p := by
  induction xs generalizing n with
  | nil => rfl
  | cons a xs ih => rw [List.foldl_cons, ih, List.countP_cons]; omega

/-- There is one record of a selection, under a name. -/
def World.RecordedAs (x : Nat) (name : Text) (w : World) : Prop :=
  ∃ k, w.records x = [⟨k, .selection x, .selectionChanged, .record name⟩]

theorem leads_notify_record {l : Link} {k : Nat}
    (hb : Bystanders m j x (World.Unheard x name) Calm)
    (hl : l = ⟨k, .selection x, .selectionChanged, .record name⟩) (hm : l ∈ w.records x)
    (hv : w.Told x name Calm times v) :
    (notify (inner (n + 1)) .selectionChanged [] l).Leads v
      (fun _ ↦ w.Told x name Calm (times + 1)) (fun _ _ ↦ False) False := by
  refine leads_notify_of (fun _ e ↦ (hb.told w (times + 1)).event _ rfl) (fun hn ↦ ?_) ?_
  · cases (hv.recorded.isConnected hm).symm.trans hn
  · subst hl
    show w.Told x name Calm (times + 1) (v.addEvent (.announced name .selectionChanged []))
    have hchanges : Event.changes name (.announced name .selectionChanged []) = true :=
      beq_self_eq_true name
    refine ⟨hv.selection, ?_, hv.recorded.later (hv.recorded.sound.grown_aside _ _ _ _) rfl,
      hb.stable hv.calm (World.beside_of_eq rfl rfl rfl rfl List.prefix_rfl)⟩
    rw [World.heard_addEvent, hchanges, hv.heard]
    rfl

theorem leads_notify_unrecorded {l : Link} (hb : Bystanders m j x (World.Unheard x name) Calm)
    (hn : m + 3 ≤ n) (hl : l.slot.isRecord = false) (hv : w.Told x name Calm times v) :
    (notify (inner (n + 1)) .selectionChanged [] l).Leads v
      (fun _ ↦ w.Told x name Calm times) (fun _ _ ↦ False) False := by
  have ha := hb.told w times
  refine leads_notify (fun _ e ↦ ha.event _ rfl) hv ?_
  show (fireSlot (inner n) l.number .selectionChanged l.slot []).Keeps _ False
  by_cases hs : ∃ k, l.slot = .capture k
  · obtain ⟨k, hk⟩ := hs
    rw [hk]
    refine ha.fire_capture (fun c h ↦ ?_) hn (fun _ _ ↦ id) _ _ _
    exact h.later ⟨rfl, rfl⟩ (h.recorded.sound.grown_item _) rfl
      (hb.stable h.calm (World.beside_of_eq rfl rfl rfl rfl (List.prefix_append _ _)))
  · refine ha.fire (by omega) (not_exists.1 hs) _ fun name' hr ↦ ?_
    rw [hr] at hl
    cases hl

/-- A change that is announced is recorded once, whoever else hears of it. -/
theorem leads_announce_once (hb : Bystanders m j x (World.Unheard x name) Calm) (hn : m + 4 ≤ n)
    (hw : w.Sound) (hc : Calm w) (hx : x < w.selections.length) (hr : w.RecordedAs x name) :
    (announce (inner n) (.selection x) .selectionChanged []).Leads w
      (fun _ ↦ w.Told x name Calm 1) (fun _ _ ↦ False) False := by
  obtain ⟨n, rfl⟩ : ∃ k, n = k + 1 := ⟨n - 1, by omega⟩
  obtain ⟨k, hk⟩ := hr
  let due := w.links.filter fun l ↦ l.source = .selection x ∧ l.signal = .selectionChanged
  let add (n : Nat) (l : Link) : Nat := n + if l.slot.isRecord then 1 else 0
  have hcount : due.foldl add 0 = 1 := by
    have hdue : due.filter (·.slot.isRecord) =
        (w.records x).filter fun l ↦ l.signal = .selectionChanged := by
      rw [List.filter_filter, World.records, List.filter_filter]
      refine List.filter_congr fun l _ ↦ ?_
      by_cases hs : l.source = .selection x <;> simp [hs, Bool.and_comm]
    rw [foldl_count (fun l : Link ↦ l.slot.isRecord), List.countP_eq_length_filter, hdue, hk]
    rfl
  have hstart : w.Told x name Calm 0 w := ⟨rfl, rfl, .refl hw hx, hc⟩
  suffices h : (Run.each due (notify (inner (n + 1)) .selectionChanged [])).Leads w
      (fun _ ↦ w.Told x name Calm (due.foldl add 0)) (fun _ _ ↦ False) False by
    rw [hcount] at h
    exact leads_announce_eq.2 h
  refine Run.leads_each_foldl (I := w.Told x name Calm) hstart fun times l hl u hu ↦ ?_
  obtain ⟨hl, hs⟩ := List.mem_filter.1 hl
  rw [decide_eq_true_eq] at hs
  cases hrecord : l.slot.isRecord with
  | true =>
    have hm : l ∈ w.records x := World.mem_records.2 ⟨hl, hs.1, hrecord⟩
    have hadd : add times l = times + 1 := by simp [add, hrecord]
    rw [hadd]
    exact leads_notify_record hb (List.mem_singleton.1 (hk ▸ hm)) hm hu
  | false =>
    have hadd : add times l = times := by simp [add, hrecord]
    rw [hadd]
    exact leads_notify_unrecorded hb (by omega) hrecord hu

end Rewind.Session
