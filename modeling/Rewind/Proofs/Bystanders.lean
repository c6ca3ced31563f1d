import Rewind.Proofs.Growth

namespace Rewind.Session

/-- Whether what has happened is that an item has been called. -/
def Event.isCall : Event → Bool
  | .called _ _ => true
  | _ => false

variable {m n : Nat} {kept : Nat → Prop} {I : World → Prop} {b : Inner} {w : World}

theorem update_journalHost {k : Nat} (f g : Journal Nat → Journal Nat) :
    (journalHost b k).update g ((journalHost b k).update f w) =
      (journalHost b k).update (fun j ↦ g (f j)) w := by
  show { w with journals := (w.journals.modify k f).modify k g } = _
  rw [List.modify_modify_eq]
  rfl

theorem update_timelineHost {k : Nat} (f g : Timeline Nat → Timeline Nat) :
    (timelineHost b k).update g ((timelineHost b k).update f w) =
      (timelineHost b k).update (fun t ↦ g (f t)) w := by
  show { w with timelines := (w.timelines.modify k f).modify k g } = _
  rw [List.modify_modify_eq]
  rfl

theorem announce_journalHost {k : Nat} : (journalHost b k).announce = announceJournal b k := rfl

theorem announce_timelineHost {k : Nat} : (timelineHost b k).announce = announceTimeline b k := rfl

/-- Nothing that goes on around makes a difference to `I`: no event that is quiet, no listing, no
timeline that is not kept, and no listener, whose steps end if they may nest `m` deep. All events
are quiet that go with the announcements of objects other than selections. -/
structure Around (m : Nat) (kept : Nat → Prop) (quiet : Event → Prop) (I : World → Prop) :
    Prop where
  sound : ∀ {w}, I w → w.Sound
  failed : ∀ e, quiet (.slotFailed e)
  logged : ∀ t, quiet (.logged t)
  announced : ∀ name signal arguments, signal ≠ .selectionChanged →
    quiet (.announced name signal arguments)
  event : ∀ {w} e, quiet e → I w → I (w.addEvent e)
  reading : ∀ {w} reading, I w → I { w with reading }
  listing : ∀ {w} k f, I w → I { w with listings := w.listings.modify k f }
  timeline : ∀ {w t} f, I w → ¬ kept t → I { w with timelines := w.timelines.modify t f }
  left : ∀ {w l steps was} left, I w → l ∈ w.links → l.slot = .listen steps was →
    I (w.setSlot l.number (.listen steps left))
  steps : ∀ {w l steps left n}, I w → l ∈ w.links → l.slot = .listen steps left → m ≤ n →
    (nested (inner n) steps).Leads w (fun _ ↦ I) (fun _ ↦ I) False

/-- Nor does a capture in a timeline that is not kept, or any event but a call. -/
structure Aside (m : Nat) (kept : Nat → Prop) (I : World → Prop) : Prop
    extends Around m kept (fun e ↦ e.isCall = false) I where
  item : ∀ {w} c, I w → I (w.addItem (.capture c))

namespace Around

variable {quiet : Event → Prop} (h : Around m kept quiet I)

include h

theorem happen {e : Event} (he : quiet e) : (happen e).Keeps I False :=
  .modify fun _ ↦ h.event e he

theorem leads_log (t : Text) (hw : I w) :
    (log t).Leads w (fun _ ↦ I) (fun _ _ ↦ False) False := by
  show I (if w.logging then w.addEvent (.logged t) else w)
  split
  · exact h.event _ (h.logged t) hw
  · exact hw

/-- Without listeners in between, listings and dispatchers are the last to hear of anything. -/
theorem fire_listen (hn : m + 1 ≤ n) (number : Nat) (signal : Signal) (steps : List Step)
    (left : Option Int) (arguments : List Answer) :
    (fireSlot (inner n) number signal (.listen steps left) arguments).Keeps I False := by
  obtain ⟨n, rfl⟩ : ∃ k, n = k + 1 := ⟨n - 1, by omega⟩
  refine .get_bind fun w hw ↦ ?_
  split
  · rename_i number' source signal' steps left hl
    have hm := List.mem_of_find?_eq_some hl
    obtain rfl : number' = number := by simpa using List.find?_some hl
    split
    · have hs := h.left (left.map (· - 1)) hw hm rfl
      have hmem : ⟨_, source, signal', .listen steps (left.map (· - 1))⟩ ∈
          (w.setSlot _ (.listen steps (left.map (· - 1)))).links :=
        List.mem_map.2 ⟨_, hm, if_pos rfl⟩
      exact h.steps hs hmem rfl (by omega)
    · exact hw
  · exact hw

/-- Only records and listeners are connected to listings and dispatchers. -/
theorem leads_announce_outer (hn : m + 2 ≤ n) {source : Object} {signal : Signal}
    {arguments : List Answer} (hq : ∀ name, quiet (.announced name signal arguments))
    (ho : ∃ k, source = .listing k ∨ source = .dispatcher k) (hw : I w) :
    (announce (inner n) source signal arguments).Leads w (fun _ ↦ I) (fun _ _ ↦ False) False := by
  obtain ⟨n, rfl⟩ : ∃ k, n = k + 1 := ⟨n - 1, by omega⟩
  refine leads_announce (fun _ e ↦ h.event _ (h.failed e)) hw fun l hl hs hsignal ↦ ?_
  have hp := (h.sound hw).placed l hl
  obtain ⟨k, rfl | rfl⟩ := ho
  all_goals
    unfold World.Placed at hp
    cases ht : l.slot with
    | record name => exact h.happen (hq name)
    | listen steps left => exact h.fire_listen (by omega) l.number signal steps left arguments
    | refresh | relay | capture => simp [ht, hs] at hp

theorem refresh (hn : m + 2 ≤ n) (k : Nat) : (refresh (inner n) k).Keeps I False := by
  have hk {signal : Signal} (hs : signal ≠ .selectionChanged) (w : World) (hw : I w) :
      (announce (inner n) (.listing k) signal []).Leads w (fun _ ↦ I) (fun _ ↦ I) False :=
    (h.leads_announce_outer hn (fun name ↦ h.announced name _ _ hs) ⟨k, .inl rfl⟩ hw).mono
      (fun _ _ ht ↦ ht) (fun _ _ ht ↦ ht.elim)
  refine .bind (.modify fun w hw ↦ h.reading _ hw) fun _ ↦ .bind (hk nofun) fun _ ↦ ?_
  refine .bind (.modify fun w hw ↦ h.listing k _ hw) fun _ ↦ .bind (hk nofun) fun _ ↦ ?_
  exact .modify fun w hw ↦ h.reading _ hw

theorem fire (hn : m + 2 ≤ n) {slot : Slot} (hs : ∀ k, slot ≠ .capture k) (number : Nat)
    {signal : Signal} {arguments : List Answer}
    (hq : ∀ name, slot = .record name → quiet (.announced name signal arguments)) :
    (fireSlot (inner n) number signal slot arguments).Keeps I False := by
  cases slot with
  | record name => exact h.happen (hq name rfl)
  | listen steps left => exact h.fire_listen (by omega) number signal steps left arguments
  | refresh k =>
    refine .bind (fun _ hw ↦ hw) fun w ↦ ?_
    split
    · exact h.refresh hn k
    · exact .pure _
  | relay k mode =>
    refine .bind (fun _ hw ↦ hw) fun w ↦ ?_
    split
    · have hq (name : Text) : quiet (.announced name .stateChanged arguments) :=
        h.announced name _ _ nofun
      intro w hw
      exact (h.leads_announce_outer hn hq ⟨k, .inr rfl⟩ hw).mono (fun _ _ ht ↦ ht)
        (fun _ _ ht ↦ ht.elim)
    · exact .pure _
  | capture k => exact absurd rfl (hs k)

theorem leads_announce_history (hn : m + 3 ≤ n) {source : Object} {signal : Signal}
    {arguments : List Answer} (hq : ∀ name, quiet (.announced name signal arguments))
    (ho : ∃ k, source = .journal k ∨ source = .timeline k) (hw : I w) :
    (announce (inner n) source signal arguments).Leads w (fun _ ↦ I) (fun _ _ ↦ False) False := by
  obtain ⟨n, rfl⟩ : ∃ k, n = k + 1 := ⟨n - 1, by omega⟩
  refine leads_announce (fun _ e ↦ h.event _ (h.failed e)) hw fun l hl hs _ ↦ ?_
  refine h.fire (by omega) (fun k ht ↦ ?_) _ fun name _ ↦ hq name
  have hp := (h.sound hw).placed l hl
  unfold World.Placed at hp
  obtain ⟨j, rfl | rfl⟩ := ho
  all_goals simp [ht, hs] at hp

theorem leads_announceTimeline (hn : m + 3 ≤ n) (k : Nat) (notice : Timeline.Notice Nat)
    (hw : I w) :
    (announceTimeline (inner n) k notice).Leads w (fun _ ↦ I) (fun _ _ ↦ False) False := by
  cases notice with
  | recorded | restored | changed =>
    exact h.leads_announce_history hn (fun name ↦ h.announced name _ _ nofun) ⟨k, .inr rfl⟩ hw

theorem leads_announceJournal (hn : m + 3 ≤ n) (k : Nat) (notice : Journal.Notice Nat)
    (hw : I w) :
    (announceJournal (inner n) k notice).Leads w (fun _ ↦ I) (fun _ _ ↦ False) False := by
  cases notice with
  | recorded | undone | redone | changed =>
    exact h.leads_announce_history hn (fun name ↦ h.announced name _ _ nofun) ⟨k, .inl rfl⟩ hw

theorem heard (hn : m + 3 ≤ n) (t : Nat) : (timelineHost (inner n) t).Heard I False where
  announce notice _ hw := (h.leads_announceTimeline hn t notice hw).mono (fun _ _ ht ↦ ht)
    (fun _ _ ht ↦ ht.elim)
  log _ _ hw := (h.leads_log _ hw).mono (fun _ _ ht ↦ ht) (fun _ _ ht ↦ ht.elim)

theorem steady (hn : m + 3 ≤ n) {t : Nat} (ht : ¬ kept t) :
    (timelineHost (inner n) t).Steady I False where
  toHeard := h.heard hn t
  update f _ hw := h.timeline f hw ht

theorem fire_capture (hi : ∀ {w} c, I w → I (w.addItem (.capture c))) (hn : m + 3 ≤ n) {k : Nat}
    (hk : ∀ w, I w → ¬ kept (w.dispatcher k).timeline) (number : Nat) (signal : Signal)
    (arguments : List Answer) :
    (fireSlot (inner n) number signal (.capture k) arguments).Keeps I False := by
  refine .get_bind fun w hw ↦ ?_
  dsimp only
  split
  · refine Run.Keeps.bind (fun _ hw ↦ hw) (fun v ↦ .bind (.modify fun u hu ↦ ?_) fun _ ↦ ?_) w hw
    · exact hi _ hu
    · exact (h.steady hn (hk w hw)).add _
  · exact hw

theorem leads_reportJournal (hn : m + 3 ≤ n) {k i : Nat} {d : Value} (hw : I w)
    (hd : w.describe i = .ok d) {remark : Value → World → Journal.Remark}
    {notice : Journal.Notice Nat} {Q : Unit → World → Prop} (hQ : ∀ t, I t → Q () t) :
    ((journalHost (inner n) k).tell i).Leads w (fun d t ↦
      ((journalHost (inner n) k).log (remark d t)).Leads t (fun _ t ↦
        ((journalHost (inner n) k).announce notice).Leads t (fun _ t ↦
          (journalHost (inner n) k).announceChange.Leads t Q (fun _ _ ↦ False) False)
        (fun _ _ ↦ False) False) (fun _ _ ↦ False) False) (fun _ _ ↦ False) False := by
  apply (Run.leads_ask_ok (f := (World.describe · i)) hd).2
  refine (h.leads_log (remark d w).text hw).mono (fun _ t ht ↦ ?_) (fun _ _ ht ↦ ht)
  refine (h.leads_announceJournal hn k notice ht).mono (fun _ u hu ↦ ?_) (fun _ _ hu ↦ hu)
  rw [Journal.Host.leads_announceChange, announce_journalHost]
  exact (h.leads_announceJournal hn k _ hu).mono (fun _ v hv ↦ hQ v hv) (fun _ _ hv ↦ hv)

/-- If the state of a timeline cannot be described, nothing is announced. -/
theorem leads_reportTimeline (hn : m + 3 ≤ n) {k i : Nat} (hw : I w)
    {remark : Value → World → Timeline.Remark} {notice : Timeline.Notice Nat}
    {Q : Unit → World → Prop} {E : Fault → World → Prop} (hQ : ∀ t, I t → Q () t)
    (hE : ∀ e, w.describe i = .error e → E e w) :
    ((timelineHost (inner n) k).tell i).Leads w (fun d t ↦
      ((timelineHost (inner n) k).log (remark d t)).Leads t (fun _ t ↦
        ((timelineHost (inner n) k).announce notice).Leads t (fun _ t ↦
          (timelineHost (inner n) k).announceChange.Leads t Q E False)
        E False) E False) E False := by
  refine Timeline.Host.leads_tell.2 ⟨fun d _ ↦ ?_, hE⟩
  refine (h.leads_log (remark d w).text hw).mono (fun _ t ht ↦ ?_) (fun _ _ ht ↦ ht.elim)
  refine (h.leads_announceTimeline hn k notice ht).mono (fun _ u hu ↦ ?_) (fun _ _ hu ↦ hu.elim)
  rw [Timeline.Host.leads_announceChange, announce_timelineHost]
  exact (h.leads_announceTimeline hn k _ hu).mono (fun _ v hv ↦ hQ v hv) (fun _ _ hv ↦ hv.elim)

end Around

namespace Aside

variable (h : Aside m kept I)

include h

theorem leads_record_restoring (hw : I w) {t x : Nat} (he : (w.timeline t).enabled.truth = true)
    (hr : (w.timeline t).restoring = true) :
    (recordCapture b t x).Leads w (fun _ ↦ I) (fun _ ↦ I) False := by
  have hi := h.item ⟨none, .selection x, (w.selection x).nodes⟩ hw
  unfold recordCapture
  rw [Run.leads_bind, Run.leads_get, Run.leads_bind, Run.leads_modify]
  apply (Timeline.Host.leads_add_ignored (.inr ⟨he, hr, rfl⟩)).2
  refine Timeline.Host.leads_tell.2 ⟨fun d _ ↦ ?_, fun _ _ ↦ hi⟩
  exact (h.leads_log _ hi).mono (fun _ _ ht ↦ ht) (fun _ _ ht ↦ ht.elim)

theorem fire_capture (hn : m + 3 ≤ n) {k : Nat}
    (hk : ∀ w, I w → ¬ kept (w.dispatcher k).timeline) (number : Nat) (signal : Signal)
    (arguments : List Answer) :
    (fireSlot (inner n) number signal (.capture k) arguments).Keeps I False :=
  h.toAround.fire_capture h.item hn hk number signal arguments

/-- No slot makes a difference but a capture in a timeline that is kept. -/
theorem fire_other (hn : m + 3 ≤ n) {slot : Slot} (number : Nat) (signal : Signal)
    (arguments : List Answer)
    (hk : ∀ k, slot = .capture k → ∀ v, I v → ¬ kept (v.dispatcher k).timeline) :
    (fireSlot (inner n) number signal slot arguments).Keeps I False := by
  by_cases hs : ∃ k, slot = .capture k
  · obtain ⟨k, rfl⟩ := hs
    exact h.fire_capture hn (hk k rfl) _ _ _
  · exact h.fire (by omega) (fun k hk ↦ hs ⟨k, hk⟩) _ fun _ _ ↦ rfl

theorem leads_announce_selection (hn : m + 4 ≤ n) {x : Nat} {signal : Signal}
    {arguments : List Answer} (hw : I w)
    (hk : ∀ l ∈ w.links, ∀ k, l.slot = .capture k → ∀ v, I v → ¬ kept (v.dispatcher k).timeline) :
    (announce (inner n) (.selection x) signal arguments).Leads w (fun _ ↦ I) (fun _ _ ↦ False)
      False := by
  obtain ⟨n, rfl⟩ : ∃ k, n = k + 1 := ⟨n - 1, by omega⟩
  exact leads_announce (fun _ e ↦ h.event _ rfl) hw fun l hl _ _ ↦
    h.fire_other (by omega) _ _ _ (hk l hl)

end Aside

/-- A relation of worlds that what goes on around without listeners keeps to. -/
structure Framing (kept : Nat → Prop) (R : World → World → Prop) : Prop where
  refl : ∀ w, R w w
  trans : ∀ {u v w}, R u v → R v w → R u w
  event : ∀ w e, e.isCall = false → R w (w.addEvent e)
  reading : ∀ w reading, R w { w with reading }
  listing : ∀ w k f, R w { w with listings := w.listings.modify k f }
  timeline : ∀ w t f, ¬ kept t → R w { w with timelines := w.timelines.modify t f }
  left : ∀ {w l steps was} left, w.Sound → l ∈ w.links → l.slot = .listen steps was →
    R w (w.setSlot l.number (.listen steps left))

/-- A relation that captures keep to as well. -/
structure Tolerant (kept : Nat → Prop) (R : World → World → Prop) : Prop
    extends Framing kept R where
  item : ∀ w c, R w (w.addItem (.capture c))

/-- What becomes of one journal and one selection leaves everything else in place. -/
structure World.Beside (j x : Nat) (w w' : World) : Prop where
  objects : w'.objects = w.objects
  journals : ∀ k, k ≠ j → w'.journal k = w.journal k
  selections : ∀ k, k ≠ x → w'.selection k = w.selection k
  items : w.items <+: w'.items
  listeners : ∀ l ∈ w'.links, ∀ steps left, l.slot = .listen steps left →
    ∃ was, ⟨l.number, l.source, l.signal, .listen steps was⟩ ∈ w.links

/-- Listeners that keep to `R`, wherever they are `Calm`, and remain so while one journal and one
selection change. -/
structure Bystanders (m j x : Nat) (R : World → World → Prop) (Calm : World → Prop) : Prop where
  steps : ∀ {w}, w.Sound → Calm w → ∀ l ∈ w.links, ∀ steps left, l.slot = .listen steps left →
    ∀ n, m ≤ n → (nested (inner n) steps).Leads w (fun _ w' ↦ R w w' ∧ Calm w')
      (fun _ w' ↦ R w w' ∧ Calm w') False
  stable : ∀ {w w'}, Calm w → w.Beside j x w' → Calm w'

variable {j x : Nat} {R : World → World → Prop} {Calm : World → Prop}

theorem World.beside_of_eq {w w' : World} (ho : w'.objects = w.objects)
    (hj : w'.journals = w.journals) (hs : w'.selections = w.selections) (hl : w'.links = w.links)
    (hi : w.items <+: w'.items) : w.Beside j x w' := by
  refine ⟨ho, fun k _ ↦ ?_, fun k _ ↦ ?_, hi, fun l hm steps left ht ↦ ⟨left, ?_⟩⟩
  · rw [World.journal, hj, World.journal]
  · rw [World.selection, hs, World.selection]
  · rw [hl] at hm
    exact ht ▸ hm

theorem World.selection_set (hx : x < w.selections.length) (s : Selection) :
    World.selection { w with selections := w.selections.set x s } x = s := by
  simp [selection, hx]

theorem World.beside_selection (s : Selection) :
    w.Beside j x { w with selections := w.selections.set x s } := by
  refine ⟨rfl, fun _ _ ↦ rfl, fun k hk ↦ ?_, List.prefix_rfl, fun l hl steps left hs ↦
    ⟨left, hs ▸ hl⟩⟩
  simp [selection, List.getElem?_set_ne (Ne.symm hk)]

theorem World.journal_modify (hj : j < w.journals.length) (f : Journal Nat → Journal Nat) :
    World.journal { w with journals := w.journals.modify j f } j = f (w.journal j) := by
  simp [journal, hj]

theorem World.timeline_modify {t : Nat} (ht : t < w.timelines.length)
    (f : Timeline Nat → Timeline Nat) :
    World.timeline { w with timelines := w.timelines.modify t f } t = f (w.timeline t) := by
  simp [timeline, ht]

theorem World.beside_journal (f : Journal Nat → Journal Nat) :
    w.Beside j x { w with journals := w.journals.modify j f } := by
  refine ⟨rfl, fun k hk ↦ ?_, fun _ _ ↦ rfl, List.prefix_rfl, fun l hl steps left hs ↦
    ⟨left, hs ▸ hl⟩⟩
  simp [journal, Ne.symm hk]

theorem World.beside_rewatch {k y : Nat} : w.Beside j x
    ((w.unwatch k (.selection y)).connect (.selection y) .selectionChanged (.capture k)) := by
  refine ⟨rfl, fun _ _ ↦ rfl, fun _ _ ↦ rfl, List.prefix_rfl, fun l hl steps left hs ↦ ?_⟩
  rcases List.mem_append.1 hl with hl | hl
  · exact ⟨left, hs ▸ (List.mem_filter.1 hl).1⟩
  · rw [List.mem_singleton.1 hl] at hs
    cases hs

theorem World.beside_tolerant (kept : Nat → Prop) : Tolerant kept (World.Beside j x) where
  refl _ := beside_of_eq rfl rfl rfl rfl List.prefix_rfl
  trans h h' := by
    refine ⟨h'.objects.trans h.objects, fun k hk ↦ (h'.journals k hk).trans (h.journals k hk),
      fun k hk ↦ (h'.selections k hk).trans (h.selections k hk), h.items.trans h'.items, ?_⟩
    intro l hl steps left hs
    obtain ⟨was, hm⟩ := h'.listeners l hl steps left hs
    exact h.listeners _ hm steps was rfl
  event _ _ _ := beside_of_eq rfl rfl rfl rfl List.prefix_rfl
  reading _ _ := beside_of_eq rfl rfl rfl rfl List.prefix_rfl
  listing _ _ _ := beside_of_eq rfl rfl rfl rfl List.prefix_rfl
  item _ _ := beside_of_eq rfl rfl rfl rfl (List.prefix_append _ _)
  timeline _ _ _ _ := beside_of_eq rfl rfl rfl rfl List.prefix_rfl
  left {w l steps was} left hw hl hs := by
    refine ⟨rfl, fun _ _ ↦ rfl, fun _ _ ↦ rfl, List.prefix_rfl, ?_⟩
    intro m hm steps' left' hm'
    obtain ⟨o, ho, rfl⟩ := List.mem_map.1 hm
    by_cases hn : o.number = l.number
    · -- Only the listener itself has its number.
      obtain rfl := hw.eq_of_number ho hl hn
      rw [if_pos rfl] at hm' ⊢
      cases hm'
      exact ⟨was, hs ▸ ho⟩
    · rw [if_neg hn] at hm' ⊢
      exact ⟨left', hm' ▸ ho⟩

/-- Where listeners keep to a relation that what else goes on around keeps to, all that goes on
around does. -/
theorem Bystanders.around (hb : Bystanders m j x R Calm) (hr : Framing kept R) (w : World) :
    Around m kept (fun e ↦ e.isCall = false) (fun w' ↦ R w w' ∧ w.Grown w' ∧ Calm w') where
  sound h := h.2.1.sound
  failed _ := rfl
  logged _ := rfl
  announced _ _ _ _ := rfl
  event e he h := ⟨hr.trans h.1 (hr.event _ e he), h.2.1.trans (h.2.1.sound.grown_aside _ _ _ _),
    hb.stable h.2.2 ((World.beside_tolerant kept).event _ e he)⟩
  reading ks h := ⟨hr.trans h.1 (hr.reading _ ks), h.2.1.trans (h.2.1.sound.grown_aside _ _ _ _),
    hb.stable h.2.2 ((World.beside_tolerant kept).reading _ ks)⟩
  listing k f h := ⟨hr.trans h.1 (hr.listing _ k f), h.2.1.trans (h.2.1.sound.grown_listing k f),
    hb.stable h.2.2 ((World.beside_tolerant kept).listing _ k f)⟩
  timeline f h ht := ⟨hr.trans h.1 (hr.timeline _ _ f ht),
    h.2.1.trans (h.2.1.sound.grown_timeline _ f),
    hb.stable h.2.2 ((World.beside_tolerant kept).timeline _ _ f ht)⟩
  left left h hl hs := ⟨hr.trans h.1 (hr.left left h.2.1.sound hl hs),
    h.2.1.trans (h.2.1.sound.grown_setSlot _ _ _),
    hb.stable h.2.2 ((World.beside_tolerant kept).left left h.2.1.sound hl hs)⟩
  steps {v l steps left n} h hl hs hn := by
    have hg := (inner_grows w (n + 1)).steps steps v h.2.1
    have hc := hb.steps h.2.1.sound h.2.2 l hl steps left hs n hn
    refine (hg.and hc).mono (fun _ u hu ↦ ?_) (fun _ u hu ↦ ?_)
    · exact ⟨hr.trans h.1 hu.2.1, hu.1, hu.2.2⟩
    · exact ⟨hr.trans h.1 hu.2.1, hu.1, hu.2.2⟩

theorem Bystanders.aside (hb : Bystanders m j x R Calm) (hr : Tolerant kept R) (w : World) :
    Aside m kept (fun w' ↦ R w w' ∧ w.Grown w' ∧ Calm w') where
  toAround := hb.around hr.toFraming w
  item c h := ⟨hr.trans h.1 (hr.item _ c), h.2.1.trans (h.2.1.sound.grown_item _),
    hb.stable h.2.2 ((World.beside_tolerant kept).item _ c)⟩

/-- Whether a slot does nothing but fail, if it is a listener. -/
def Slot.failing : Slot → Bool
  | listen [.fail _] _ => true
  | listen _ _ => false
  | _ => true

theorem bystanders_failing (j x : Nat) (hr : ∀ w, R w w) :
    Bystanders 0 j x R fun w ↦ w.links.all fun l ↦ l.slot.failing where
  steps {w} _ hc l hl steps left hs n _ := by
    have hf := List.all_eq_true.1 hc l hl
    rw [hs] at hf
    match steps, hf with
    | [.fail message], _ => exact ⟨hr w, hc⟩
  stable {w w'} hc h := by
    refine List.all_eq_true.2 fun l hl ↦ ?_
    cases hs : l.slot with
    | listen steps left =>
      obtain ⟨was, hm⟩ := h.listeners l hl steps left hs
      have hf := List.all_eq_true.1 hc _ hm
      match steps, hf with
      | [.fail _], _ => rfl
    | record | refresh | relay | capture => rfl

end Rewind.Session
