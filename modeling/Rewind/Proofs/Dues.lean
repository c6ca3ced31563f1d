import Rewind.Proofs.Orderly

namespace Rewind.Session

/-- A condition on worlds where changes of some histories are still to be announced and a number of
items is known. What a history announces is no longer due then. -/
structure Dues (b : Inner) (D : List Object → Nat → World → Prop) : Prop where
  upheld : ∀ due size, Upheld .tame (D due size)
  upholds : ∀ due size, b.Upholds .tame (D due size)
  orderly : ∀ {due size w}, D due size w → Orderly size w
  mono : ∀ {due due' size size' w}, D due size w → due ⊆ due' → size' ≤ w.items.length →
    D due' size' w
  journal : ∀ {due due' size w k} {f : Journal Nat → Journal Nat}, D due size w → due ⊆ due' →
    Orderly size { w with journals := w.journals.modify k f } →
    (.journal k ∉ due' → (f (w.journal k)).canUndo = (w.journal k).canUndo ∧
      (f (w.journal k)).canRedo = (w.journal k).canRedo) →
    D due' size { w with journals := w.journals.modify k f }
  timeline : ∀ {due due' size w k} {f : Timeline Nat → Timeline Nat}, D due size w → due ⊆ due' →
    Orderly size { w with timelines := w.timelines.modify k f } →
    ((w.timeline k).limit.bound?.isSome = true → (f (w.timeline k)).limit.bound?.isSome = true) →
    (.timeline k ∉ due' → (f (w.timeline k)).canUndo = (w.timeline k).canUndo ∧
      (f (w.timeline k)).canRedo = (w.timeline k).canRedo) →
    D due' size { w with timelines := w.timelines.modify k f }
  unbound : ∀ {due size w k}, D (.timeline k :: due) size w →
    (w.timeline k).limit.bound? = none → D due size w
  muted : ∀ {due size w o}, D (o :: due) size w → ¬ w.Described → D due size w
  announced : ∀ {due size w o} arguments, D (o :: due) size w →
    (announce b o .historyChanged arguments).Leads w (fun _ ↦ D due size) (fun _ _ ↦ False) True

namespace Dues

variable {b : Inner} {D : List Object → Nat → World → Prop} {w : World} {due : List Object}
  {size k : Nat}

section Journal

variable (hd : Dues b D)

include hd

/-- Whatever is an item now can be counted on while something is done. -/
theorem with_all {m : Run World Unit} (hw : D due size w)
    (hm : D due w.items.length w →
      m.Leads w (fun _ ↦ D due w.items.length) (fun _ ↦ D due w.items.length) True) :
    m.Leads w (fun _ ↦ D due size) (fun _ ↦ D due size) True := by
  have hback (t : World) (ht : D due w.items.length t) : D due size t :=
    hd.mono ht (List.Subset.refl _)
      (Nat.le_trans (hd.orderly hw).recorded.size (hd.orderly ht).recorded.size)
  exact (hm (hd.mono hw (List.Subset.refl _) (Nat.le_refl _))).mono (fun _ t ht ↦ hback t ht)
    fun _ t ht ↦ hback t ht

theorem journal_due {f : Journal Nat → Journal Nat} (hw : D due size w)
    (hl : (w.journal k).limit.bound?.isSome = true → (f (w.journal k)).limit.bound?.isSome = true)
    (hf : ∀ i ∈ (f (w.journal k)).entries, i ∈ (w.journal k).entries ∨ i < w.items.length) :
    D (.journal k :: due) size { w with journals := w.journals.modify k f } :=
  hd.journal hw (List.subset_cons_self _ _) ((hd.orderly hw).journal hl hf)
    fun hn ↦ absurd List.mem_cons_self hn

theorem journal_still {f : Journal Nat → Journal Nat} (hw : D due size w)
    (hl : (w.journal k).limit.bound?.isSome = true → (f (w.journal k)).limit.bound?.isSome = true)
    (hf : (f (w.journal k)).entries = (w.journal k).entries ∧
      (f (w.journal k)).position = (w.journal k).position) :
    D due size { w with journals := w.journals.modify k f } := by
  refine hd.journal hw (List.Subset.refl _)
    ((hd.orderly hw).journal hl fun i hi ↦ .inl (hf.1 ▸ hi)) fun _ ↦ ?_
  simp only [Journal.canUndo, Journal.canRedo, hf, and_self]

/-- A journal announces that it has changed, unless the edit cannot be described. -/
theorem journal_told (k : Nat) (due : List Object) (size : Nat) :
    (journalHost b k).Told (· < size) (D (.journal k :: due) size) (D due size) where
  announce n _ hw :=
    ((hd.upheld _ _).leads_announceJournal (hd.upholds _ _) hw k n).mono (fun _ _ ht ↦ ht) nofun
  log r w hw := (hd.upheld _ _).log r.text w hw
  change _ hw := Journal.Host.leads_announceChange.2
    ((hd.announced _ hw).mono (fun _ _ ht ↦ ht) nofun)
  failed hw hx he := hd.muted hw fun h ↦ by
    obtain ⟨v, hv⟩ := h.exists_describe (Nat.lt_of_lt_of_le hx (hd.orderly hw).recorded.size)
    cases hv.symm.trans he

theorem journal_add {i : Nat} (hw : D due size w) (hi : i < w.items.length) :
    ((journalHost b k).add i).Leads w (fun _ ↦ D due size) (fun _ ↦ D due size) True := by
  refine hd.with_all hw fun hw ↦ ?_
  have hpush : D (.journal k :: due) w.items.length ((journalHost b k).update (·.push i) w) :=
    hd.journal_due hw (fun hl ↦ hl) fun x hx ↦
      (Journal.mem_of_push hx).imp_right fun (he : x = i) ↦ he ▸ hi
  obtain ⟨j, hj, hlimit⟩ := Journal.exists_trim ((hd.orderly hpush).tame.bound_journal k)
  refine ((hd.upheld due _).heardJournal (hd.upholds due _) k).leads_add_of hw fun he hp ↦ ?_
  refine (hd.journal_told k due _).leads_add_recorded hi he hp (fun t ht ↦ ?_) fun e he ↦ ?_
  · cases hj.symm.trans ht
    exact hd.mono (hd.journal_due hpush (fun hl ↦ hlimit ▸ hl)
      fun x hx ↦ .inl (Journal.entries_of_trim hj hx)) (by simp) (Nat.le_refl _)
  · cases hj.symm.trans he

theorem journal_clear (k : Nat) : (journalHost b k).clear.Keeps (D due size) :=
  fun _ hw ↦ (hd.journal_told k due size).leads_clear
    (hd.journal_due hw (fun hl ↦ hl) fun _ hx ↦ absurd hx List.not_mem_nil)

theorem journal_replay {i : Nat} (way : Way) (d : Int) (r : Value → Int → Journal.Remark)
    (n : Journal.Notice Nat) (hw : D due size w) (hi : i < size) :
    ((journalHost b k).replay (b.call way i)).Leads w
      (fun _ t ↦ ((journalHost b k).settle d r n i).Leads t (fun _ ↦ D due size)
        (fun _ ↦ D due size) True) (fun _ ↦ D due size) True := by
  have hidle (t : World) (ht : D due size t) :
      D due size ((journalHost b k).update ({ · with replaying := false }) t) :=
    hd.journal_still ht (fun hl ↦ hl) ⟨rfl, rfl⟩
  refine (hd.journal_told k due size).leads_replay r n hi hidle (fun t ht ↦ ?_)
    ((hd.upholds due size).call way i _ ?_)
  · exact hd.journal_due (hidle t ht) (fun hl ↦ hl) fun _ hx ↦ .inl hx
  · exact hd.journal_still hw (fun hl ↦ hl) ⟨rfl, rfl⟩

theorem journal_undo (k : Nat) : (journalHost b k).undo.Keeps (D due size) := by
  refine fun w hw ↦ hd.with_all hw fun hw ↦ ?_
  refine Journal.Host.leads_undo (fun _ ↦ hw) (fun _ _ ↦ hw) fun i _ hl ↦ ?_
  refine Run.leads_ask.2 ⟨fun m hm ↦ ?_, fun _ _ ↦ hw⟩
  obtain rfl := eq_call_of_map hm
  exact hd.journal_replay .undo _ _ _ hw
    ((hd.orderly hw).recorded.journal_lt (Position.mem_of_item? hl))

theorem journal_redo (k : Nat) : (journalHost b k).redo.Keeps (D due size) := by
  refine fun w hw ↦ hd.with_all hw fun hw ↦ ?_
  refine Journal.Host.leads_redo (fun _ ↦ hw) (fun _ _ ↦ hw) fun i _ hl ↦ ?_
  refine Run.leads_ask.2 ⟨fun m hm ↦ ?_, fun _ _ ↦ hw⟩
  obtain rfl := eq_call_of_map hm
  exact hd.journal_replay .redo _ _ _ hw
    ((hd.orderly hw).recorded.journal_lt (Position.mem_of_item? hl))

end Journal

section Timeline

variable (hd : Dues b D)

include hd

theorem timeline_due {f : Timeline Nat → Timeline Nat} (hw : D due size w)
    (hl : (w.timeline k).limit.bound?.isSome = true → (f (w.timeline k)).limit.bound?.isSome = true)
    (hf : ∀ i ∈ (f (w.timeline k)).entries, i ∈ (w.timeline k).entries ∨ i < w.items.length) :
    D (.timeline k :: due) size { w with timelines := w.timelines.modify k f } :=
  hd.timeline hw (List.subset_cons_self _ _) ((hd.orderly hw).timeline hf) hl
    fun hn ↦ absurd List.mem_cons_self hn

theorem timeline_still {f : Timeline Nat → Timeline Nat} (hw : D due size w)
    (hl : (w.timeline k).limit.bound?.isSome = true → (f (w.timeline k)).limit.bound?.isSome = true)
    (hf : (f (w.timeline k)).entries = (w.timeline k).entries ∧
      (f (w.timeline k)).pointer = (w.timeline k).pointer) :
    D due size { w with timelines := w.timelines.modify k f } := by
  refine hd.timeline hw (List.Subset.refl _)
    ((hd.orderly hw).timeline fun i hi ↦ .inl (hf.1 ▸ hi)) hl fun _ ↦ ?_
  simp only [Timeline.canUndo, Timeline.canRedo, hf, and_self]

/-- A timeline announces that it has changed, unless the state cannot be described. -/
theorem timeline_told (k : Nat) (due : List Object) (size : Nat) :
    (timelineHost b k).Told (· < size) (D (.timeline k :: due) size) (D due size) where
  announce n _ hw :=
    ((hd.upheld _ _).leads_announceTimeline (hd.upholds _ _) hw k n).mono (fun _ _ ht ↦ ht) nofun
  log r w hw := (hd.upheld _ _).log r.text w hw
  change _ hw := Timeline.Host.leads_announceChange.2
    ((hd.announced _ hw).mono (fun _ _ ht ↦ ht) nofun)
  failed hw hx he := hd.muted hw fun h ↦ by
    obtain ⟨v, hv⟩ := h.exists_describe (Nat.lt_of_lt_of_le hx (hd.orderly hw).recorded.size)
    cases hv.symm.trans he

theorem timeline_add {i : Nat} (hw : D due size w) (hi : i < w.items.length) :
    ((timelineHost b k).add i).Leads w (fun _ ↦ D due size) (fun _ ↦ D due size) True := by
  refine hd.with_all hw fun hw ↦ ?_
  have hpush : D (.timeline k :: due) w.items.length
      ((timelineHost b k).update (·.push w.sameItem i) w) :=
    hd.timeline_due hw (fun hl ↦ hl) fun x hx ↦
      (Timeline.mem_of_push hx).imp_right fun (he : x = i) ↦ he ▸ hi
  refine ((hd.upheld due _).heardTimeline (hd.upholds due _) k).leads_add_of hw fun he hp ↦ ?_
  refine (hd.timeline_told k due _).leads_add_recorded hi he hp (fun t ht ↦ ?_) fun e he ↦
    hd.unbound hpush (Timeline.unbound_of_trim he)
  exact hd.mono (hd.timeline_due hpush (fun hl ↦ Timeline.limit_of_trim ht ▸ hl)
    fun x hx ↦ .inl (Timeline.entries_of_trim ht hx)) (by simp) (Nat.le_refl _)

theorem timeline_clear (k : Nat) : (timelineHost b k).clear.Keeps (D due size) :=
  fun _ hw ↦ (hd.timeline_told k due size).leads_clear
    (hd.timeline_due hw (fun hl ↦ hl) fun _ hx ↦ absurd hx List.not_mem_nil)

theorem timeline_moveTo (k : Nat) (i : Int) : ((timelineHost b k).moveTo i).Keeps (D due size) := by
  refine fun w hw ↦ hd.with_all hw fun hw ↦ ?_
  -- What restoring a state announces is announced before the pointer moves.
  have hidle (t : World) (ht : D due w.items.length t) : D due w.items.length
      ((timelineHost b k).update ({ · with restoring := false }) t) :=
    hd.timeline_still ht (fun hl ↦ hl) ⟨rfl, rfl⟩
  refine Timeline.Host.leads_moveTo (fun _ ↦ hw) fun x hx ↦ ?_
  have hrestoring : D due w.items.length
      ((timelineHost b k).update ({ · with restoring := true }) w) :=
    hd.timeline_still hw (fun hl ↦ hl) ⟨rfl, rfl⟩
  refine ((hd.upholds due _).call .restore x _ hrestoring).mono (fun _ t ht ↦ ?_)
    fun _ t ht ↦ hidle t ht
  refine (hd.timeline_told k due _).leads_settle
    ((hd.orderly hw).recorded.timeline_lt (Position.mem_of_item? hx)) ?_
  exact hd.timeline_due (hidle t ht) (fun hl ↦ hl) fun _ hx ↦ .inl hx

theorem timeline_undo (k : Nat) : (timelineHost b k).undo.Keeps (D due size) :=
  fun w hw ↦ Timeline.Host.leads_undo (fun _ ↦ hw) fun _ _ ↦ hd.timeline_moveTo k _ w hw

theorem timeline_redo (k : Nat) : (timelineHost b k).redo.Keeps (D due size) :=
  fun w hw ↦ Timeline.Host.leads_redo (fun _ ↦ hw) fun _ ↦ hd.timeline_moveTo k _ w hw

end Timeline

theorem histories (hd : Dues b D) (due : List Object) (size : Nat)
    (hmode : ∀ k mode, (setMode b k mode).Keeps (D due size)) :
    Histories .tame (D due size) b where
  add _ hw hi := hd.journal_add hw ((hd.orderly hw).knows (.inl ⟨_, hi⟩))
  undo := hd.journal_undo
  redo := hd.journal_redo
  clear := hd.journal_clear
  enable _ _ _ hw := hd.journal_still hw (fun hl ↦ hl) ⟨rfl, rfl⟩
  limit _ _ hv _ hw := hd.journal_still hw (fun _ ↦ hv) ⟨rfl, rfl⟩
  addState _ hw hi := hd.timeline_add hw ((hd.orderly hw).knows hi)
  back := hd.timeline_undo
  forth := hd.timeline_redo
  clearStates := hd.timeline_clear
  enableStates _ _ _ hw := hd.timeline_still hw (fun hl ↦ hl) ⟨rfl, rfl⟩
  limitStates _ _ hv _ hw := hd.timeline_still hw (fun _ ↦ hv) ⟨rfl, rfl⟩
  mode := hmode

end Dues

variable {b : Inner} {w : World}

theorem dues_orderly (hb : ∀ size, b.Upholds .tame (Orderly size)) :
    Dues b fun _ size ↦ Orderly size where
  upheld _ size := upheld_orderly size
  upholds _ size := hb size
  orderly h := h
  mono h _ hs := h.sized hs
  journal _ _ h _ := h
  timeline _ _ h _ _ := h
  unbound h _ := h
  muted h _ := h
  announced _ h := (upheld_orderly _).announces (hb _) h _ _ _

theorem histories_orderly (hb : ∀ size, b.Upholds .tame (Orderly size)) (size : Nat) :
    Histories .tame (Orderly size) b :=
  (dues_orderly hb).histories [] size fun k ↦
    (upheld_orderly size).setMode (hb size) k fun mode h ↦ h.setMode k mode

theorem inner_orderly (n size : Nat) : (inner n).Upholds .tame (Orderly size) := by
  induction n generalizing size with
  | zero => exact ⟨fun _ _ ↦ .raise _, fun _ _ ↦ .raise _, fun _ _ _ _ _ _ ↦ trivial⟩
  | succ n ih =>
    exact (upheld_orderly size).upholds (ih size) (histories_orderly ih size)
      fun _ e h ↦ h.addEvent e

theorem ReachedTamely.orderly (h : ReachedTamely w) : Orderly 0 w := by
  induction h with
  | start logging =>
    exact ⟨(Reached.start logging).inPlace, World.tame_new logging, World.recorded_new logging⟩
  | @step w w' _ n step ht hs ih =>
    exact ((upheld_orderly 0).perform (inner_orderly n 0) (histories_orderly (inner_orderly n) 0) ht
      w ih).ended hs
  | forget _ events ih =>
    exact ih.frame (ih.inPlace.grown (ih.inPlace.sound.grown_aside _ _ _ _) (List.Sublist.refl _))
      rfl rfl rfl rfl rfl

end Rewind.Session
