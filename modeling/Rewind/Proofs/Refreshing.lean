import Rewind.Proofs.Mirroring

namespace Rewind.Session

/-- What is done one level deeper keeps the listings of a journal up to date, but for those still to
be told, and a listing that is told is up to date after that. -/
structure Inner.Refreshes (b : Inner) (j : Nat) : Prop where
  upholds : ∀ stale kept, b.Upholds .tame (Mirroring j stale kept)
  refresh : ∀ {w k stale kept} number signal arguments, Mirroring j (k :: stale) kept w →
    (b.fire number signal (.refresh k) arguments).Leads w (fun _ ↦ Mirroring j stale kept)
      (fun _ ↦ Mirroring j stale kept) True

variable {b : Inner} {w : World} {j k : Nat} {stale : List Nat} {kept : List Link}

theorem Mirroring.addEvent (h : Mirroring j stale kept w) (e : Event) :
    Mirroring j stale kept (w.addEvent e) := h.aside _ _ _

namespace Inner.Refreshes

section Announcing

variable (hb : b.Refreshes j)

include hb

/-- Each of the listings that are told is up to date from then on. -/
theorem leads_each {due : List Link} (signal : Signal) (arguments : List Answer)
    (h : Mirroring j (due.filterMap (·.slot.refreshed?))
      (kept ++ due.filter (·.slot.refreshed?.isSome)) w) :
    (Run.each due (notify b signal arguments)).Leads w (fun _ ↦ Mirroring j [] kept)
      (fun _ _ ↦ False) True := by
  induction due generalizing w with
  | nil => exact List.append_nil kept ▸ h
  | cons l due ih =>
    have hl : (notify b signal arguments l).Leads w (fun _ ↦ Mirroring j
        (due.filterMap (·.slot.refreshed?)) (kept ++ due.filter (·.slot.refreshed?.isSome)))
        (fun _ _ ↦ False) True := by
      cases hs : l.slot.refreshed? with
      | none =>
        rw [List.filterMap_cons, hs, List.filter_cons, hs] at h
        exact leads_notify (fun _ _ hv ↦ hv.addEvent _) h ((hb.upholds _ _).fire _ _ _ _)
      | some k =>
        rw [List.filterMap_cons, hs, List.filter_cons, hs] at h
        have hk : kept ++ due.filter (·.slot.refreshed?.isSome) ⊆
            kept ++ l :: due.filter (·.slot.refreshed?.isSome) :=
          List.append_subset.2 ⟨List.subset_append_left _ _,
            fun _ hm ↦ List.mem_append_right _ (List.mem_cons_of_mem _ hm)⟩
        refine leads_notify_of (fun _ _ hv ↦ hv.addEvent _) (fun hn ↦ ?_) ?_
        -- Those told before have taken none of the links that are kept.
        · refine ⟨h.sound, h.tame, fun hd ↦ ?_⟩
          have hm := ((h.mirrors hd).kept l (by simp)).1
          exact absurd (World.isConnected_of_mem hm) (Bool.not_eq_true _ ▸ hn)
        · rw [Slot.refreshed?_eq_some.1 hs]
          exact hb.refresh _ _ _ (h.mono (List.Subset.refl _) hk)
    exact Run.leads_bind.2 (hl.mono (fun _ _ ht ↦ ih ht) fun _ _ ht ↦ ht)

/-- Once a change of the journal has been announced, all listings that show it are up to date. -/
theorem leads_announce (arguments : List Answer) (h : Mirroring j stale kept w) :
    (announce b (.journal j) .historyChanged arguments).Leads w (fun _ ↦ Mirroring j [] kept)
      (fun _ _ ↦ False) True := by
  refine leads_announce_eq.2 (hb.leads_each _ _ (h.grown h.sound.refl h.tame fun hm ↦
    ⟨fun l hl ↦ ?_, hm.linked, fun k hk hn ↦ ?_⟩))
  · rcases List.mem_append.1 hl with hl | hl
    · exact hm.kept l hl
    · rw [List.mem_filter, List.mem_filter] at hl
      exact ⟨hl.1.1, hl.2⟩
  · obtain ⟨l, hl, hsource, hsignal, hslot⟩ := hm.linked k hk
    refine absurd (List.mem_filterMap.2 ⟨l, List.mem_filter.2 ⟨hl, ?_⟩, ?_⟩) hn
    · simp [hsource, hsignal]
    · rw [hslot]
      rfl

theorem leads_announceChange (h : Mirroring j stale kept w) (stale' : List Nat) :
    (journalHost b j).announceChange.Leads w (fun _ ↦ Mirroring j stale' kept)
      (fun _ ↦ Mirroring j stale' kept) True := by
  rw [Journal.Host.leads_announceChange]
  exact (hb.leads_announce _ h).mono
    (fun _ _ ht ↦ ht.mono (List.nil_subset _) (List.Subset.refl _)) fun _ _ ht ↦ ht.elim

/-- A listing that is told reads its rows again, even if others change the journal before it does
so, or after. -/
theorem leads_fireSlot (number : Nat) (signal : Signal) (arguments : List Answer)
    (h : Mirroring j (k :: stale) kept w) :
    (fireSlot b number signal (.refresh k) arguments).Leads w (fun _ ↦ Mirroring j stale kept)
      (fun _ ↦ Mirroring j stale kept) True := by
  have hannounce (signal : Signal) (stale : List Nat) (v : World) (hv : Mirroring j stale kept v) :
      (announce b (.listing k) signal []).Leads v (fun _ ↦ Mirroring j stale kept)
        (fun _ _ ↦ False) True :=
    Session.leads_announce (fun _ _ hv ↦ hv.addEvent _) hv
      fun _ _ _ _ ↦ (hb.upholds _ _).fire _ _ _ _
  unfold fireSlot
  rw [Run.leads_bind, Run.leads_get]
  split
  · rename_i hk
    unfold Session.refresh
    rw [Run.leads_bind, Run.leads_modify, Run.leads_bind]
    refine (hannounce _ _ _ (h.begun hk)).mono (fun _ t ht ↦ ?_) fun _ _ ht ↦ ht.elim
    rw [Run.leads_bind, Run.leads_modify, Run.leads_bind]
    exact (hannounce _ _ _ ht.read).mono (fun _ t ht ↦ ht.done k) fun _ _ ht ↦ ht.elim
  · -- A listing that has ceased to follow shows nothing any more.
    rename_i hn
    refine h.grown h.sound.refl h.tame fun hm ↦ ⟨hm.kept, hm.linked, fun i hi hs ↦
      hm.fresh i hi (List.not_mem_cons_of_ne_of_not_mem ?_ hs)⟩
    rintro rfl
    exact hn hi.2

end Announcing

section Histories

variable (hb : b.Refreshes j)

include hb

theorem heard (stale : List Nat) (kept : List Link) (k : Nat) :
    (journalHost b k).Heard (Mirroring j stale kept) :=
  (upheld_mirroring j stale kept).heardJournal (hb.upholds stale kept) k

theorem leads_add {name : Text} {i : Nat} (h : Mirroring j stale kept w)
    (hi : w.item name = .ok i) :
    ((journalHost b k).add i).Leads w (fun _ ↦ Mirroring j stale kept)
      (fun _ ↦ Mirroring j stale kept) True := by
  rcases (Decidable.em (k = j)).symm with hk | rfl
  · have hpush : Mirroring j stale kept ((journalHost b k).update (·.push i) w) :=
      h.journal (fun hl ↦ hl) fun he ↦ absurd he hk
    refine (hb.heard stale kept k).leads_add h (fun t ht ↦ ?_) fun _ _ ↦ hpush
    refine hpush.journal (fun hl ↦ ?_) fun he ↦ absurd he hk
    obtain ⟨t', ht', hlimit⟩ := Journal.exists_trim hl
    cases ht.symm.trans ht'
    exact hlimit ▸ hl
  · -- No listing is up to date until the change is announced, which nothing before can prevent.
    refine (hb.heard stale kept k).leads_add_of h fun he hp ↦ ?_
    refine (Journal.Host.leads_add_recorded he hp).2 ?_
    have hpush : Mirroring k _ kept ((journalHost b k).update (·.push i) w) :=
      h.journal_stale fun hl ↦ hl
    obtain ⟨t, ht, hlimit⟩ := Journal.exists_trim (hpush.tame.bound_journal k)
    refine (Run.leads_lift_ok ht).2 ?_
    have htrim : Mirroring k _ kept
        ((journalHost b k).update (fun _ ↦ t) ((journalHost b k).update (·.push i) w)) :=
      hpush.journal_stale fun hl ↦ hlimit ▸ hl
    refine Journal.Host.leads_tell.2 ⟨fun v _ ↦ ?_, fun e he ↦ ?_⟩
    · have hlog := (upheld_mirroring _ _ _).log (Journal.Remark.recorded v t.position).text _ htrim
      refine ((upheld_mirroring _ _ _).leads_announceJournal (hb.upholds _ _) hlog k
        (.recorded i)).mono (fun _ u hu ↦ ?_) fun _ _ hu ↦ hu.elim
      exact hb.leads_announceChange hu stale
    · refine htrim.of_undescribed fun hd ↦ ?_
      obtain ⟨v, hv⟩ := hd.exists_describe (h.tame.lt_of_item hi)
      cases hv.symm.trans he

theorem clear (k : Nat) : (journalHost b k).clear.Keeps (Mirroring j stale kept) := by
  intro w h
  rcases (Decidable.em (k = j)).symm with hk | rfl
  · exact (hb.heard stale kept k).leads_clear (h.journal (fun hl ↦ hl) fun he ↦ absurd he hk)
  · have hempty : Mirroring k _ kept ((journalHost b k).update (·.empty) w) :=
      h.journal_stale fun hl ↦ hl
    have hlog := (upheld_mirroring _ _ _).log Journal.Remark.cleared.text _ hempty
    exact Journal.Host.leads_clear.2 (hb.leads_announceChange hlog stale)

theorem histories (stale : List Nat) (kept : List Link) :
    Histories .tame (Mirroring j stale kept) b := by
  have hj := hb.heard stale kept
  have ht (k : Nat) : (timelineHost b k).Steady (Mirroring j stale kept) := {
    toHeard := (upheld_mirroring j stale kept).heardTimeline (hb.upholds stale kept) k
    update := fun f w h ↦
      h.frame (h.sound.grown_timeline k f) rfl rfl rfl rfl rfl fun _ hk ↦ hk }
  have hu (k : Nat) (f : Journal Nat → Journal Nat)
      (hf : ∀ i, (f i).entries = i.entries ∧ (f i).limit = i.limit) (w : World)
      (h : Mirroring j stale kept w) : Mirroring j stale kept ((journalHost b k).update f w) := by
    refine h.journal (fun hl ↦ ?_) fun _ ↦ (hf _).1
    rwa [(hf _).2]
  have hcall (k : Nat) (way : Way) (w : World) (i : Nat) (h : Mirroring j stale kept w) :
      (b.call way i).Leads ((journalHost b k).update ({ · with replaying := true }) w)
        (fun _ ↦ Mirroring j stale kept) (fun _ ↦ Mirroring j stale kept) True :=
    (hb.upholds stale kept).call way i _ (hu k ({ · with replaying := true }) (fun _ ↦ ⟨rfl, rfl⟩)
      w h)
  exact {
    add := fun k h hi ↦ hb.leads_add h hi
    undo := fun k ↦ (hj k).undo (hu k) fun w i m h _ hm ↦ eq_call_of_map hm ▸ hcall k _ w i h
    redo := fun k ↦ (hj k).redo (hu k) fun w i m h _ hm ↦ eq_call_of_map hm ▸ hcall k _ w i h
    clear := hb.clear
    enable := fun k v w h ↦ h.journal (fun hl ↦ hl) fun _ ↦ rfl
    limit := fun k v hv w h ↦ h.journal (fun _ ↦ hv) fun _ ↦ rfl
    addState := fun k h _ ↦ (ht k).add _ _ h
    back := fun k ↦ (ht k).undo ((hb.upholds stale kept).call _)
    forth := fun k ↦ (ht k).redo ((hb.upholds stale kept).call _)
    clearStates := fun k ↦ (ht k).clear
    enableStates := fun k _ ↦ (ht k).change _
    limitStates := fun k _ _ ↦ (ht k).change _
    mode := fun k ↦ (upheld_mirroring j stale kept).setMode (hb.upholds stale kept) k
      fun mode h ↦ h.setMode k mode }

end Histories

end Inner.Refreshes

theorem inner_refreshes (j n : Nat) : (inner n).Refreshes j := by
  induction n with
  | zero =>
    exact ⟨fun _ _ ↦ ⟨fun _ _ ↦ .raise _, fun _ _ ↦ .raise _, fun _ _ _ _ _ _ ↦ trivial⟩,
      fun _ _ _ _ ↦ trivial⟩
  | succ n ih =>
    exact ⟨fun stale kept ↦ (upheld_mirroring j stale kept).upholds (ih.upholds stale kept)
      (ih.histories stale kept) fun _ e h ↦ h.addEvent e, ih.leads_fireSlot⟩

theorem ReachedTamely.mirroring (h : ReachedTamely w) (j : Nat) : Mirroring j [] [] w := by
  induction h with
  | start logging =>
    refine ⟨World.sound_new logging, World.tame_new logging,
      fun _ ↦ ⟨nofun, fun k hk ↦ ?_, fun k hk ↦ ?_⟩⟩
    · obtain ⟨⟨l, hl⟩, -⟩ := hk
      cases hl
    · obtain ⟨⟨l, hl⟩, -⟩ := hk
      cases hl
  | @step w w' _ n step ht hs ih =>
    have hb := inner_refreshes j n
    exact ((upheld_mirroring j [] []).perform (hb.upholds [] []) (hb.histories [] []) ht w ih).ended
      hs
  | forget _ events ih => exact ih.aside _ _ _

end Rewind.Session
