import Rewind.Journal.Host
import Rewind.Proofs.Leads
import Rewind.Timeline.Host

namespace Rewind

variable {σ ι : Type} {s : σ} {Q : Unit → σ → Prop} {E : Fault → σ → Prop} {X : Prop}

namespace Journal.Host

variable {h : Host σ ι}

@[simp]
theorem leads_look {Q : Journal ι → σ → Prop} : h.look.Leads s Q E X ↔ Q (h.journal s) s := Iff.rfl

@[simp]
theorem leads_change {f : Journal ι → Journal ι} :
    (h.change f).Leads s Q E X ↔ Q () (h.update f s) := Iff.rfl

theorem leads_tell {x : ι} {Q : Value → σ → Prop} :
    (h.tell x).Leads s Q E X ↔
      (∀ v, h.describe s x = .ok v → Q v s) ∧ ∀ e, h.describe s x = .error e → E e s :=
  Run.leads_ask

@[simp]
theorem leads_announceChange :
    h.announceChange.Leads s Q E X ↔
      (h.announce (.changed (h.journal s).canUndo (h.journal s).canRedo)).Leads s Q E X := by
  simp only [announceChange, Run.leads_bind, leads_look]

/-- An edit that is not to be recorded is only remarked on. -/
theorem leads_add_ignored {x : ι} {r : Value → Remark}
    (hr : (h.journal s).enabled.truth = false ∧ r = .disabled ∨
      (h.journal s).enabled.truth = true ∧ (h.journal s).replaying = true ∧ r = .replaying) :
    (h.add x).Leads s Q E X ↔ (h.tell x).Leads s (fun v t ↦ (h.log (r v)).Leads t Q E X) E X := by
  rcases hr with ⟨he, rfl⟩ | ⟨he, hp, rfl⟩
  · simp [add, he]
  · simp [add, he, hp]

theorem leads_add_recorded {x : ι} (he : (h.journal s).enabled.truth = true)
    (hp : (h.journal s).replaying = false) :
    (h.add x).Leads s Q E X ↔
      (Run.lift (h.journal (h.update (·.push x) s)).trim).Leads (h.update (·.push x) s) (fun j t ↦
        (h.tell x).Leads (h.update (fun _ ↦ j) t) (fun v t ↦
          (h.log (.recorded v j.position)).Leads t (fun _ t ↦
            (h.announce (.recorded x)).Leads t (fun _ t ↦ h.announceChange.Leads t Q E X) E X)
          E X) E X) E X := by
  simp [add, he, hp]

theorem leads_replay {action : Run σ Unit} :
    (h.replay action).Leads s Q E X ↔
      action.Leads (h.update ({ · with replaying := true }) s)
        (fun _ t ↦ Q () (h.update ({ · with replaying := false }) t))
        (fun e t ↦ E e (h.update ({ · with replaying := false }) t)) X := by
  simp only [replay, Run.leads_bind, leads_change, Run.leads_ensuring]

/-- What remains to be done once the code of an edit has run. -/
def settle (h : Host σ ι) (d : Int) (r : Value → Int → Remark) (n : Notice ι) (x : ι) :
    Run σ Unit := do
  h.change (·.move d)
  h.log (r (← h.tell x) (← h.look).position)
  h.announce n
  h.announceChange

theorem leads_undo
    (hnone : (h.journal s).canUndo = false → E .nothingToUndo s)
    (hout : (h.journal s).canUndo = true → (h.journal s).last? = none →
      E (.atPosition ((h.journal s).position - 1)) s)
    (hsome : ∀ x, (h.journal s).canUndo = true → (h.journal s).last? = some x →
      (Run.ask fun s ↦ h.revert s x).Leads s
        (fun code t ↦ (h.replay code).Leads t
          (fun _ t ↦ (h.settle (-1) .undone (.undone x) x).Leads t Q E X) E X) E X) :
    h.undo.Leads s Q E X := by
  simp only [undo, Run.leads_bind, leads_look]
  cases hu : (h.journal s).canUndo with
  | false => exact hnone hu
  | true =>
    cases hl : (h.journal s).last? with
    | none => exact hout hu hl
    | some x =>
      simpa only [settle, Run.leads_bind, Bool.not_true, Bool.false_eq_true, if_false]
        using hsome x hu hl

theorem leads_redo
    (hnone : (h.journal s).canRedo = false → E .nothingToRedo s)
    (hout : (h.journal s).canRedo = true → (h.journal s).next? = none →
      E (.atPosition (h.journal s).position) s)
    (hsome : ∀ x, (h.journal s).canRedo = true → (h.journal s).next? = some x →
      (Run.ask fun s ↦ h.reapply s x).Leads s
        (fun code t ↦ (h.replay code).Leads t
          (fun _ t ↦ (h.settle 1 .redone (.redone x) x).Leads t Q E X) E X) E X) :
    h.redo.Leads s Q E X := by
  simp only [redo, Run.leads_bind, leads_look]
  cases hu : (h.journal s).canRedo with
  | false => exact hnone hu
  | true =>
    cases hl : (h.journal s).next? with
    | none => exact hout hu hl
    | some x =>
      simpa only [settle, Run.leads_bind, Bool.not_true, Bool.false_eq_true, if_false]
        using hsome x hu hl

theorem leads_clear :
    h.clear.Leads s Q E X ↔
      (h.log .cleared).Leads (h.update (·.empty) s) (fun _ t ↦ h.announceChange.Leads t Q E X)
        E X := by
  simp only [clear, Run.leads_bind, leads_change]

/-- What remains to be done once the journal has changed leads from `J` to `I`, whatever fails on
the way, if it is about what is in `P`. -/
structure Told (h : Host σ ι) (P : ι → Prop) (J I : σ → Prop) (X : Prop := True) : Prop where
  announce : ∀ n s, J s → (h.announce n).Leads s (fun _ ↦ J) (fun _ ↦ I) X
  log : ∀ r s, J s → (h.log r).Leads s (fun _ ↦ J) (fun _ ↦ I) X
  change : ∀ s, J s → h.announceChange.Leads s (fun _ ↦ I) (fun _ ↦ I) X
  failed : ∀ {s x e}, J s → P x → h.describe s x = .error e → I s

namespace Told

variable {P : ι → Prop} {I J : σ → Prop}

theorem leads_log (hh : h.Told P J I X) (r : Remark) (n : Notice ι) (hs : J s) :
    (h.log r).Leads s (fun _ t ↦ (h.announce n).Leads t
      (fun _ t ↦ h.announceChange.Leads t (fun _ ↦ I) (fun _ ↦ I) X) (fun _ ↦ I) X)
      (fun _ ↦ I) X :=
  (hh.log r s hs).mono (fun _ t ht ↦ (hh.announce n t ht).mono (fun _ u hu ↦ hh.change u hu)
    fun _ _ hu ↦ hu) fun _ _ ht ↦ ht

theorem leads_add_recorded (hh : h.Told P J I X) {x : ι} (hx : P x)
    (he : (h.journal s).enabled.truth = true) (hp : (h.journal s).replaying = false)
    (hrecorded : ∀ j, (h.journal (h.update (·.push x) s)).trim = .ok j →
      J (h.update (fun _ ↦ j) (h.update (·.push x) s)))
    (hfailed : ∀ e, (h.journal (h.update (·.push x) s)).trim = .error e →
      I (h.update (·.push x) s)) :
    (h.add x).Leads s (fun _ ↦ I) (fun _ ↦ I) X := by
  refine (Host.leads_add_recorded he hp).2 (Run.leads_lift.2 ⟨fun j hj ↦ ?_, hfailed⟩)
  have ht := hrecorded j hj
  exact Host.leads_tell.2 ⟨fun v _ ↦ hh.leads_log _ _ ht, fun _ he ↦ hh.failed ht hx he⟩

theorem leads_settle (hh : h.Told P J I X) {d : Int} (r : Value → Int → Remark) (n : Notice ι)
    {x : ι} (hx : P x) (hs : J (h.update (·.move d) s)) :
    (h.settle d r n x).Leads s (fun _ ↦ I) (fun _ ↦ I) X := by
  simp only [settle, Run.leads_bind, leads_change, leads_look]
  exact Host.leads_tell.2 ⟨fun v _ ↦ hh.leads_log _ _ hs, fun _ he ↦ hh.failed hs hx he⟩

theorem leads_clear (hh : h.Told P J I X) (hs : J (h.update (·.empty) s)) :
    h.clear.Leads s (fun _ ↦ I) (fun _ ↦ I) X :=
  Host.leads_clear.2 ((hh.log _ _ hs).mono (fun _ t ht ↦ hh.change t ht) fun _ _ ht ↦ ht)

/-- The code of an edit is run, and the position moves unless that has failed. -/
theorem leads_replay (hh : h.Told P J I X) {K : σ → Prop} {action : Run σ Unit} {d : Int}
    (r : Value → Int → Remark) (n : Notice ι) {x : ι} (hx : P x)
    (hidle : ∀ t, K t → I (h.update ({ · with replaying := false }) t))
    (hmoved : ∀ t, K t → J (h.update (·.move d) (h.update ({ · with replaying := false }) t)))
    (ha : action.Leads (h.update ({ · with replaying := true }) s) (fun _ ↦ K) (fun _ ↦ K) X) :
    (h.replay action).Leads s (fun _ t ↦ (h.settle d r n x).Leads t (fun _ ↦ I) (fun _ ↦ I) X)
      (fun _ ↦ I) X :=
  Host.leads_replay.2 (ha.mono (fun _ t ht ↦ hh.leads_settle r n hx (hmoved t ht))
    fun _ t ht ↦ hidle t ht)

end Told

/-- Those who hear of the journal make no difference to `I`, nor does what is written of it. -/
structure Heard (h : Host σ ι) (I : σ → Prop) (X : Prop := True) : Prop where
  announce : ∀ n, (h.announce n).Keeps I X
  log : ∀ r, (h.log r).Keeps I X

namespace Heard

variable {I : σ → Prop}

theorem announceChange (hh : h.Heard I X) : h.announceChange.Keeps I X :=
  fun s hs ↦ leads_announceChange.2 (hh.announce _ s hs)

theorem told (hh : h.Heard I X) : h.Told (fun _ ↦ True) I I X :=
  ⟨hh.announce, hh.log, hh.announceChange, fun hs _ _ ↦ hs⟩

/-- Only an edit that is recorded can make a difference. -/
theorem leads_add_of (hh : h.Heard I X) {x : ι} (hs : I s)
    (hrecorded : (h.journal s).enabled.truth = true → (h.journal s).replaying = false →
      (h.add x).Leads s (fun _ ↦ I) (fun _ ↦ I) X) :
    (h.add x).Leads s (fun _ ↦ I) (fun _ ↦ I) X := by
  have hignored (r : Value → Remark) : (h.tell x).Leads s
      (fun v t ↦ (h.log (r v)).Leads t (fun _ ↦ I) (fun _ ↦ I) X) (fun _ ↦ I) X :=
    leads_tell.2 ⟨fun v _ ↦ hh.log _ s hs, fun _ _ ↦ hs⟩
  cases he : (h.journal s).enabled.truth with
  | false => exact (leads_add_ignored (.inl ⟨he, rfl⟩)).2 (hignored _)
  | true =>
    cases hp : (h.journal s).replaying with
    | true => exact (leads_add_ignored (.inr ⟨he, hp, rfl⟩)).2 (hignored _)
    | false => exact hrecorded he hp

theorem leads_add (hh : h.Heard I X) {x : ι} (hs : I s)
    (hrecorded : ∀ j, (h.journal (h.update (·.push x) s)).trim = .ok j →
      I (h.update (fun _ ↦ j) (h.update (·.push x) s)))
    (hfailed : ∀ e, (h.journal (h.update (·.push x) s)).trim = .error e →
      I (h.update (·.push x) s)) :
    (h.add x).Leads s (fun _ ↦ I) (fun _ ↦ I) X :=
  hh.leads_add_of hs fun he hp ↦ hh.told.leads_add_recorded trivial he hp hrecorded hfailed

theorem leads_settle (hh : h.Heard I X) {d : Int} (r : Value → Int → Remark) (n : Notice ι) (x : ι)
    (hs : I (h.update (·.move d) s)) : (h.settle d r n x).Leads s (fun _ ↦ I) (fun _ ↦ I) X :=
  hh.told.leads_settle r n trivial hs

theorem leads_clear (hh : h.Heard I X) (hs : I (h.update (·.empty) s)) :
    h.clear.Leads s (fun _ ↦ I) (fun _ ↦ I) X := hh.told.leads_clear hs

section Replay

variable (hu : ∀ f : Journal ι → Journal ι,
  (∀ j, (f j).entries = j.entries ∧ (f j).limit = j.limit) → ∀ s, I s → I (h.update f s))

include hu

theorem leads_replay (hh : h.Heard I X) {action : Run σ Unit} {d : Int}
    (r : Value → Int → Remark) (n : Notice ι) (x : ι)
    (ha : action.Leads (h.update ({ · with replaying := true }) s) (fun _ ↦ I) (fun _ ↦ I) X) :
    (h.replay action).Leads s (fun _ t ↦ (h.settle d r n x).Leads t (fun _ ↦ I) (fun _ ↦ I) X)
      (fun _ ↦ I) X := by
  have hidle (t : σ) (ht : I t) : I (h.update ({ · with replaying := false }) t) :=
    hu ({ · with replaying := false }) (fun _ ↦ ⟨rfl, rfl⟩) t ht
  exact hh.told.leads_replay r n trivial hidle
    (fun t ht ↦ hu (·.move d) (fun _ ↦ ⟨rfl, rfl⟩) _ (hidle t ht)) ha

theorem undo (hh : h.Heard I X)
    (hcode : ∀ s x m, I s → x ∈ (h.journal s).entries → h.revert s x = .ok m →
      m.Leads (h.update ({ · with replaying := true }) s) (fun _ ↦ I) (fun _ ↦ I) X) :
    h.undo.Keeps I X := by
  refine fun s hs ↦ leads_undo (fun _ ↦ hs) (fun _ _ ↦ hs) fun x _ hl ↦ ?_
  refine Run.leads_ask.2 ⟨fun m hm ↦ ?_, fun _ _ ↦ hs⟩
  exact hh.leads_replay hu _ _ x (hcode s x m hs (Position.mem_of_item? hl) hm)

theorem redo (hh : h.Heard I X)
    (hcode : ∀ s x m, I s → x ∈ (h.journal s).entries → h.reapply s x = .ok m →
      m.Leads (h.update ({ · with replaying := true }) s) (fun _ ↦ I) (fun _ ↦ I) X) :
    h.redo.Keeps I X := by
  refine fun s hs ↦ leads_redo (fun _ ↦ hs) (fun _ _ ↦ hs) fun x _ hl ↦ ?_
  refine Run.leads_ask.2 ⟨fun m hm ↦ ?_, fun _ _ ↦ hs⟩
  exact hh.leads_replay hu _ _ x (hcode s x m hs (Position.mem_of_item? hl) hm)

end Replay

end Heard

/-- What becomes of the journal makes no difference to `I`, as long as nothing but what is in `P` is
recorded, nor do those who hear of it. -/
structure Steady (h : Host σ ι) (P : ι → Prop) (I : σ → Prop) (X : Prop := True) : Prop
    extends h.Heard I X where
  update : ∀ f s, I s → (∀ x ∈ (f (h.journal s)).entries, x ∈ (h.journal s).entries ∨ P x) →
    I (h.update f s)

namespace Steady

variable {P : ι → Prop} {I : σ → Prop}

theorem change (hh : h.Steady P I X) {f : Journal ι → Journal ι}
    (hf : ∀ j, (f j).entries ⊆ j.entries) : (h.change f).Keeps I X :=
  .modify fun s hs ↦ hh.update f s hs fun _ hx ↦ .inl (hf _ hx)

theorem add (hh : h.Steady P I X) {x : ι} (hx : P x) : (h.add x).Keeps I X := by
  intro s hs
  have hpush : I (h.update (·.push x) s) := by
    refine hh.update _ s hs fun y hy ↦ ?_
    rcases mem_of_push hy with hy | rfl
    · exact .inl hy
    · exact .inr hx
  exact hh.leads_add hs (fun j hj ↦ hh.update _ _ hpush fun _ hy ↦ .inl (entries_of_trim hj hy))
    fun _ _ ↦ hpush

theorem undo (hh : h.Steady P I X)
    (hcode : ∀ s x m, I s → x ∈ (h.journal s).entries → h.revert s x = .ok m →
      m.Leads (h.update ({ · with replaying := true }) s) (fun _ ↦ I) (fun _ ↦ I) X) :
    h.undo.Keeps I X :=
  hh.toHeard.undo (fun _ hf s hs ↦ hh.update _ s hs fun _ hx ↦ .inl ((hf _).1 ▸ hx)) hcode

theorem redo (hh : h.Steady P I X)
    (hcode : ∀ s x m, I s → x ∈ (h.journal s).entries → h.reapply s x = .ok m →
      m.Leads (h.update ({ · with replaying := true }) s) (fun _ ↦ I) (fun _ ↦ I) X) :
    h.redo.Keeps I X :=
  hh.toHeard.redo (fun _ hf s hs ↦ hh.update _ s hs fun _ hx ↦ .inl ((hf _).1 ▸ hx)) hcode

theorem clear (hh : h.Steady P I X) : h.clear.Keeps I X :=
  fun s hs ↦ hh.leads_clear (hh.update _ s hs fun _ hx ↦ absurd hx List.not_mem_nil)

end Steady

end Journal.Host

namespace Timeline.Host

variable {h : Host σ ι}

@[simp]
theorem leads_look {Q : Timeline ι → σ → Prop} :
    h.look.Leads s Q E X ↔ Q (h.timeline s) s := Iff.rfl

@[simp]
theorem leads_change {f : Timeline ι → Timeline ι} :
    (h.change f).Leads s Q E X ↔ Q () (h.update f s) := Iff.rfl

theorem leads_tell {x : ι} {Q : Value → σ → Prop} :
    (h.tell x).Leads s Q E X ↔
      (∀ v, h.describe s x = .ok v → Q v s) ∧ ∀ e, h.describe s x = .error e → E e s :=
  Run.leads_ask

@[simp]
theorem leads_announceChange :
    h.announceChange.Leads s Q E X ↔
      (h.announce (.changed (h.timeline s).canUndo (h.timeline s).canRedo)).Leads s Q E X := by
  simp only [announceChange, Run.leads_bind, leads_look]

/-- A state that is not to be recorded is only remarked on. -/
theorem leads_add_ignored {x : ι} {r : Value → Remark}
    (hr : (h.timeline s).enabled.truth = false ∧ r = .disabled ∨
      (h.timeline s).enabled.truth = true ∧ (h.timeline s).restoring = true ∧ r = .restoring) :
    (h.add x).Leads s Q E X ↔ (h.tell x).Leads s (fun v t ↦ (h.log (r v)).Leads t Q E X) E X := by
  rcases hr with ⟨he, rfl⟩ | ⟨he, hp, rfl⟩
  · simp [add, he]
  · simp [add, he, hp]

theorem leads_add_recorded {x : ι} (he : (h.timeline s).enabled.truth = true)
    (hp : (h.timeline s).restoring = false) :
    (h.add x).Leads s Q E X ↔
      (Run.lift (h.timeline (h.update (·.push (h.same s) x) s)).trim).Leads
        (h.update (·.push (h.same s) x) s) (fun l t ↦
          (h.tell x).Leads (h.update (fun _ ↦ l) t) (fun v t ↦
            (h.log (.recorded v l.pointer)).Leads t (fun _ t ↦
              (h.announce (.recorded x)).Leads t (fun _ t ↦ h.announceChange.Leads t Q E X) E X)
            E X) E X) E X := by
  simp [add, he, hp]

/-- What remains to be done once a state has been restored. -/
def settle (h : Host σ ι) (i : Int) (x : ι) : Run σ Unit := do
  h.change ({ · with pointer := i })
  h.log (.restored (← h.tell x) (← h.look).pointer)
  h.announce (.restored x)
  h.announceChange

theorem leads_moveTo {i : Int}
    (hnone : Position.item? (h.timeline s).entries i = none → E .outOfRange s)
    (hsome : ∀ x, Position.item? (h.timeline s).entries i = some x →
      (h.restore x).Leads (h.update ({ · with restoring := true }) s)
        (fun _ t ↦ (h.settle i x).Leads (h.update ({ · with restoring := false }) t) Q E X)
        (fun e t ↦ E e (h.update ({ · with restoring := false }) t)) X) :
    (h.moveTo i).Leads s Q E X := by
  simp only [moveTo, Run.leads_bind, leads_look]
  cases hi : Position.item? (h.timeline s).entries i with
  | none => exact hnone hi
  | some x =>
    simpa only [settle, Run.leads_bind, leads_change, Run.leads_ensuring] using hsome x hi

theorem leads_undo
    (hnone : (h.timeline s).isEmpty = true ∨ (h.timeline s).pointer = 0 → Q () s)
    (hsome : (h.timeline s).isEmpty = false → (h.timeline s).pointer ≠ 0 →
      (h.moveTo ((h.timeline s).pointer - 1)).Leads s Q E X) :
    h.undo.Leads s Q E X := by
  simp only [undo, Run.leads_bind, leads_look]
  split
  · rename_i hn
    exact hnone (by simpa using hn)
  · rename_i hn
    simp only [Bool.or_eq_true, beq_iff_eq, not_or, Bool.not_eq_true] at hn
    exact hsome hn.1 hn.2

theorem leads_redo
    (hnone : (h.timeline s).pointer = (h.timeline s).entries.length - 1 → Q () s)
    (hsome : (h.timeline s).pointer ≠ (h.timeline s).entries.length - 1 →
      (h.moveTo ((h.timeline s).pointer + 1)).Leads s Q E X) :
    h.redo.Leads s Q E X := by
  simp only [redo, Run.leads_bind, leads_look]
  split
  · rename_i hn
    exact hnone (by simpa using hn)
  · rename_i hn
    exact hsome (by simpa using hn)

theorem leads_clear :
    h.clear.Leads s Q E X ↔
      (h.log .cleared).Leads (h.update (·.empty) s) (fun _ t ↦ h.announceChange.Leads t Q E X)
        E X := by
  simp only [clear, Run.leads_bind, leads_change]

/-- What remains to be done once the timeline has changed leads from `J` to `I`, whatever fails on
the way, if it is about what is in `P`. -/
structure Told (h : Host σ ι) (P : ι → Prop) (J I : σ → Prop) (X : Prop := True) : Prop where
  announce : ∀ n s, J s → (h.announce n).Leads s (fun _ ↦ J) (fun _ ↦ I) X
  log : ∀ r s, J s → (h.log r).Leads s (fun _ ↦ J) (fun _ ↦ I) X
  change : ∀ s, J s → h.announceChange.Leads s (fun _ ↦ I) (fun _ ↦ I) X
  failed : ∀ {s x e}, J s → P x → h.describe s x = .error e → I s

namespace Told

variable {P : ι → Prop} {I J : σ → Prop}

theorem leads_log (hh : h.Told P J I X) (r : Remark) (n : Notice ι) (hs : J s) :
    (h.log r).Leads s (fun _ t ↦ (h.announce n).Leads t
      (fun _ t ↦ h.announceChange.Leads t (fun _ ↦ I) (fun _ ↦ I) X) (fun _ ↦ I) X)
      (fun _ ↦ I) X :=
  (hh.log r s hs).mono (fun _ t ht ↦ (hh.announce n t ht).mono (fun _ u hu ↦ hh.change u hu)
    fun _ _ hu ↦ hu) fun _ _ ht ↦ ht

theorem leads_add_recorded (hh : h.Told P J I X) {x : ι} (hx : P x)
    (he : (h.timeline s).enabled.truth = true) (hp : (h.timeline s).restoring = false)
    (hrecorded : ∀ l, (h.timeline (h.update (·.push (h.same s) x) s)).trim = .ok l →
      J (h.update (fun _ ↦ l) (h.update (·.push (h.same s) x) s)))
    (hfailed : ∀ e, (h.timeline (h.update (·.push (h.same s) x) s)).trim = .error e →
      I (h.update (·.push (h.same s) x) s)) :
    (h.add x).Leads s (fun _ ↦ I) (fun _ ↦ I) X := by
  refine (Host.leads_add_recorded he hp).2 (Run.leads_lift.2 ⟨fun l hl ↦ ?_, hfailed⟩)
  have ht := hrecorded l hl
  exact Host.leads_tell.2 ⟨fun v _ ↦ hh.leads_log _ _ ht, fun _ he ↦ hh.failed ht hx he⟩

theorem leads_settle (hh : h.Told P J I X) {i : Int} {x : ι} (hx : P x)
    (hs : J (h.update ({ · with pointer := i }) s)) :
    (h.settle i x).Leads s (fun _ ↦ I) (fun _ ↦ I) X := by
  simp only [settle, Run.leads_bind, leads_change, leads_look]
  exact Host.leads_tell.2 ⟨fun v _ ↦ hh.leads_log _ _ hs, fun _ he ↦ hh.failed hs hx he⟩

theorem leads_clear (hh : h.Told P J I X) (hs : J (h.update (·.empty) s)) :
    h.clear.Leads s (fun _ ↦ I) (fun _ ↦ I) X :=
  Host.leads_clear.2 ((hh.log _ _ hs).mono (fun _ t ht ↦ hh.change t ht) fun _ _ ht ↦ ht)

end Told

/-- Those who hear of the timeline make no difference to `I`, nor does what is written of it. -/
structure Heard (h : Host σ ι) (I : σ → Prop) (X : Prop := True) : Prop where
  announce : ∀ n, (h.announce n).Keeps I X
  log : ∀ r, (h.log r).Keeps I X

namespace Heard

variable {I : σ → Prop}

theorem announceChange (hh : h.Heard I X) : h.announceChange.Keeps I X :=
  fun s hs ↦ leads_announceChange.2 (hh.announce _ s hs)

theorem told (hh : h.Heard I X) : h.Told (fun _ ↦ True) I I X :=
  ⟨hh.announce, hh.log, hh.announceChange, fun hs _ _ ↦ hs⟩

/-- Only a state that is recorded can make a difference. -/
theorem leads_add_of (hh : h.Heard I X) {x : ι} (hs : I s)
    (hrecorded : (h.timeline s).enabled.truth = true → (h.timeline s).restoring = false →
      (h.add x).Leads s (fun _ ↦ I) (fun _ ↦ I) X) :
    (h.add x).Leads s (fun _ ↦ I) (fun _ ↦ I) X := by
  have hignored (r : Value → Remark) : (h.tell x).Leads s
      (fun v t ↦ (h.log (r v)).Leads t (fun _ ↦ I) (fun _ ↦ I) X) (fun _ ↦ I) X :=
    leads_tell.2 ⟨fun v _ ↦ hh.log _ s hs, fun _ _ ↦ hs⟩
  cases he : (h.timeline s).enabled.truth with
  | false => exact (leads_add_ignored (.inl ⟨he, rfl⟩)).2 (hignored _)
  | true =>
    cases hp : (h.timeline s).restoring with
    | true => exact (leads_add_ignored (.inr ⟨he, hp, rfl⟩)).2 (hignored _)
    | false => exact hrecorded he hp

theorem leads_add (hh : h.Heard I X) {x : ι} (hs : I s)
    (hrecorded : ∀ l, (h.timeline (h.update (·.push (h.same s) x) s)).trim = .ok l →
      I (h.update (fun _ ↦ l) (h.update (·.push (h.same s) x) s)))
    (hfailed : ∀ e, (h.timeline (h.update (·.push (h.same s) x) s)).trim = .error e →
      I (h.update (·.push (h.same s) x) s)) :
    (h.add x).Leads s (fun _ ↦ I) (fun _ ↦ I) X :=
  hh.leads_add_of hs fun he hp ↦ hh.told.leads_add_recorded trivial he hp hrecorded hfailed

theorem leads_settle (hh : h.Heard I X) {i : Int} (x : ι)
    (hs : I (h.update ({ · with pointer := i }) s)) :
    (h.settle i x).Leads s (fun _ ↦ I) (fun _ ↦ I) X := hh.told.leads_settle trivial hs

theorem leads_clear (hh : h.Heard I X) (hs : I (h.update (·.empty) s)) :
    h.clear.Leads s (fun _ ↦ I) (fun _ ↦ I) X := hh.told.leads_clear hs

end Heard

/-- What becomes of the timeline makes no difference to `I`, nor do those who hear of it. -/
structure Steady (h : Host σ ι) (I : σ → Prop) (X : Prop := True) : Prop extends h.Heard I X where
  update : ∀ f s, I s → I (h.update f s)

namespace Steady

variable {I : σ → Prop}

theorem change (hh : h.Steady I X) (f : Timeline ι → Timeline ι) : (h.change f).Keeps I X :=
  .modify (hh.update f)

theorem add (hh : h.Steady I X) (x : ι) : (h.add x).Keeps I X :=
  fun s hs ↦ hh.leads_add hs (fun _ _ ↦ hh.update _ _ (hh.update _ s hs)) fun _ _ ↦ hh.update _ s hs

theorem settle (hh : h.Steady I X) (i : Int) (x : ι) : (h.settle i x).Keeps I X :=
  fun s hs ↦ hh.leads_settle x (hh.update _ s hs)

theorem moveTo (hh : h.Steady I X) (hrestore : ∀ x, (h.restore x).Keeps I X) (i : Int) :
    (h.moveTo i).Keeps I X := by
  refine fun s hs ↦ leads_moveTo (fun _ ↦ hs) fun x _ ↦ ?_
  refine (hrestore x _ (hh.update _ s hs)).mono (fun _ t ht ↦ ?_) (fun _ t ht ↦ hh.update _ t ht)
  exact hh.settle i x _ (hh.update _ t ht)

theorem undo (hh : h.Steady I X) (hrestore : ∀ x, (h.restore x).Keeps I X) : h.undo.Keeps I X :=
  fun s hs ↦ leads_undo (fun _ ↦ hs) fun _ _ ↦ hh.moveTo hrestore _ s hs

theorem redo (hh : h.Steady I X) (hrestore : ∀ x, (h.restore x).Keeps I X) : h.redo.Keeps I X :=
  fun s hs ↦ leads_redo (fun _ ↦ hs) fun _ ↦ hh.moveTo hrestore _ s hs

theorem clear (hh : h.Steady I X) : h.clear.Keeps I X :=
  fun s hs ↦ hh.leads_clear (hh.update _ s hs)

end Steady

end Timeline.Host

end Rewind
