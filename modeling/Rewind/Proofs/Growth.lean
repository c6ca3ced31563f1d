import Rewind.Proofs.Upkeep
import Rewind.Session

namespace Rewind.Session

/-- What is done one level deeper keeps to `I`. -/
structure Inner.Keeps (b : Inner) (I : World → Prop) : Prop where
  steps : ∀ steps, (b.steps steps).Keeps I
  call : ∀ way i, (b.call way i).Keeps I
  fire : ∀ number signal slot arguments, (b.fire number signal slot arguments).Keeps I

variable {v w : World} {b : Inner}

/-- Any step may be taken, and any limit may be set. -/
def Terms.any : Terms where
  step _ := True
  limit _ := True
  newJournal _ := trivial
  newDispatcher _ _ := trivial
  setLimit _ := trivial
  attempt _ _ _ := trivial

theorem Inner.Keeps.upholds {I : World → Prop} (hb : b.Keeps I) : b.Upholds .any I :=
  ⟨fun steps _ ↦ hb.steps steps, hb.call, hb.fire⟩

theorem Inner.Upholds.keeps {I : World → Prop} (hb : b.Upholds .any I) : b.Keeps I :=
  ⟨fun steps ↦ hb.steps steps fun _ _ ↦ trivial, hb.call, hb.fire⟩

theorem World.Grown.addEvent (h : v.Grown w) (e : Event) : v.Grown (w.addEvent e) :=
  h.trans (h.sound.grown_aside _ _ _ _)

theorem upheld_grown (v : World) : Upheld .any v.Grown where
  sound hw := hw.sound
  aside _ _ hw := hw.trans (hw.sound.grown_aside _ _ _ _)
  event hw _ := hw.addEvent _
  begun hw _ := hw.trans (hw.sound.grown_aside _ _ _ _)
  read k hw := hw.trans (hw.sound.grown_listing k _)
  done _ hw := hw.trans (hw.sound.grown_aside _ _ _ _)
  renewed hw hi := hw.trans (hw.sound.grown_renewed hi)
  captured _ _ hw := hw.trans (hw.sound.grown_item _)
  edit hw _ := hw.trans (hw.sound.grown_nameItem _ _)
  state hw _ := hw.trans (hw.sound.grown_nameItem _ _)
  item _ _ hw _ _ := hw.trans (hw.sound.grown_nameItem _ _)
  journal hw _ := hw.trans (hw.sound.grown_addJournal _)
  timeline _ hw := hw.trans (hw.sound.grown_addTimeline _)
  selection hw hs := hw.trans (hw.sound.grown_addSelection hs)
  presented name _ _ _ hw ho _ _ := hw.trans (hw.sound.grown_present name ho)
  listing name hw _ hr := hw.trans (hw.sound.grown_withListing name hr)
  dispatcher name hw _ _ := hw.trans (hw.sound.grown_withDispatcher name _)
  listened _ _ _ _ _ hw _ _ := hw.trans (hw.sound.grown_connect _ _ _ trivial nofun)
  left _ hw _ _ := hw.trans (hw.sound.grown_setSlot _ _ _)
  watched hw hk _ := hw.trans (hw.sound.grown_rewatch hk _)
  unwatched hw _ _ := hw.trans (hw.sound.grown_unwatch _ _)
  chosen k hw hs := hw.trans (hw.sound.grown_selection k hs)
  listener _ _ _ _ _ := trivial
  program _ _ := ⟨fun _ _ ↦ trivial, fun _ _ ↦ trivial⟩
  restore _ _ _ _ := trivial

theorem aloof_grown (v : World) : Aloof v.Grown where
  journal k f hw := hw.trans (hw.sound.grown_journal k f)
  timeline k f hw := hw.trans (hw.sound.grown_timeline k f)
  mode k mode hw := hw.trans (hw.sound.grown_setMode k mode)

theorem perform_grows (hb : b.Keeps v.Grown) (step : Step) : (perform b step).Keeps v.Grown :=
  (upheld_grown v).perform hb.upholds ((upheld_grown v).histories (aloof_grown v) hb.upholds)
    trivial

theorem inner_grows (v : World) (n : Nat) : (inner n).Keeps v.Grown :=
  ((upheld_grown v).inner (aloof_grown v) (fun _ _ hw ↦ hw.addEvent _) n).keeps

/-- The worlds that sessions come to. -/
inductive Reached : World → Prop where
  | start (logging : Bool) : Reached { logging }
  | step {w w' : World} (h : Reached w) (n : Nat) (step : Step)
      (hs : (perform (inner n) step w).state? = some w') : Reached w'
  | forget {w : World} (h : Reached w) (events : List Event) : Reached { w with events }

theorem Reached.sound {w : World} (h : Reached w) : w.Sound := by
  induction h with
  | start logging => exact World.sound_new logging
  | @step w w' _ n step hs ih =>
    exact ((perform_grows (inner_grows w n) step w ih.refl).ended hs).sound
  | forget _ events ih => exact (ih.grown_aside _ _ _ _).sound

/-- The world after steps, if each of them has an end. -/
def World.after (w : World) (n : Nat) (steps : List Step) : Option World :=
  steps.foldlM (fun w step ↦ (perform (inner n) step w).state?) w

theorem Reached.after {w w' : World} {n : Nat} {steps : List Step} (h : Reached w)
    (hs : w.after n steps = some w') : Reached w' := by
  induction steps generalizing w with
  | nil =>
    cases hs
    exact h
  | cons step steps ih =>
    obtain ⟨v, hv, hs⟩ := Option.bind_eq_some_iff.1 ((List.foldlM_cons ..).symm.trans hs)
    exact ih (.step h n step hv) hs

theorem Reached.course {c : Course} (h : Reached c.world) (brief : Bool) (step : Step) :
    Reached (c.step brief step).1.world := by
  unfold Course.step
  cases hs : perform (inner depth) step c.world with
  | returned a w => exact .forget (.step h depth step (by rw [hs]; rfl)) _
  | raised e w => exact .forget (.step h depth step (by rw [hs]; rfl)) _
  | exhausted => exact .forget h _

end Rewind.Session
