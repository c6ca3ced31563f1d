import Rewind.Proofs.Stage

namespace Rewind

open Session (Way)

variable {ε ι ν : Type}

/-- Whether the code that was entered last has not been left, nor any other code since then. -/
def guarded : List (Act ι ν × ε) → Bool
  | [] => false
  | (.entered _ _, _) :: _ => true
  | (.left _ _ _, _) :: _ => false
  | _ :: past => guarded past

/-- How many times code has been entered and not been left yet. -/
def openCodes : List (Act ι ν × ε) → Nat
  | [] => 0
  | (.entered _ _, _) :: past => openCodes past + 1
  | (.left _ _ _, _) :: past => openCodes past - 1
  | _ :: past => openCodes past

theorem openCodes_pos_of_guarded {past : List (Act ι ν × ε)} (h : guarded past = true) :
    0 < openCodes past := by
  fun_induction guarded past with
  | case1 => cases h
  | case2 => simp [openCodes]
  | case3 => cases h
  | case4 a past he hl ih =>
    obtain ⟨a, j⟩ := a
    cases a with
    | entered way x => exact absurd rfl (he way x j)
    | left way x e => exact absurd rfl (hl way x e j)
    | asked | answered | announced => simpa only [openCodes] using ih h

/-- What about a kind of history decides whether it records something: the flag that holds it off,
and how the history grows. -/
structure Recorder (ε ι ν : Type) where
  flag : ε → Bool
  setFlag : Bool → ε → ε
  enabled : ε → Bool
  push : Stage ε ι ν → ι → ε
  trim : ε → Except Fault ε
  notice : ι → ν
  flag_setFlag : ∀ b j, flag (setFlag b j) = b
  flag_push : ∀ s x, flag (push s x) = flag s.history
  flag_trim : ∀ j k, trim j = .ok k → flag k = flag j

namespace Recorder

variable (R : Recorder ε ι ν)

/-- The request to record `x` has ended at once, and the history is as it was. -/
def Ignores (s : Stage ε ι ν) (x : ι) (next : Act ι ν × ε) : Prop :=
  ∃ fault, next = (.answered (.add x) fault, s.history)

/-- The history has grown by `x`, which is announced unless its description fails. With a limit that
is none, the history grows and the request fails. -/
def Records (s : Stage ε ι ν) (x : ι) (next : Act ι ν × ε) : Prop :=
  match R.trim (R.push s x) with
  | .ok j => next = (.announced (R.notice x), j) ∨ ∃ e, next = (.answered (.add x) (some e), j)
  | .error e => next = (.answered (.add x) (some e), R.push s x)

/-- What comes next after a request to record `x`. -/
def Heeds (s : Stage ε ι ν) (x : ι) (next : Act ι ν × ε) : Prop :=
  (guarded s.past = true ∨ R.enabled s.history = false → Ignores s x next) ∧
    (guarded s.past = false → R.enabled s.history = true → R.Records s x next)

/-- Whatever has been asked to be recorded was met by what came next. -/
def Heeded (past : List (Act ι ν × ε)) : Prop :=
  ∀ later x j earlier, past = later ++ (.asked (.add x), j) :: earlier →
    ∃ next, later.getLast? = some next ∧ R.Heeds ⟨j, (.asked (.add x), j) :: earlier⟩ x next

variable {R} {past : List (Act ι ν × ε)} {a : Act ι ν × ε}

theorem Heeded.cons (h : R.Heeded past) (ha : ∀ x, a.1 ≠ .asked (.add x)) :
    R.Heeded (a :: past) := by
  intro later x j earlier hp
  rcases List.cons_eq_append_iff.1 hp with ⟨-, hl⟩ | ⟨later, rfl, hl⟩
  · cases hl
    exact absurd rfl (ha x)
  · obtain ⟨next, hn, hh⟩ := h later x j earlier hl
    exact ⟨next, by rw [List.getLast?_cons, hn, Option.getD_some], hh⟩

theorem Heeded.cons_asked {x : ι} {j : ε} (h : R.Heeded past) (ha : ∀ x, a.1 ≠ .asked (.add x))
    (hn : R.Heeds ⟨j, (.asked (.add x), j) :: past⟩ x a) :
    R.Heeded (a :: (.asked (.add x), j) :: past) := by
  intro later y k earlier hp
  rcases List.cons_eq_append_iff.1 hp with ⟨-, hl⟩ | ⟨later, rfl, hl⟩
  · cases hl
    exact absurd rfl (ha y)
  · rcases List.cons_eq_append_iff.1 hl with ⟨rfl, ht⟩ | ⟨later, rfl, ht⟩
    · cases ht
      exact ⟨a, rfl, hn⟩
    · obtain ⟨next, hn, hh⟩ := h later y k earlier ht
      exact ⟨next, by rw [List.getLast?_cons_cons, List.getLast?_cons, hn, Option.getD_some], hh⟩

variable (R) in
/-- The flag is up exactly while the code that was entered last is running, and all requests to
record something have been met by that. -/
structure Sound (s : Stage ε ι ν) : Prop where
  flag : R.flag s.history = guarded s.past
  heeded : R.Heeded s.past

namespace Sound

variable {s : Stage ε ι ν} {c : Cast ε ι ν} {serve : Request ι → Run (Stage ε ι ν) Unit}

theorem update (h : R.Sound s) {f : ε → ε} (hf : R.flag (f s.history) = R.flag s.history) :
    R.Sound (s.update f) := ⟨hf.trans h.flag, h.heeded⟩

theorem asked (h : R.Sound s) {r : Request ι} (hr : ∀ x, r ≠ .add x) :
    R.Sound (s.note (.asked r)) :=
  ⟨h.flag, h.heeded.cons fun x hx ↦ hr x (Act.asked.inj hx)⟩

theorem answered (h : R.Sound s) (r : Request ι) (fault : Option Fault) :
    R.Sound (s.note (.answered r fault)) := ⟨h.flag, h.heeded.cons nofun⟩

theorem announced (h : R.Sound s) (n : ν) : R.Sound (s.note (.announced n)) :=
  ⟨h.flag, h.heeded.cons nofun⟩

theorem enter (h : R.Sound s) (way : Way) (x : ι) :
    R.Sound ((s.update (R.setFlag true)).note (.entered way x)) :=
  ⟨R.flag_setFlag true _, h.heeded.cons nofun⟩

theorem leave (h : R.Sound s) (way : Way) (x : ι) (fault : Option Fault) :
    R.Sound ((s.note (.left way x fault)).update (R.setFlag false)) :=
  ⟨R.flag_setFlag false _, h.heeded.cons nofun⟩

theorem leads_announce {n : ν} (h : R.Sound (s.note (.announced n)))
    (hserve : ∀ r, (serve r).Keeps R.Sound) :
    (c.announce serve n).Leads s (fun _ ↦ R.Sound) (fun _ ↦ R.Sound) True := by
  rw [Cast.leads_announce]
  exact Script.play_keeps hserve _ _ h

/-- What has been done is announced, and then what can be done next. -/
theorem leads_announce_both {n : ν} {next : Stage ε ι ν → ν} {Q : Unit → Stage ε ι ν → Prop}
    {E : Fault → Stage ε ι ν → Prop} (h : R.Sound (s.note (.announced n)))
    (hserve : ∀ r, (serve r).Keeps R.Sound) (hQ : ∀ t, R.Sound t → Q () t)
    (hE : ∀ e t, R.Sound t → E e t) :
    (c.announce serve n).Leads s (fun _ t ↦ (c.announce serve (next t)).Leads t Q E True) E
      True := by
  refine (h.leads_announce hserve).mono (fun _ t ht ↦ ?_) hE
  exact ((ht.announced _).leads_announce hserve).mono (fun _ u hu ↦ hQ u hu) hE

theorem leads_enter (h : R.Sound s) (hserve : ∀ r, (serve r).Keeps R.Sound) (way : Way) (x : ι) :
    (c.enter serve way x).Leads (s.update (R.setFlag true))
      (fun _ t ↦ R.Sound (t.update (R.setFlag false)))
      (fun _ t ↦ R.Sound (t.update (R.setFlag false))) True := by
  rw [Cast.leads_enter]
  refine (Script.play_keeps hserve _ _ (h.enter way x)).mono (fun _ t ht ↦ ?_) (fun e t ht ↦ ?_)
  · exact ht.leave way x none
  · exact ht.leave way x (some e)

/-- The request to record `x` is met by `a`, when the history has become that of `t`. -/
theorem meet (h : R.Sound s) {t : Stage ε ι ν} {x : ι} {a : Act ι ν}
    (hp : t.past = (s.note (.asked (.add x))).past) (hf : R.flag t.history = R.flag s.history)
    (hn : R.Heeds (s.note (.asked (.add x))) x (a, t.history)) (ha : ∀ x, a ≠ .asked (.add x))
    (hg : guarded (t.note a).past = guarded t.past) : R.Sound (t.note a) := by
  refine ⟨?_, ?_⟩
  · rw [hg, hp]
    exact hf.trans h.flag
  · rw [Stage.past_note, hp, Stage.past_note]
    exact h.heeded.cons_asked ha hn

theorem ignored (h : R.Sound s) {x : ι} (hg : guarded s.past = true ∨ R.enabled s.history = false)
    (fault : Option Fault) :
    R.Sound ((s.note (.asked (.add x))).note (.answered (.add x) fault)) := by
  refine h.meet rfl rfl ⟨fun _ ↦ ⟨fault, rfl⟩, fun hg' he ↦ ?_⟩ nofun rfl
  rcases hg with hg | hg
  · exact absurd (hg.symm.trans hg') Bool.noConfusion
  · exact absurd (hg.symm.trans he) Bool.noConfusion

theorem recorded (h : R.Sound s) {x : ι} {j : ε} {a : Act ι ν}
    (hg : guarded s.past = false) (he : R.enabled s.history = true)
    (hj : R.trim (R.push (s.note (.asked (.add x))) x) = .ok j)
    (ha : a = .announced (R.notice x) ∨ ∃ e, a = .answered (.add x) (some e)) :
    R.Sound (Stage.note ⟨j, (s.note (.asked (.add x))).past⟩ a) := by
  have hf : R.flag j = R.flag s.history := (R.flag_trim _ _ hj).trans (R.flag_push _ x)
  have hr : R.Records (s.note (.asked (.add x))) x (a, j) := by
    unfold Records
    rw [hj]
    rcases ha with rfl | ⟨e, rfl⟩
    · exact .inl rfl
    · exact .inr ⟨e, rfl⟩
  have hn : R.Heeds (s.note (.asked (.add x))) x (a, j) := by
    refine ⟨fun hg' ↦ ?_, fun _ _ ↦ hr⟩
    rcases hg' with hg' | hg'
    · exact absurd (hg.symm.trans hg') Bool.noConfusion
    · exact absurd (he.symm.trans hg') Bool.noConfusion
  rcases ha with rfl | ⟨e, rfl⟩
  · exact h.meet rfl hf hn nofun rfl
  · exact h.meet rfl hf hn nofun rfl

/-- The history has grown by `x`, and the request fails as there is no telling what is too much. -/
theorem overgrown (h : R.Sound s) {x : ι} {e : Fault}
    (hg : guarded s.past = false) (he : R.enabled s.history = true)
    (hj : R.trim (R.push (s.note (.asked (.add x))) x) = .error e) :
    R.Sound (Stage.note ⟨R.push (s.note (.asked (.add x))) x, (s.note (.asked (.add x))).past⟩
      (.answered (.add x) (some e))) := by
  have hr : R.Records (s.note (.asked (.add x))) x
      (.answered (.add x) (some e), R.push (s.note (.asked (.add x))) x) := by
    unfold Records
    rw [hj]
  refine h.meet rfl (R.flag_push _ x) ⟨fun hg' ↦ ?_, fun _ _ ↦ hr⟩ nofun rfl
  rcases hg' with hg' | hg'
  · exact absurd (hg.symm.trans hg') Bool.noConfusion
  · exact absurd (he.symm.trans hg') Bool.noConfusion

end Sound

/-- If what each request does is sound as long as the requests made meanwhile are, then requests are
sound whatever is made meanwhile. -/
theorem serve_keeps {g : Engine ε ι ν} {c : Cast ε ι ν}
    (hadd : ∀ serve, (∀ r, (serve r).Keeps R.Sound) → ∀ x s, R.Sound s →
      (g c serve (.add x)).Leads (s.note (.asked (.add x)))
        (fun _ t ↦ R.Sound (t.note (.answered (.add x) none)))
        (fun e t ↦ R.Sound (t.note (.answered (.add x) (some e)))) True)
    (hother : ∀ serve, (∀ r, (serve r).Keeps R.Sound) → ∀ r, (∀ x, r ≠ .add x) →
      (g c serve r).Keeps R.Sound)
    (n : Nat) (r : Request ι) : (g.serve c n r).Keeps R.Sound := by
  induction n generalizing r with
  | zero => exact fun _ _ ↦ trivial
  | succ n ih =>
    intro s hs
    rw [Engine.leads_serve]
    by_cases hr : ∃ x, r = .add x
    · obtain ⟨x, rfl⟩ := hr
      exact hadd _ ih x s hs
    · have hr : ∀ x, r ≠ .add x := fun x hx ↦ hr ⟨x, hx⟩
      refine (hother _ ih r hr _ (hs.asked hr)).mono (fun _ t ht ↦ ?_) (fun e t ht ↦ ?_)
      · exact ht.answered r none
      · exact ht.answered r (some e)

theorem sound_of_play {serve : Request ι → Run (Stage ε ι ν) Unit} {j : ε} {code : Script ι}
    {t : Stage ε ι ν} (hserve : ∀ r, (serve r).Keeps R.Sound) (hj : R.flag j = false)
    (ht : (code.play serve ⟨j, []⟩).state? = some t) : R.Sound t := by
  have hs : R.Sound (⟨j, []⟩ : Stage ε ι ν) :=
    ⟨hj, fun later _ _ _ h ↦ by cases later <;> cases h⟩
  exact (Script.play_keeps hserve code _ hs).ended ht

end Recorder

namespace Journal

def recorder : Recorder (Journal ι) ι (Notice ι) where
  flag j := j.replaying
  setFlag b j := { j with replaying := b }
  enabled j := j.enabled.truth
  push s x := s.history.push x
  trim := Journal.trim
  notice := .recorded
  flag_setFlag _ _ := rfl
  flag_push _ _ := rfl
  flag_trim j k h := by
    unfold Journal.trim at h
    cases he : j.limit.excess j.entries.length with
    | error e =>
      rw [he] at h
      cases h
    | ok n =>
      rw [he] at h
      cases n <;> cases h <;> rfl

variable {c : Cast (Journal ι) ι (Notice ι)}
  {serve : Request ι → Run (Stage (Journal ι) ι (Notice ι)) Unit}
  {s : Stage (Journal ι) ι (Notice ι)}

theorem leads_add_sound (hs : recorder.Sound s) (hserve : ∀ r, (serve r).Keeps recorder.Sound)
    (x : ι) :
    ((c.journalHost serve).add x).Leads (s.note (.asked (.add x)))
      (fun _ t ↦ recorder.Sound (t.note (.answered (.add x) none)))
      (fun e t ↦ recorder.Sound (t.note (.answered (.add x) (some e)))) True := by
  have hf : s.history.replaying = guarded s.past := hs.flag
  have htell {r : Value → Remark} (hg : guarded s.past = true ∨ s.history.enabled.truth = false) :
      ((c.journalHost serve).tell x).Leads (s.note (.asked (.add x)))
        (fun v t ↦ ((c.journalHost serve).log (r v)).Leads t
          (fun _ t ↦ recorder.Sound (t.note (.answered (.add x) none)))
          (fun e t ↦ recorder.Sound (t.note (.answered (.add x) (some e)))) True)
        (fun e t ↦ recorder.Sound (t.note (.answered (.add x) (some e)))) True :=
    Host.leads_tell.2 ⟨fun v _ ↦ hs.ignored hg none, fun e _ ↦ hs.ignored hg (some e)⟩
  cases he : s.history.enabled.truth with
  | false => exact (Host.leads_add_ignored (.inl ⟨he, rfl⟩)).2 (htell (.inr he))
  | true =>
    cases hp : s.history.replaying with
    | true => exact (Host.leads_add_ignored (.inr ⟨he, hp, rfl⟩)).2 (htell (.inl (hf ▸ hp)))
    | false =>
      have hg : guarded s.past = false := hf ▸ hp
      refine (Host.leads_add_recorded he hp).2 (Run.leads_lift.2 ⟨fun j hj ↦ ?_, fun e hj ↦ ?_⟩)
      · refine Host.leads_tell.2 ⟨fun v _ ↦ ?_, fun e _ ↦ ?_⟩
        · have hr := hs.recorded hg he hj (.inl rfl)
          simp only [Cast.log_journalHost, Cast.announce_journalHost, Run.leads_pure,
            Host.leads_announceChange]
          exact hr.leads_announce_both hserve (fun _ ht ↦ ht.answered _ none)
            (fun e _ ht ↦ ht.answered _ (some e))
        · exact hs.recorded hg he hj (.inr ⟨e, rfl⟩)
      · exact hs.overgrown hg he hj

theorem settle_keeps (hserve : ∀ r, (serve r).Keeps recorder.Sound) (d : Int)
    (r : Value → Int → Remark) (n : Notice ι) (x : ι) :
    ((c.journalHost serve).settle d r n x).Keeps recorder.Sound := by
  intro s hs
  have hm : recorder.Sound (s.update (·.move d)) := hs.update rfl
  simp only [Host.settle, Run.leads_bind, Host.leads_change, Host.leads_look]
  refine Host.leads_tell.2 ⟨fun v _ ↦ ?_, fun e _ ↦ hm⟩
  simp only [Cast.log_journalHost, Cast.announce_journalHost, Run.leads_pure,
    Host.leads_announceChange]
  exact (hm.announced n).leads_announce_both hserve (fun _ ht ↦ ht) (fun _ _ ht ↦ ht)

theorem replay_keeps (hserve : ∀ r, (serve r).Keeps recorder.Sound) (way : Way) (x : ι) :
    ((c.journalHost serve).replay (c.enter serve way x)).Keeps recorder.Sound := by
  intro s hs
  rw [Host.leads_replay]
  exact hs.leads_enter hserve way x

theorem handle_keeps (hserve : ∀ r, (serve r).Keeps recorder.Sound) {r : Request ι}
    (hr : ∀ x, r ≠ .add x) : ((c.journalHost serve).handle r).Keeps recorder.Sound := by
  intro s hs
  cases r with
  | add x => exact absurd rfl (hr x)
  | undo =>
    refine Host.leads_undo (fun _ ↦ hs) (fun _ _ ↦ hs) (fun x _ _ ↦ Cast.leads_revert.2 ?_)
    exact (replay_keeps hserve .undo x s hs).mono (fun _ t ht ↦ settle_keeps hserve _ _ _ _ t ht)
      (fun _ _ ht ↦ ht)
  | redo =>
    refine Host.leads_redo (fun _ ↦ hs) (fun _ _ ↦ hs) (fun x _ _ ↦ Cast.leads_reapply.2 ?_)
    exact (replay_keeps hserve .redo x s hs).mono (fun _ t ht ↦ settle_keeps hserve _ _ _ _ t ht)
      (fun _ _ ht ↦ ht)
  | clear =>
    have he : recorder.Sound (s.update (·.empty)) := hs.update rfl
    simp only [Host.handle, Host.leads_clear, Cast.log_journalHost, Cast.announce_journalHost,
      Run.leads_pure, Host.leads_announceChange]
    exact (he.announced _).leads_announce hserve
  | setEnabled v =>
    have hv : recorder.Sound (s.update ({ · with enabled := v })) := hs.update rfl
    exact hv
  | setLimit v =>
    have hv : recorder.Sound (s.update ({ · with limit := v })) := hs.update rfl
    exact hv

theorem serve_keeps (n : Nat) (r : Request ι) : (engine.serve c n r).Keeps recorder.Sound :=
  Recorder.serve_keeps (fun _ hserve x _ hs ↦ leads_add_sound hs hserve x)
    (fun _ hserve _ hr ↦ handle_keeps hserve hr) n r

end Journal

namespace Timeline

variable (c : Cast (Timeline ι) ι (Notice ι))

def recorder : Recorder (Timeline ι) ι (Notice ι) where
  flag t := t.restoring
  setFlag b t := { t with restoring := b }
  enabled t := t.enabled.truth
  push s x := s.history.push (c.same s) x
  trim := Timeline.trim
  notice := .recorded
  flag_setFlag _ _ := rfl
  flag_push _ _ := rfl
  flag_trim _ _ := restoring_of_trim

variable {c} {serve : Request ι → Run (Stage (Timeline ι) ι (Notice ι)) Unit}
  {s : Stage (Timeline ι) ι (Notice ι)}

theorem leads_add_sound (hs : (recorder c).Sound s)
    (hserve : ∀ r, (serve r).Keeps (recorder c).Sound) (x : ι) :
    ((c.timelineHost serve).add x).Leads (s.note (.asked (.add x)))
      (fun _ t ↦ (recorder c).Sound (t.note (.answered (.add x) none)))
      (fun e t ↦ (recorder c).Sound (t.note (.answered (.add x) (some e)))) True := by
  have hf : s.history.restoring = guarded s.past := hs.flag
  have htell {r : Value → Remark} (hg : guarded s.past = true ∨ s.history.enabled.truth = false) :
      ((c.timelineHost serve).tell x).Leads (s.note (.asked (.add x)))
        (fun v t ↦ ((c.timelineHost serve).log (r v)).Leads t
          (fun _ t ↦ (recorder c).Sound (t.note (.answered (.add x) none)))
          (fun e t ↦ (recorder c).Sound (t.note (.answered (.add x) (some e)))) True)
        (fun e t ↦ (recorder c).Sound (t.note (.answered (.add x) (some e)))) True :=
    Host.leads_tell.2 ⟨fun v _ ↦ hs.ignored hg none, fun e _ ↦ hs.ignored hg (some e)⟩
  cases he : s.history.enabled.truth with
  | false => exact (Host.leads_add_ignored (.inl ⟨he, rfl⟩)).2 (htell (.inr he))
  | true =>
    cases hp : s.history.restoring with
    | true => exact (Host.leads_add_ignored (.inr ⟨he, hp, rfl⟩)).2 (htell (.inl (hf ▸ hp)))
    | false =>
      have hg : guarded s.past = false := hf ▸ hp
      refine (Host.leads_add_recorded he hp).2 (Run.leads_lift.2 ⟨fun j hj ↦ ?_, fun e hj ↦ ?_⟩)
      · refine Host.leads_tell.2 ⟨fun v _ ↦ ?_, fun e _ ↦ ?_⟩
        · have hr := hs.recorded hg he hj (.inl rfl)
          simp only [Cast.log_timelineHost, Cast.announce_timelineHost, Run.leads_pure,
            Host.leads_announceChange]
          exact hr.leads_announce_both hserve (fun _ ht ↦ ht.answered _ none)
            (fun e _ ht ↦ ht.answered _ (some e))
        · exact hs.recorded hg he hj (.inr ⟨e, rfl⟩)
      · exact hs.overgrown hg he hj

theorem moveTo_keeps (hserve : ∀ r, (serve r).Keeps (recorder c).Sound) (i : Int) :
    ((c.timelineHost serve).moveTo i).Keeps (recorder c).Sound := by
  intro s hs
  refine Host.leads_moveTo (fun _ ↦ hs) (fun x _ ↦ ?_)
  refine (hs.leads_enter hserve .restore x).mono (fun _ t ht ↦ ?_) (fun _ _ ht ↦ ht)
  have hm : (recorder c).Sound
      ((t.update ({ · with restoring := false })).update ({ · with pointer := i })) := ht.update rfl
  simp only [Host.settle, Run.leads_bind, Host.leads_change, Host.leads_look]
  refine Host.leads_tell.2 ⟨fun v _ ↦ ?_, fun e _ ↦ hm⟩
  simp only [Cast.log_timelineHost, Cast.announce_timelineHost, Run.leads_pure,
    Host.leads_announceChange]
  exact (hm.announced _).leads_announce_both hserve (fun _ ht ↦ ht) (fun _ _ ht ↦ ht)

theorem handle_keeps (hserve : ∀ r, (serve r).Keeps (recorder c).Sound) {r : Request ι}
    (hr : ∀ x, r ≠ .add x) : ((c.timelineHost serve).handle r).Keeps (recorder c).Sound := by
  intro s hs
  cases r with
  | add x => exact absurd rfl (hr x)
  | undo => exact Host.leads_undo (fun _ ↦ hs) (fun _ _ ↦ moveTo_keeps hserve _ s hs)
  | redo => exact Host.leads_redo (fun _ ↦ hs) (fun _ ↦ moveTo_keeps hserve _ s hs)
  | clear =>
    have he : (recorder c).Sound (s.update (·.empty)) := hs.update rfl
    simp only [Host.handle, Host.leads_clear, Cast.log_timelineHost, Cast.announce_timelineHost,
      Run.leads_pure, Host.leads_announceChange]
    exact (he.announced _).leads_announce hserve
  | setEnabled v =>
    have hv : (recorder c).Sound (s.update ({ · with enabled := v })) := hs.update rfl
    exact hv
  | setLimit v =>
    have hv : (recorder c).Sound (s.update ({ · with limit := v })) := hs.update rfl
    exact hv

theorem serve_keeps (n : Nat) (r : Request ι) : (engine.serve c n r).Keeps (recorder c).Sound :=
  Recorder.serve_keeps (fun _ hserve x _ hs ↦ leads_add_sound hs hserve x)
    (fun _ hserve _ hr ↦ handle_keeps hserve hr) n r

end Timeline

/-- Whatever code works on a new history, through whatever code of its own and of its listeners, a
request to record something changes nothing and announces nothing while the code entered last is
still running. As soon as code has been left, even code entered from within other code that is
still running, recording goes on. -/
theorem add_ignored_iff_guarded {ι : Type} :
    (∀ (c : Cast (Journal ι) ι (Journal.Notice ι)) (n : Nat) (limit : Value) (code : Script ι) t,
      (code.play (Journal.engine.serve c n) ⟨{ limit }, []⟩).state? = some t →
      ∀ later x j earlier, t.past = later ++ (.asked (.add x), j) :: earlier →
        ∃ next, later.getLast? = some next ∧ (guarded earlier = true → 0 < openCodes earlier) ∧
          (guarded earlier = true ∨ j.enabled.truth = false →
            ∃ fault, next = (.answered (.add x) fault, j)) ∧
          (guarded earlier = false → j.enabled.truth = true →
            Journal.recorder.Records ⟨j, (.asked (.add x), j) :: earlier⟩ x next)) ∧
    (∀ (c : Cast (Timeline ι) ι (Timeline.Notice ι)) (n : Nat) (limit : Value) (code : Script ι) t,
      (code.play (Timeline.engine.serve c n) ⟨{ limit }, []⟩).state? = some t →
      ∀ later x j earlier, t.past = later ++ (.asked (.add x), j) :: earlier →
        ∃ next, later.getLast? = some next ∧ (guarded earlier = true → 0 < openCodes earlier) ∧
          (guarded earlier = true ∨ j.enabled.truth = false →
            ∃ fault, next = (.answered (.add x) fault, j)) ∧
          (guarded earlier = false → j.enabled.truth = true →
            (Timeline.recorder c).Records ⟨j, (.asked (.add x), j) :: earlier⟩ x next)) := by
  constructor
  · intro c n limit code t ht later x j earlier hp
    have hs := Recorder.sound_of_play (Journal.serve_keeps (c := c) n) rfl ht
    obtain ⟨next, hn, hi, hr⟩ := hs.heeded later x j earlier hp
    exact ⟨next, hn, openCodes_pos_of_guarded, hi, hr⟩
  · intro c n limit code t ht later x j earlier hp
    have hs := Recorder.sound_of_play (Timeline.serve_keeps (c := c) n) rfl ht
    obtain ⟨next, hn, hi, hr⟩ := hs.heeded later x j earlier hp
    exact ⟨next, hn, openCodes_pos_of_guarded, hi, hr⟩

/-- The code of what is recorded goes back once more, and records something before and after. -/
def Cast.steppingBack : Cast ε Nat ν where
  code s _ _ :=
    if guarded s.past then .finish
    else .ask (.add 3) fun _ ↦ .ask .undo fun _ ↦ .ask (.add 4) fun _ ↦ .finish
  hears _ _ := .finish
  describe _ _ := .ok .null
  same _ _ _ := false

deriving instance DecidableEq for Journal.Notice

deriving instance DecidableEq for Journal

/-- Two edits are recorded, and the second one is undone. -/
def Stage.steppedBack : Stage (Journal Nat) Nat (Journal.Notice Nat) :=
  Option.get (((Script.all [.add 1, .add 2, .undo]).play
    (Journal.engine.serve Cast.steppingBack 3) ⟨{}, []⟩).state?) (by decide +kernel)

theorem Stage.steppedBack_eq :
    ((Script.all [.add 1, .add 2, .undo]).play
      (Journal.engine.serve Cast.steppingBack 3) ⟨{}, []⟩).state? = some steppedBack := by
  rw [steppedBack, Option.some_get]

theorem Stage.steppedBack_before :
    steppedBack.past = steppedBack.past.take 15 ++
      (.asked (.add 3), ⟨[1, 2], 2, .null, .bool true, true⟩) :: steppedBack.past.drop 16 := by
  decide +kernel

theorem Stage.steppedBack_after :
    steppedBack.past = steppedBack.past.take 7 ++
      (.asked (.add 4), ⟨[1, 2], 1, .null, .bool true, false⟩) :: steppedBack.past.drop 8 := by
  decide +kernel

/-- What is to be recorded before the second step back is ignored, and after it, it is not. -/
theorem add_ignored_iff_guarded_stepping_back :
    (∃ next, (Stage.steppedBack.past.take 15).getLast? = some next ∧
      ∃ fault, next = (.answered (.add 3) fault, ⟨[1, 2], 2, .null, .bool true, true⟩)) ∧
    (∃ next, (Stage.steppedBack.past.take 7).getLast? = some next ∧
      Journal.recorder.Records ⟨⟨[1, 2], 1, .null, .bool true, false⟩,
        (.asked (.add 4), ⟨[1, 2], 1, .null, .bool true, false⟩) :: Stage.steppedBack.past.drop 8⟩
        4 next) := by
  obtain ⟨h, -⟩ := add_ignored_iff_guarded (ι := Nat)
  have h := h Cast.steppingBack 3 .null _ _ Stage.steppedBack_eq
  constructor
  · obtain ⟨next, hn, -, hi, -⟩ := h _ _ _ _ Stage.steppedBack_before
    exact ⟨next, hn, hi (.inl (by decide +kernel))⟩
  · obtain ⟨next, hn, -, -, hr⟩ := h _ _ _ _ Stage.steppedBack_after
    exact ⟨next, hn, hr (by decide +kernel) rfl⟩

/-- It is not enough that code is still running for what it records to be ignored. -/
theorem not_ignored_of_openCodes_pos :
    ¬ ∀ (c : Cast (Journal Nat) Nat (Journal.Notice Nat)) (n : Nat) (limit : Value)
      (code : Script Nat) t,
      (code.play (Journal.engine.serve c n) ⟨{ limit }, []⟩).state? = some t →
      ∀ later x j earlier, t.past = later ++ (.asked (.add x), j) :: earlier →
        0 < openCodes earlier →
        ∃ fault, later.getLast? = some (.answered (.add x) fault, j) := by
  intro h
  have ho : 0 < openCodes (Stage.steppedBack.past.drop 8) := by decide +kernel
  obtain ⟨fault, hf⟩ := h _ _ _ _ _ Stage.steppedBack_eq _ _ _ _ Stage.steppedBack_after ho
  have hl : (Stage.steppedBack.past.take 7).getLast? =
      some (.announced (.recorded 4), ⟨[1, 4], 2, .null, .bool true, false⟩) := by decide +kernel
  rw [hl] at hf
  cases hf

end Rewind
