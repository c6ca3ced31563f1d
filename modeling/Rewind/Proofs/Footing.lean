import Rewind.Proofs.Guard
import Rewind.Proofs.TwoStacks

namespace Rewind

open Session (Way)

variable {ε ι ν : Type}

/-- For each code that has been entered and not been left yet, the latest first, what had happened
when it was entered. -/
def openings : List (Act ι ν × ε) → List (List (Act ι ν × ε))
  | [] => []
  | (.entered way x, j) :: past => ((.entered way x, j) :: past) :: openings past
  | (.left _ _ _, _) :: past => (openings past).tail
  | _ :: past => openings past

theorem suffix_of_mem_openings {past o : List (Act ι ν × ε)} (h : o ∈ openings past) :
    o <:+ past := by
  fun_induction openings past with
  | case1 => cases h
  | case2 way x j past ih =>
    rcases List.mem_cons.1 h with rfl | h
    · exact List.suffix_refl _
    · exact (ih h).trans (List.suffix_cons _ past)
  | case3 way x e j past ih => exact (ih (List.mem_of_mem_tail h)).trans (List.suffix_cons _ past)
  | case4 a past he hl ih => exact (ih h).trans (List.suffix_cons a past)

/-- If a limit is asked for, it is a proper one. -/
def Act.Proper : Act ι ν → Prop
  | .asked r => r.Proper
  | _ => True

instance : DecidablePred (Act.Proper (ι := ι) (ν := ν))
  | .asked (.setLimit v) => inferInstanceAs (Decidable (v.room?.isSome = true))
  | .asked (.add _) | .asked .undo | .asked .redo | .asked .clear | .asked (.setEnabled _)
  | .answered _ _ | .entered _ _ | .left _ _ _ | .announced _ => .isTrue trivial

/-- The only limits that have been asked for are proper ones. -/
def AllProper (past : List (Act ι ν × ε)) : Prop := ∀ m ∈ past, m.1.Proper

instance : DecidablePred (AllProper (ι := ι) (ν := ν) (ε := ε)) := fun past ↦
  inferInstanceAs (Decidable (∀ m ∈ past, m.1.Proper))

/-- What about a kind of history decides where its position is: the range it should stay in, and
whether it is led to a place within it when code that was entered after `opening` is left. -/
structure Footing (ε ι ν : Type) where
  inRange : ε → Prop
  limit : ε → Value
  lands : (opening : List (Act ι ν × ε)) → Way → ε → Bool

namespace Footing

variable (F : Footing ε ι ν)

/-- Whenever code has been left that did not fail, there was a place to go to. -/
def apt : List (Act ι ν × ε) → Bool
  | [] => true
  | (.left way _ none, j) :: past => (openings past).head?.any (F.lands · way j) && apt past
  | _ :: past => apt past

/-- The position is in range and has been each time something happened. -/
def Ranged (s : Stage ε ι ν) : Prop := F.inRange s.history ∧ ∀ m ∈ s.past, F.inRange m.2

/-- Code is open as given by `g`, and as long as the limits are proper, the position has only left
its range if there once was no place to go to. -/
structure Kept (g : List (List (Act ι ν × ε))) (s : Stage ε ι ν) : Prop where
  openings : openings s.past = g
  ranged_iff : AllProper s.past →
    (F.limit s.history).room?.isSome ∧ (F.Ranged s ↔ F.apt s.past = true)

variable {F} {g : List (List (Act ι ν × ε))} {s t : Stage ε ι ν}

theorem ranged_note {a : Act ι ν} : F.Ranged (s.note a) ↔ F.Ranged s := by
  simp only [Ranged, Stage.history_note, Stage.past_note, List.forall_mem_cons]
  exact ⟨fun h ↦ ⟨h.1, h.2.2⟩, fun h ↦ ⟨h.1, h.1, h.2⟩⟩

namespace Kept

theorem note (h : F.Kept g s) {a : Act ι ν}
    (ho : Rewind.openings (s.note a).past = Rewind.openings s.past)
    (ha : F.apt (s.note a).past = F.apt s.past) : F.Kept g (s.note a) := by
  refine ⟨ho.trans h.openings, fun hp ↦ ?_⟩
  obtain ⟨hl, hr⟩ := h.ranged_iff fun m hm ↦ hp m (List.mem_cons_of_mem _ hm)
  exact ⟨hl, by rw [ranged_note, hr, ha]⟩

theorem asked (h : F.Kept g s) (r : Request ι) : F.Kept g (s.note (.asked r)) := h.note rfl rfl

theorem answered (h : F.Kept g s) (r : Request ι) (fault : Option Fault) :
    F.Kept g (s.note (.answered r fault)) := h.note rfl rfl

theorem announced (h : F.Kept g s) (n : ν) : F.Kept g (s.note (.announced n)) := h.note rfl rfl

/-- Whatever brings the position back into its range cannot undo that it was out of it. -/
theorem update (h : F.Kept g s) {a : Act ι ν} (hs : (a, s.history) ∈ s.past) {f : ε → ε}
    (hf : AllProper s.past → (F.limit s.history).room?.isSome →
      (F.limit (f s.history)).room?.isSome ∧ (F.inRange s.history → F.inRange (f s.history))) :
    F.Kept g (s.update f) := by
  refine ⟨h.openings, fun hp ↦ ?_⟩
  obtain ⟨hl, hr⟩ := h.ranged_iff hp
  obtain ⟨hl, hf⟩ := hf hp hl
  refine ⟨hl, Iff.trans ⟨fun hu ↦ ?_, fun hu ↦ ?_⟩ hr⟩
  · exact ⟨hu.2 _ hs, hu.2⟩
  · exact ⟨hf hu.1, hu.2⟩

theorem enter (h : F.Kept g s) {f : ε → ε} (hl : F.limit (f s.history) = F.limit s.history)
    (hf : F.inRange (f s.history) = F.inRange s.history) (way : Way) (x : ι) :
    F.Kept (((.entered way x, f s.history) :: s.past) :: g)
      ((s.update f).note (.entered way x)) := by
  refine ⟨congrArg _ h.openings, fun hp ↦ ?_⟩
  obtain ⟨hroom, hr⟩ := h.ranged_iff fun m hm ↦ hp m (List.mem_cons_of_mem _ hm)
  refine ⟨hl ▸ hroom, ?_⟩
  rw [ranged_note]
  exact (and_congr_left' (by rw [Stage.history_update, hf])).trans hr

variable {o : List (Act ι ν × ε)}

theorem leave_failed (h : F.Kept (o :: g) t) {f : ε → ε}
    (hl : F.limit (f t.history) = F.limit t.history)
    (hf : F.inRange (f t.history) = F.inRange t.history) (way : Way) (x : ι) (e : Fault) :
    F.Kept g ((t.note (.left way x (some e))).update f) := by
  refine ⟨congrArg List.tail h.openings, fun hp ↦ ?_⟩
  obtain ⟨hroom, hr⟩ := h.ranged_iff fun m hm ↦ hp m (List.mem_cons_of_mem _ hm)
  refine ⟨hl ▸ hroom, Iff.trans ?_ hr⟩
  rw [← ranged_note (s := t)]
  exact and_congr_left' (by rw [Stage.history_update, Stage.history_note, hf])

theorem leave (h : F.Kept (o :: g) t) {f : ε → ε} {way : Way}
    (hl : F.limit (f t.history) = F.limit t.history)
    (hf : F.inRange t.history → (∀ m ∈ o, F.inRange m.2) →
      (F.inRange (f t.history) ↔ F.lands o way t.history = true)) (x : ι) :
    F.Kept g ((t.note (.left way x none)).update f) := by
  have ho : o <:+ t.past := suffix_of_mem_openings (h.openings ▸ List.mem_cons_self)
  refine ⟨congrArg List.tail h.openings, fun hp ↦ ?_⟩
  obtain ⟨hroom, hr⟩ := h.ranged_iff fun m hm ↦ hp m (List.mem_cons_of_mem _ hm)
  refine ⟨hl ▸ hroom, ?_⟩
  have hapt : F.apt ((t.note (.left way x none)).update f).past = true ↔
      F.lands o way t.history = true ∧ F.Ranged t := by
    rw [hr, Stage.past_update, Stage.past_note, apt, h.openings]
    simp
  rw [hapt]
  simp only [Ranged, Stage.history_update, Stage.past_update, Stage.history_note, Stage.past_note,
    List.forall_mem_cons]
  -- The opening is part of the past, so that the position was in range then if it always was.
  constructor
  · rintro ⟨hi, hj, hm⟩
    exact ⟨(hf hj fun m hmo ↦ hm m (ho.subset hmo)).1 hi, hj, hm⟩
  · rintro ⟨hi, hj, hm⟩
    exact ⟨(hf hj fun m hmo ↦ hm m (ho.subset hmo)).2 hi, hj, hm⟩

end Kept

variable {c : Cast ε ι ν} {serve : Request ι → Run (Stage ε ι ν) Unit}

theorem announce_keeps (hserve : ∀ r, (serve r).Keeps (F.Kept g)) (n : ν) :
    (c.announce serve n).Keeps (F.Kept g) := by
  intro s hs
  rw [Cast.leads_announce]
  exact Script.play_keeps hserve _ _ (hs.announced n)

/-- If what each request does keeps to this as long as the requests made meanwhile do, then requests
do whatever is made meanwhile. -/
theorem serve_keeps {e : Engine ε ι ν}
    (h : ∀ serve, (∀ g r, (serve r).Keeps (F.Kept g)) → ∀ g r s, F.Kept g s →
      (.asked r, s.history) ∈ s.past.head? →
      (e c serve r).Leads s (fun _ ↦ F.Kept g) (fun _ ↦ F.Kept g) True)
    (n : Nat) (g : List (List (Act ι ν × ε))) (r : Request ι) :
    (e.serve c n r).Keeps (F.Kept g) := by
  induction n generalizing g r with
  | zero => exact fun _ _ ↦ trivial
  | succ n ih =>
    intro s hs
    rw [Engine.leads_serve]
    refine (h _ ih g r _ (hs.asked r) rfl).mono (fun _ t ht ↦ ?_) (fun e t ht ↦ ?_)
    · exact ht.answered r none
    · exact ht.answered r (some e)

theorem ranged_iff_of_play (hserve : ∀ r, (serve r).Keeps (F.Kept [])) {j : ε}
    (hj : F.inRange j) (hl : (F.limit j).room?.isSome) {code : Script ι}
    (ht : (code.play serve ⟨j, []⟩).state? = some t) (hp : AllProper t.past) :
    F.Ranged t ↔ F.apt t.past = true := by
  have hs : F.Kept [] ⟨j, []⟩ :=
    ⟨rfl, fun _ ↦ ⟨hl, iff_of_true ⟨hj, fun _ hm ↦ absurd hm List.not_mem_nil⟩ rfl⟩⟩
  exact ((Script.play_keeps hserve code _ hs).ended ht |>.ranged_iff hp).2

end Footing

namespace Journal

/-- Whether the position can go the way that undoing or redoing takes it. -/
def canGo (j : Journal ι) : Way → Bool
  | .undo => j.canUndo
  | _ => j.canRedo

def footing : Footing (Journal ι) ι (Notice ι) where
  inRange := InRange
  limit j := j.limit
  lands _ way j := j.canGo way

variable {c : Cast (Journal ι) ι (Notice ι)}
  {serve : Request ι → Run (Stage (Journal ι) ι (Notice ι)) Unit}
  {g : List (List (Act ι (Notice ι) × Journal ι))} {s : Stage (Journal ι) ι (Notice ι)}

theorem heard_kept (hserve : ∀ r, (serve r).Keeps (footing.Kept g)) :
    (c.journalHost serve).Heard (footing.Kept g) where
  announce := Footing.announce_keeps hserve
  log _ := .pure ()

theorem kept_recorded (hs : footing.Kept g s) {a : Act ι (Notice ι)} (ha : (a, s.history) ∈ s.past)
    {x : ι} {f : Journal ι → Journal ι}
    (hf : (s.history.push x).trim = .ok (f s.history) ∨
      ∃ e, (s.history.push x).trim = .error e) : footing.Kept g (s.update f) := by
  refine hs.update ha fun _ hl ↦ ?_
  obtain ⟨room, hroom⟩ := Option.isSome_iff_exists.1 hl
  have htrim := trim_push hroom x
  rcases hf with hf | ⟨e, hf⟩
  · rw [← Except.ok.inj (htrim.symm.trans hf)]
    exact ⟨hl, fun _ ↦ ⟨Int.natCast_nonneg _, Int.le_refl _⟩⟩
  · cases htrim.symm.trans hf

theorem leads_replay_kept (hserve : ∀ g r, (serve r).Keeps (footing.Kept g))
    (hs : footing.Kept g s) {way : Way} {x : ι} {d : Int} {r : Value → Int → Remark} {n : Notice ι}
    (hd : ∀ j : Journal ι, j.InRange → ((j.move d).InRange ↔ j.canGo way = true)) :
    ((c.journalHost serve).replay (c.enter serve way x)).Leads s
      (fun _ t ↦ ((c.journalHost serve).settle d r n x).Leads t (fun _ ↦ footing.Kept g)
        (fun _ ↦ footing.Kept g) True) (fun _ ↦ footing.Kept g) True := by
  refine Host.leads_replay.2 ((c.leads_enter serve).2 ?_)
  refine (Script.play_keeps (hserve _) _ _ (hs.enter rfl rfl way x)).mono (fun _ t ht ↦ ?_)
    fun e t ht ↦ ht.leave_failed (f := ({ · with replaying := false })) rfl rfl way x e
  have hleave := ht.leave (f := fun j ↦ ({ j with replaying := false } : Journal ι).move d) rfl
    (fun hj _ ↦ hd _ hj) x
  exact (heard_kept (hserve g)).leads_settle r n x hleave

theorem leads_handle_kept (hserve : ∀ g r, (serve r).Keeps (footing.Kept g)) {r : Request ι}
    (hs : footing.Kept g s) (ha : (.asked r, s.history) ∈ s.past) :
    ((c.journalHost serve).handle r).Leads s (fun _ ↦ footing.Kept g) (fun _ ↦ footing.Kept g)
      True := by
  have hh := heard_kept (c := c) (hserve g)
  cases r with
  | add x =>
    refine hh.leads_add hs (fun j hj ↦ ?_) fun e he ↦ ?_
    · exact kept_recorded hs ha (f := fun _ ↦ j) (.inl hj)
    · exact kept_recorded hs ha (f := (·.push x)) (.inr ⟨e, he⟩)
  | undo =>
    refine Host.leads_undo (fun _ ↦ hs) (fun _ _ ↦ hs) fun x _ _ ↦ Cast.leads_revert.2 ?_
    refine leads_replay_kept hserve hs fun _ hj ↦ ?_
    have := hj.2
    simp only [InRange, move, canGo, canUndo, decide_eq_true_eq]
    omega
  | redo =>
    refine Host.leads_redo (fun _ ↦ hs) (fun _ _ ↦ hs) fun x _ _ ↦ Cast.leads_reapply.2 ?_
    refine leads_replay_kept hserve hs fun _ hj ↦ ?_
    have := hj.1
    simp only [InRange, move, canGo, canRedo, decide_eq_true_eq]
    omega
  | clear =>
    exact hh.leads_clear (hs.update ha fun _ hl ↦ ⟨hl, fun _ ↦ ⟨Int.le_refl 0, Int.le_refl 0⟩⟩)
  | setEnabled v => exact hs.update ha (f := ({ · with enabled := v })) fun _ hl ↦ ⟨hl, id⟩
  | setLimit v => exact hs.update ha (f := ({ · with limit := v })) fun hp _ ↦ ⟨hp _ ha, id⟩

end Journal

namespace Timeline

/-- Where code entered after `opening` leads the pointer. That was settled by the request. -/
def goal : (opening : List (Act ι (Notice ι) × Timeline ι)) → Int
  | _ :: (.asked .undo, t) :: _ => t.pointer - 1
  | _ :: (_, t) :: _ => t.pointer + 1
  | _ => 0

def footing : Footing (Timeline ι) ι (Notice ι) where
  inRange := InRange
  limit t := t.limit
  lands opening _ t := goal opening < t.entries.length

variable {c : Cast (Timeline ι) ι (Notice ι)}
  {serve : Request ι → Run (Stage (Timeline ι) ι (Notice ι)) Unit}
  {g : List (List (Act ι (Notice ι) × Timeline ι))} {s : Stage (Timeline ι) ι (Notice ι)}

theorem heard_kept (hserve : ∀ r, (serve r).Keeps (footing.Kept g)) :
    (c.timelineHost serve).Heard (footing.Kept g) where
  announce := Footing.announce_keeps hserve
  log _ := .pure ()

theorem kept_recorded (hs : footing.Kept g s) {a : Act ι (Notice ι)} (ha : (a, s.history) ∈ s.past)
    {same : ι → ι → Bool} {x : ι} {f : Timeline ι → Timeline ι}
    (hf : (s.history.push same x).trim = .ok (f s.history) ∨
      ∃ e, (s.history.push same x).trim = .error e) : footing.Kept g (s.update f) := by
  refine hs.update ha fun _ hl ↦ ?_
  obtain ⟨room, hroom⟩ := Option.isSome_iff_exists.1 hl
  have htrim := trim_eq (t := s.history.push same x) hroom
  rcases hf with hf | ⟨e, hf⟩
  · have he := Except.ok.inj (hf.symm.trans htrim)
    refine ⟨?_, fun _ ↦ InRange.trim hf⟩
    rw [he]
    exact hl
  · cases htrim.symm.trans hf

theorem leads_moveTo_kept (hserve : ∀ g r, (serve r).Keeps (footing.Kept g))
    (hs : footing.Kept g s) {r : Request ι} {past : List (Act ι (Notice ι) × Timeline ι)}
    (ha : s.past = (.asked r, s.history) :: past) {i : Int} (hi : s.history.InRange → 0 ≤ i)
    (hgoal : ∀ m, goal (m :: s.past) = i) :
    ((c.timelineHost serve).moveTo i).Leads s (fun _ ↦ footing.Kept g) (fun _ ↦ footing.Kept g)
      True := by
  refine Host.leads_moveTo (fun _ ↦ hs) fun x _ ↦ (c.leads_enter serve).2 ?_
  refine (Script.play_keeps (hserve _) _ _ (hs.enter rfl rfl .restore x)).mono (fun _ t ht ↦ ?_)
    fun e t ht ↦ ht.leave_failed (f := ({ · with restoring := false })) rfl rfl .restore x e
  refine (heard_kept (hserve g)).leads_settle x (ht.leave
    (f := fun t ↦ { t with restoring := false, pointer := i }) rfl (fun _ ho ↦ ?_) x)
  have h0 : 0 ≤ i := hi (ho (.asked r, s.history) (by simp [ha]))
  simp only [footing, InRange, hgoal, decide_eq_true_eq]
  -- A place that is not negative is out of range of a timeline that has been cleared meanwhile.
  split
  · rename_i he
    rw [show t.history.entries = [] from he, List.length_nil]
    omega
  · exact and_iff_right h0

theorem leads_handle_kept (hserve : ∀ g r, (serve r).Keeps (footing.Kept g)) {r : Request ι}
    (hs : footing.Kept g s) (ha : (.asked r, s.history) ∈ s.past.head?) :
    ((c.timelineHost serve).handle r).Leads s (fun _ ↦ footing.Kept g) (fun _ ↦ footing.Kept g)
      True := by
  obtain ⟨past, hp⟩ := List.head?_eq_some_iff.1 ha
  have ha : (.asked r, s.history) ∈ s.past := hp ▸ List.mem_cons_self
  have hh := heard_kept (c := c) (hserve g)
  cases r with
  | add x =>
    refine hh.leads_add hs (fun l hl ↦ ?_) fun e he ↦ ?_
    · exact kept_recorded hs ha (f := fun _ ↦ l) (.inl hl)
    · exact kept_recorded hs ha (f := (·.push (c.same s) x)) (.inr ⟨e, he⟩)
  | undo =>
    refine Host.leads_undo (fun _ ↦ hs) fun hne hp0 ↦ ?_
    refine leads_moveTo_kept hserve hs hp (fun hr ↦ ?_) fun m ↦ by rw [hp]; rfl
    have hr := hr.of_ne_nil (by simpa [isEmpty] using hne)
    have hp0 : s.history.pointer ≠ 0 := hp0
    show 0 ≤ s.history.pointer - 1
    omega
  | redo =>
    refine Host.leads_redo (fun _ ↦ hs) fun hlast ↦ ?_
    refine leads_moveTo_kept hserve hs hp (fun hr ↦ ?_) fun m ↦ by rw [hp]; rfl
    have := hr.neg_one_le
    show 0 ≤ s.history.pointer + 1
    omega
  | clear => exact hh.leads_clear (hs.update ha fun _ hl ↦ ⟨hl, fun _ ↦ InRange.empty _⟩)
  | setEnabled v => exact hs.update ha (f := ({ · with enabled := v })) fun _ hl ↦ ⟨hl, id⟩
  | setLimit v => exact hs.update ha (f := ({ · with limit := v })) fun hp _ ↦ ⟨hp _ ha, id⟩

end Timeline

/-- Whatever code works on a new history, through whatever code of its own and of its listeners, and
however that fails: as long as the limits are proper, the position has always been in range if and
only if each code that was left without a fault left a place to go to. For a journal that is an edit
to undo or to redo, where the position then was; for a timeline it is an entry where the pointer was
to go when the code was entered. -/
theorem inRange_iff_apt {ι : Type} :
    (∀ (c : Cast (Journal ι) ι (Journal.Notice ι)) (n : Nat) (limit : Value) (code : Script ι) t,
      limit.room?.isSome →
      (code.play (Journal.engine.serve c n) ⟨{ limit }, []⟩).state? = some t → AllProper t.past →
      ((t.history.InRange ∧ ∀ m ∈ t.past, m.2.InRange) ↔ Journal.footing.apt t.past = true)) ∧
    ∀ (c : Cast (Timeline ι) ι (Timeline.Notice ι)) (n : Nat) (limit : Value) (code : Script ι) t,
      limit.room?.isSome →
      (code.play (Timeline.engine.serve c n) ⟨{ limit }, []⟩).state? = some t → AllProper t.past →
      ((t.history.InRange ∧ ∀ m ∈ t.past, m.2.InRange) ↔ Timeline.footing.apt t.past = true) := by
  constructor
  · intro c n limit code t hl ht hp
    have hserve := Footing.serve_keeps (e := Journal.engine) (c := c) (fun _ hserve _ _ _ hs ha ↦
      Journal.leads_handle_kept hserve hs (List.mem_of_mem_head? ha)) n
    exact Footing.ranged_iff_of_play (j := { limit }) (hserve []) ⟨Int.le_refl 0, Int.le_refl 0⟩
      hl ht hp
  · intro c n limit code t hl ht hp
    have hserve := Footing.serve_keeps (e := Timeline.engine) (c := c) (fun _ hserve _ _ _ hs ha ↦
      Timeline.leads_handle_kept hserve hs ha) n
    exact Footing.ranged_iff_of_play (j := { limit }) (hserve []) (Timeline.InRange.empty { limit })
      hl ht hp

/-- The code of what is recorded clears the history. -/
def Cast.clearing : Cast ε ι ν where
  code _ _ _ := .ask .clear fun _ ↦ .finish
  hears _ _ := .finish
  describe _ _ := .ok .null
  same _ _ _ := false

/-- Going back once more while going back leads to the right place, as there is one, and so the
position stays in range. When the history is cleared, there is none, and the next state recorded
does not undo that. -/
theorem inRange_iff_apt_cleared :
    (∃ t : Stage (Journal Nat) Nat _, ((Script.all [.add 1, .add 2, .undo]).play
        (Journal.engine.serve Cast.steppingBack 3) ⟨{}, []⟩).state? = some t ∧
      t.history.InRange ∧ ∀ m ∈ t.past, m.2.InRange) ∧
    ∃ t : Stage (Timeline Nat) Nat _, ((Script.all [.add 1, .add 2, .undo, .add 3]).play
        (Timeline.engine.serve Cast.clearing 3) ⟨{ limit := .int 5 }, []⟩).state? = some t ∧
      t.history.entries = [3] ∧ t.history.pointer = 0 ∧ ∃ m ∈ t.past, ¬ m.2.InRange := by
  obtain ⟨hjournal, htimeline⟩ := inRange_iff_apt (ι := Nat)
  constructor
  · obtain ⟨t, ht, hp, hapt⟩ : ∃ t ∈ ((Script.all [.add 1, .add 2, .undo]).play
        (Journal.engine.serve Cast.steppingBack 3) ⟨{}, []⟩).state?,
        AllProper t.past ∧ Journal.footing.apt t.past = true := by decide +kernel
    exact ⟨t, ht, (hjournal _ _ _ _ t rfl ht hp).2 hapt⟩
  · obtain ⟨t, ht, hp, hapt, he, hi⟩ : ∃ t ∈ ((Script.all [.add 1, .add 2, .undo, .add 3]).play
        (Timeline.engine.serve Cast.clearing 3) ⟨{ limit := .int 5 }, []⟩).state?,
        AllProper t.past ∧ Timeline.footing.apt t.past = false ∧ t.history.entries = [3] ∧
          t.history.pointer = 0 := by decide +kernel
    have hr : t.history.InRange := by simp [Timeline.InRange, he, hi]
    refine ⟨t, ht, he, hi, ?_⟩
    by_contra hm
    have hm : ∀ m ∈ t.past, m.2.InRange := by simpa using hm
    exact absurd (hapt.symm.trans ((htimeline _ _ _ _ t rfl ht hp).1 ⟨hr, hm⟩)) Bool.noConfusion

/-- When the code of an edit clears the history while the edit is undone, the position ends below
zero, and when that of a state does while it is restored, the pointer ends at nothing. -/
theorem not_inRange_of_clearing :
    (¬ ∀ (c : Cast (Journal Nat) Nat (Journal.Notice Nat)) (n : Nat) (limit : Value)
      (code : Script Nat) t, limit.room?.isSome →
      (code.play (Journal.engine.serve c n) ⟨{ limit }, []⟩).state? = some t → AllProper t.past →
      t.history.InRange) ∧
    ¬ ∀ (c : Cast (Timeline Nat) Nat (Timeline.Notice Nat)) (n : Nat) (limit : Value)
      (code : Script Nat) t, limit.room?.isSome →
      (code.play (Timeline.engine.serve c n) ⟨{ limit }, []⟩).state? = some t → AllProper t.past →
      t.history.InRange := by
  constructor
  · intro h
    obtain ⟨t, ht, hp, hi⟩ : ∃ t ∈ ((Script.all [.add 1, .undo]).play
        (Journal.engine.serve Cast.clearing 2) ⟨{}, []⟩).state?,
        AllProper t.past ∧ t.history.position = -1 := by decide +kernel
    have := (h _ _ _ _ t rfl ht hp).1
    omega
  · intro h
    obtain ⟨t, ht, hp, he, hi⟩ : ∃ t ∈ ((Script.all [.add 1, .add 2, .undo]).play
        (Timeline.engine.serve Cast.clearing 2) ⟨{}, []⟩).state?,
        AllProper t.past ∧ t.history.entries = [] ∧ t.history.pointer = 0 := by decide +kernel
    have := (h _ _ _ _ t rfl ht hp).pointer_eq_iff.2 he
    omega

end Rewind
