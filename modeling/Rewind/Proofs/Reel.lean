import Rewind.Proofs.TwoStacks

namespace Rewind

open Session (Way)

variable {ε ι ν : Type}

/-- States in order, one of them shown: those before it, the oldest first, and those after it. -/
inductive Strip (ι : Type) where
  | blank
  | showing (before : List ι) (x : ι) (after : List ι)

namespace Strip

def entries : Strip ι → List ι
  | blank => []
  | showing before x after => before ++ x :: after

def pointer : Strip ι → Int
  | blank => -1
  | showing before _ _ => before.length

def shown? : Strip ι → Option ι
  | blank => none
  | showing _ x _ => some x

/-- The strip that shows the last of the states. -/
def ofList (xs : List ι) : Strip ι :=
  match xs.getLast? with
  | none => blank
  | some x => showing xs.dropLast x []

/-- The strip that shows the state before. -/
def back? : Strip ι → Option (Strip ι)
  | blank => none
  | showing before x after => before.getLast?.map fun y ↦ showing before.dropLast y (x :: after)

/-- The strip that shows the state after. -/
def forth? : Strip ι → Option (Strip ι)
  | showing before x (y :: after) => some (showing (before ++ [x]) y after)
  | _ => none

/-- What stays when a new state comes: what there is up to the state shown. If that is the first of
several, it goes as well. -/
def past : Strip ι → List ι
  | blank => []
  | showing [] _ (_ :: _) => []
  | showing before x _ => before ++ [x]

/-- A new state takes the place of an equal one. -/
def kept (same : ι → ι → Bool) (x : ι) (past : List ι) : List ι :=
  if past.getLast?.any (same · x) then past.dropLast else past

@[simp]
theorem entries_ofList (xs : List ι) : (ofList xs).entries = xs := by
  unfold ofList
  cases hx : xs.getLast? with
  | none => exact (List.getLast?_eq_none_iff.1 hx).symm
  | some x => exact List.dropLast_append_getLast? x hx

@[simp]
theorem pointer_ofList (xs : List ι) : (ofList xs).pointer = xs.length - 1 := by
  unfold ofList
  cases hx : xs.getLast? with
  | none =>
    rw [List.getLast?_eq_none_iff.1 hx]
    rfl
  | some x =>
    have hl := congrArg List.length (List.dropLast_append_getLast? x hx)
    simp only [List.length_append, List.length_singleton] at hl
    simp only [pointer]
    omega

@[simp]
theorem shown?_ofList (xs : List ι) : (ofList xs).shown? = xs.getLast? := by
  unfold ofList
  cases xs.getLast? <;> rfl

/-- A strip is told by its states and by where the one shown is. -/
theorem eq_of_entries {a b : Strip ι} (he : a.entries = b.entries) (hp : a.pointer = b.pointer) :
    a = b := by
  cases a with
  | blank =>
    cases b with
    | blank => rfl
    | showing => simp [entries] at he
  | showing before x after =>
    cases b with
    | blank => simp [entries] at he
    | showing before' y after' =>
      obtain ⟨rfl, hr⟩ := List.append_inj he (Int.ofNat.inj hp)
      cases hr
      rfl

end Strip

/-- A strip that takes new states while it is enabled, as many as a limit allows. -/
structure Reel (ι : Type) where
  strip : Strip ι := .blank
  limit : Int := 0
  enabled : Bool := true

namespace Reel

/-- What a request makes of a reel, when some states are the same. -/
def step (same : ι → ι → Bool) (m : Reel ι) : Request ι → Reel ι
  | .add x =>
    if m.enabled then
      { m with strip := .ofList (latest m.limit (Strip.kept same x m.strip.past ++ [x])) }
    else m
  | .undo => { m with strip := m.strip.back?.getD m.strip }
  | .redo => { m with strip := m.strip.forth?.getD m.strip }
  | .clear => { m with strip := .blank }
  | .setEnabled v => { m with enabled := v.truth }
  | .setLimit v => { m with limit := v.bound?.getD 0 }

/-- What is restored for a request: the state that is then shown, if it is another one. -/
def calls (m : Reel ι) : Request ι → List (Way × ι)
  | .undo => (m.strip.back?.bind Strip.shown?).toList.map (.restore, ·)
  | .redo => (m.strip.forth?.bind Strip.shown?).toList.map (.restore, ·)
  | _ => []

end Reel

/-- A timeline that holds the states of a reel, with the pointer at the one shown. -/
structure Timeline.Shows (t : Timeline ι) (m : Reel ι) : Prop where
  entries : t.entries = m.strip.entries
  pointer : t.pointer = m.strip.pointer
  limit : t.limit.bound? = some m.limit
  enabled : t.enabled.truth = m.enabled
  idle : t.restoring = false

namespace Timeline.Shows

variable {t : Timeline ι} {m : Reel ι}

theorem unique {m' : Reel ι} (h : t.Shows m) (h' : t.Shows m') : m = m' := by
  obtain ⟨strip, limit, enabled⟩ := m
  obtain ⟨strip', limit', enabled'⟩ := m'
  obtain rfl : strip = strip' :=
    Strip.eq_of_entries (h.entries.symm.trans h'.entries) (h.pointer.symm.trans h'.pointer)
  obtain rfl : limit = limit' := Option.some.inj (h.limit.symm.trans h'.limit)
  obtain rfl : enabled = enabled' := h.enabled.symm.trans h'.enabled
  rfl

theorem inRange (h : t.Shows m) : t.InRange := by
  unfold InRange
  rw [h.entries, h.pointer]
  cases m.strip with
  | blank => rfl
  | showing before x after =>
    simp only [Strip.entries, Strip.pointer, List.append_eq_nil_iff, reduceCtorEq, and_false,
      if_false, List.length_append, List.length_cons]
    omega

theorem canUndo_eq (h : t.Shows m) : t.canUndo = m.strip.back?.isSome := by
  rw [canUndo, h.pointer]
  cases m.strip with
  | blank => rfl
  | showing before x after => cases before <;> simp [Strip.pointer, Strip.back?]

theorem canRedo_eq (h : t.Shows m) : t.canRedo = m.strip.forth?.isSome := by
  rw [canRedo, h.pointer, h.entries]
  cases m.strip with
  | blank => rfl
  | showing before x after =>
    cases after <;> simp [Strip.pointer, Strip.entries, Strip.forth?]
    omega

theorem current_eq (h : t.Shows m) : t.current = .ok m.strip.shown? := by
  rw [current, isEmpty, h.pointer, h.entries]
  cases m.strip with
  | blank => rfl
  | showing before x after =>
    simp [Strip.entries, Strip.pointer, Strip.shown?, Position.item?_natCast]

theorem past_eq (h : t.Shows m) : t.past = m.strip.past := by
  rw [past, h.canRedo_eq, h.pointer, h.entries]
  cases m.strip with
  | blank => rfl
  | showing before x after =>
    cases after with
    | nil => cases before <;> rfl
    | cons y after =>
      cases before with
      | nil => rfl
      | cons z before =>
        have hl : (((z :: before).length : Int) + 1).toNat = (z :: before).length + 1 := by omega
        have hp : (0 : Int) < (z :: before).length := by simp
        simp only [Strip.forth?, Strip.past, Strip.pointer, Strip.entries, Option.isSome_some,
          if_true, if_pos hp, hl, List.take_length_add_append, List.take_succ_cons, List.take_zero]

theorem kept_eq (h : t.Shows m) (same : ι → ι → Bool) (x : ι) :
    t.kept same x = Strip.kept same x m.strip.past := by
  rw [kept, Strip.kept, h.past_eq]

theorem trim_push (h : t.Shows m) (same : ι → ι → Bool) (x : ι) :
    ∃ u, (t.push same x).trim = .ok u ∧
      u.Shows { m with
        strip := .ofList (latest m.limit (Strip.kept same x m.strip.past ++ [x])) } := by
  refine ⟨_, trim_of_bound (t := t.push same x) h.limit, ?_, ?_, h.limit, h.enabled, h.idle⟩
  · simp [push, h.kept_eq]
  · simp [push, h.kept_eq]

theorem back?_cases (h : t.Shows m) :
    (m.strip.back? = none ∧ (t.isEmpty = true ∨ t.pointer = 0)) ∨
      ∃ strip x, m.strip.back? = some strip ∧ strip.shown? = some x ∧ t.isEmpty = false ∧
        t.pointer ≠ 0 ∧ Position.item? t.entries (t.pointer - 1) = some x ∧
        strip.entries = t.entries ∧ strip.pointer = t.pointer - 1 := by
  rw [isEmpty, h.entries, h.pointer]
  cases m.strip with
  | blank => exact .inl ⟨rfl, .inl rfl⟩
  | showing before x after =>
    rcases before.eq_nil_or_concat with rfl | ⟨before, y, rfl⟩
    · exact .inl ⟨rfl, .inr rfl⟩
    · refine .inr ⟨.showing before y (x :: after), y, ?_, rfl, ?_, ?_, ?_, ?_, ?_⟩
      · simp [Strip.back?]
      · simp [Strip.entries]
      · simp [Strip.pointer]; omega
      · simp [Strip.entries, Strip.pointer, Position.item?_natCast]
      · simp [Strip.entries]
      · simp [Strip.pointer]

theorem forth?_cases (h : t.Shows m) :
    (m.strip.forth? = none ∧ t.pointer = t.entries.length - 1) ∨
      ∃ strip x, m.strip.forth? = some strip ∧ strip.shown? = some x ∧
        t.pointer ≠ t.entries.length - 1 ∧ Position.item? t.entries (t.pointer + 1) = some x ∧
        strip.entries = t.entries ∧ strip.pointer = t.pointer + 1 := by
  rw [h.entries, h.pointer]
  cases m.strip with
  | blank => exact .inl ⟨rfl, rfl⟩
  | showing before x after =>
    cases after with
    | nil => exact .inl ⟨rfl, by simp [Strip.pointer, Strip.entries]⟩
    | cons y after =>
      have hi : (before.length : Int) + 1 = (before.length + 1 : Nat) := by omega
      refine .inr ⟨.showing (before ++ [x]) y after, y, rfl, rfl, ?_, ?_, ?_, ?_⟩
      · simp [Strip.entries, Strip.pointer]; omega
      · rw [Strip.pointer, hi, Position.item?_natCast]
        simp [Strip.entries]
      · simp [Strip.entries]
      · simp [Strip.pointer]

end Timeline.Shows

/-- A reel meets the request `r` the way the timeline does between `s` and `t`. -/
structure Reel.Meets (same : ι → ι → Bool) (m : Reel ι) (r : Request ι)
    (s t : Stage (Timeline ι) ι (Timeline.Notice ι)) : Prop where
  shows : t.history.Shows (m.step same r)
  calls : t.calls = s.calls ++ m.calls r
  answers : t.answers = s.answers

section Quiet

variable {c : Cast (Timeline ι) ι (Timeline.Notice ι)} {m : Reel ι}
  {serve : Request ι → Run (Stage (Timeline ι) ι (Timeline.Notice ι)) Unit}
  {s : Stage (Timeline ι) ι (Timeline.Notice ι)}
  {Q : Unit → Stage (Timeline ι) ι (Timeline.Notice ι) → Prop}
  {E : Fault → Stage (Timeline ι) ι (Timeline.Notice ι) → Prop}

namespace Timeline

theorem leads_tell_quiet (hc : c.Quiet) {x : ι} {Q : Value → _ → Prop} (hQ : ∀ v, Q v s) :
    ((c.timelineHost serve).tell x).Leads s Q E False := by
  obtain ⟨v, hv⟩ := hc.describe s x
  refine Host.leads_tell.2 ⟨fun w _ ↦ hQ w, fun e he ↦ ?_⟩
  rw [Cast.describe_timelineHost, hv] at he
  cases he

theorem Shows.leads_add (hs : s.history.Shows m) (hc : c.Quiet) (x : ι) :
    ((c.timelineHost serve).add x).Leads s (fun _ t ↦ m.Meets (c.same s) (.add x) s t) E False := by
  have he := hs.enabled
  cases hm : m.enabled with
  | false =>
    rw [Host.leads_add_ignored (.inl ⟨he.trans hm, rfl⟩)]
    refine leads_tell_quiet hc fun v ↦ ⟨?_, ?_, rfl⟩
    · rw [Reel.step, if_neg (by simp [hm])]
      exact hs
    · simp [Reel.calls]
  | true =>
    obtain ⟨t, ht, hshows⟩ := hs.trim_push (c.same s) x
    rw [Host.leads_add_recorded (he.trans hm) hs.idle]
    apply (Run.leads_lift_ok ht).2
    refine leads_tell_quiet hc fun v ↦ ?_
    simp only [Cast.log_timelineHost, Cast.announce_timelineHost, Run.leads_pure,
      hc.leads_announce, Host.leads_announceChange]
    refine ⟨?_, by simp [Reel.calls], by simp⟩
    rw [Reel.step, if_pos hm]
    exact hshows

theorem Shows.leads_moveTo (hs : s.history.Shows m) (hc : c.Quiet) {i : Int} {x : ι}
    {strip : Strip ι} (hx : Position.item? s.history.entries i = some x)
    (he : strip.entries = s.history.entries) (hp : strip.pointer = i)
    (hQ : ∀ t : Stage (Timeline ι) ι (Timeline.Notice ι), t.history.Shows { m with strip } →
      t.calls = s.calls ++ [(.restore, x)] → t.answers = s.answers → Q () t) :
    ((c.timelineHost serve).moveTo i).Leads s Q E False := by
  refine Host.leads_moveTo (fun hn ↦ ?_) (fun y hy ↦ ?_)
  · cases hn.symm.trans hx
  · obtain rfl : x = y := Option.some.inj (hx.symm.trans hy)
    rw [Cast.restore_timelineHost, hc.leads_enter]
    simp only [Host.settle, Run.leads_bind, Host.leads_change, Host.leads_look]
    refine leads_tell_quiet hc fun v ↦ ?_
    simp only [Cast.log_timelineHost, Cast.announce_timelineHost, Run.leads_pure,
      hc.leads_announce, Host.leads_announceChange]
    exact hQ _ ⟨he.symm, hp.symm, hs.limit, hs.enabled, rfl⟩ (by simp) (by simp)

theorem Shows.leads_undo (hs : s.history.Shows m) (hc : c.Quiet) (same : ι → ι → Bool) :
    (c.timelineHost serve).undo.Leads s (fun _ t ↦ m.Meets same .undo s t) E False := by
  rcases hs.back?_cases with ⟨hb, hnone⟩ | ⟨strip, x, hb, hx, hempty, hp, hi, he, hq⟩
  · refine Host.leads_undo (fun _ ↦ ⟨?_, by simp [Reel.calls, hb], rfl⟩) fun h0 hp ↦ ?_
    · simpa [Reel.step, hb] using hs
    · rcases hnone with h1 | h1
      · exact absurd (h0.symm.trans h1) Bool.noConfusion
      · exact absurd h1 hp
  · refine Host.leads_undo (fun hnone ↦ ?_) fun _ _ ↦ ?_
    · rcases hnone with h1 | h1
      · exact absurd (hempty.symm.trans h1) Bool.noConfusion
      · exact absurd h1 hp
    · refine hs.leads_moveTo hc hi he hq fun t ht hcalls hans ↦ ⟨?_, ?_, hans⟩
      · simpa [Reel.step, hb] using ht
      · simpa [Reel.calls, hb, hx] using hcalls

theorem Shows.leads_redo (hs : s.history.Shows m) (hc : c.Quiet) (same : ι → ι → Bool) :
    (c.timelineHost serve).redo.Leads s (fun _ t ↦ m.Meets same .redo s t) E False := by
  rcases hs.forth?_cases with ⟨hf, hlast⟩ | ⟨strip, x, hf, hx, hp, hi, he, hq⟩
  · refine Host.leads_redo (fun _ ↦ ⟨?_, by simp [Reel.calls, hf], rfl⟩) fun hp ↦ absurd hlast hp
    simpa [Reel.step, hf] using hs
  · refine Host.leads_redo (fun hlast ↦ absurd hlast hp) fun _ ↦ ?_
    refine hs.leads_moveTo hc hi he hq fun t ht hcalls hans ↦ ⟨?_, ?_, hans⟩
    · simpa [Reel.step, hf] using ht
    · simpa [Reel.calls, hf, hx] using hcalls

end Timeline

end Quiet

/-- The only limits set are integers, or none. -/
def Request.Whole : Request ι → Prop
  | .setLimit v => v.bound?.isSome
  | _ => True

theorem Request.Proper.whole {r : Request ι} (h : r.Proper) : r.Whole := by
  cases r with
  | setLimit v =>
    obtain ⟨room, hv⟩ := Option.isSome_iff_exists.1 h
    exact Option.isSome_iff_exists.2 ⟨_, Value.bound_of_room hv⟩
  | add | undo | redo | clear | setEnabled => trivial

/-- Nobody calls back, and numbers with the same last digit are equal. -/
def Cast.lastDigit : Cast ε Nat ν := { Cast.silent with same := fun _ a b ↦ a % 10 == b % 10 }

theorem Cast.quiet_lastDigit : (lastDigit : Cast ε Nat ν).Quiet :=
  ⟨fun _ _ _ ↦ rfl, fun _ _ ↦ rfl, fun _ _ ↦ ⟨.null, rfl⟩⟩

namespace Timeline

section Runs

variable {c : Cast (Timeline ι) ι (Timeline.Notice ι)} {m : Reel ι}
  {s : Stage (Timeline ι) ι (Timeline.Notice ι)}

/-- A request never fails, and it has the effect it has on the reel. -/
theorem Shows.leads_handle
    {serve : Request ι → Run (Stage (Timeline ι) ι (Timeline.Notice ι)) Unit}
    (hs : s.history.Shows m) (hc : c.Quiet) {r : Request ι} (hr : r.Whole) :
    ((c.timelineHost serve).handle r).Leads s (fun _ t ↦ m.Meets (c.same s) r s t)
      (fun _ _ ↦ False) False := by
  cases r with
  | add x => exact hs.leads_add hc x
  | undo => exact hs.leads_undo hc _
  | redo => exact hs.leads_redo hc _
  | clear =>
    simp only [Host.handle, Host.leads_clear, Cast.log_timelineHost, Cast.announce_timelineHost,
      Run.leads_pure, hc.leads_announce, Host.leads_announceChange]
    exact ⟨⟨rfl, rfl, hs.limit, hs.enabled, hs.idle⟩, by simp [Reel.calls], by simp⟩
  | setEnabled v =>
    rw [Host.handle, Host.leads_change]
    exact ⟨⟨hs.entries, hs.pointer, hs.limit, rfl, hs.idle⟩, by simp [Reel.calls], rfl⟩
  | setLimit v =>
    obtain ⟨size, hv⟩ := Option.isSome_iff_exists.1 hr
    rw [Host.handle, Host.leads_change]
    refine ⟨⟨hs.entries, hs.pointer, ?_, hs.enabled, hs.idle⟩, by simp [Reel.calls], rfl⟩
    simp [Reel.step, hv]

theorem Shows.exists_served (hs : s.history.Shows m) (hc : c.Quiet) (n : Nat) {r : Request ι}
    (hr : r.Whole) :
    ∃ t, engine.serve c (n + 1) r s = .returned () t ∧
      t.history.Shows (m.step (c.same (s.note (.asked r))) r) ∧ t.calls = s.calls ++ m.calls r ∧
      t.answers = s.answers ++ [none] := by
  have hq : (s.note (.asked r)).history.Shows m := hs
  have hlead : (engine.serve c (n + 1) r).Leads s (fun _ t ↦
      t.history.Shows (m.step (c.same (s.note (.asked r))) r) ∧ t.calls = s.calls ++ m.calls r ∧
        t.answers = s.answers ++ [none]) (fun _ _ ↦ False) False := by
    rw [Engine.leads_serve]
    refine (hq.leads_handle hc hr).mono (fun _ t ht ↦ ⟨ht.shows, ?_, ?_⟩) (fun _ _ h ↦ h)
    · simp [ht.calls]
    · simp [ht.answers]
  obtain ⟨_, t, ht, hu⟩ := hlead.exists_returned
  exact ⟨t, ht, hu⟩

theorem Shows.exists_played (hs : s.history.Shows m) (hc : c.Quiet) (n : Nat)
    {rs : List (Request ι)} (hr : ∀ r ∈ rs, r.Whole) :
    ∃ t m', (Script.all rs).play (engine.serve c (n + 1)) s = .returned () t ∧
      t.history.Shows m' ∧ t.answers = s.answers ++ List.replicate rs.length none := by
  induction rs generalizing s m with
  | nil => exact ⟨s, m, rfl, hs, by simp⟩
  | cons r rs ih =>
    obtain ⟨t, ht, hshows, -, hans⟩ := hs.exists_served hc n (hr r List.mem_cons_self)
    obtain ⟨u, m', hu, hshows, hans'⟩ := ih hshows fun q hq ↦ hr q (List.mem_cons_of_mem r hq)
    refine ⟨u, m', (Script.play_all_cons ht).trans hu, hshows, ?_⟩
    rw [hans', hans, List.length_cons, List.replicate_succ, List.append_assoc,
      List.singleton_append]

end Runs

/-- Whatever is asked of a new timeline whose states keep to themselves, no request fails, and its
entries are a strip of states with the pointer at the one shown, if there is one. The next request
then makes of it what it makes of the reel, and restores just the state that is shown if that is
another one. -/
theorem refines_reel (c : Cast (Timeline ι) ι (Timeline.Notice ι)) (hc : c.Quiet) (n : Nat)
    (limit : Value) (size : Int) (hl : limit.bound? = some size) (rs : List (Request ι))
    (hr : ∀ r ∈ rs, r.Whole) :
    ∃ t m, (Script.all rs).play (engine.serve c (n + 1)) ⟨{ limit }, []⟩ = .returned () t ∧
      t.history.Shows m ∧ (rs = [] → m = { limit := size }) ∧
      t.answers = List.replicate rs.length none ∧
      (t.history.pointer = -1 ↔ t.history.entries = []) ∧
      (t.history.entries ≠ [] → 0 ≤ t.history.pointer ∧
        t.history.pointer < t.history.entries.length) ∧
      (t.history.canUndo = true ↔ m.strip.back?.isSome) ∧
      (t.history.canRedo = true ↔ m.strip.forth?.isSome) ∧
      ∀ r : Request ι, r.Whole →
        ∃ u, (Script.all (rs ++ [r])).play (engine.serve c (n + 1)) ⟨{ limit }, []⟩ =
            .returned () u ∧
          u.history.Shows (m.step (c.same (t.note (.asked r))) r) ∧
          u.calls = t.calls ++ m.calls r ∧
          ∀ x, r = .add x → m.enabled = true → 0 ≤ m.limit →
            u.history.current = .ok (some x) := by
  have hstart : (⟨{ limit }, []⟩ : Stage (Timeline ι) ι (Notice ι)).history.Shows
      { limit := size } := ⟨rfl, rfl, hl, rfl, rfl⟩
  obtain ⟨t, m, ht, hs, hans⟩ := hstart.exists_played hc n hr
  refine ⟨t, m, ht, hs, ?_, hans, hs.inRange.pointer_eq_iff, hs.inRange.of_ne_nil, ?_, ?_, ?_⟩
  · rintro rfl
    cases ht
    exact hs.unique hstart
  · rw [hs.canUndo_eq]
  · rw [hs.canRedo_eq]
  · intro r hq
    obtain ⟨u, hu, hshows, hcalls, -⟩ := hs.exists_served hc n hq
    refine ⟨u, ?_, hshows, hcalls, ?_⟩
    · exact (Script.play_all_append ht).trans (Script.play_all_cons hu)
    · rintro x rfl he hm
      rw [hshows.current_eq, Reel.step, if_pos he]
      obtain ⟨ys, hys, -⟩ := exists_latest_append hm (Strip.kept _ x m.strip.past) x
      rw [hys, Strip.shown?_ofList, List.getLast?_concat]

/-- A state takes the place of an equal one, the first of two is gone back to, and there a new state
leaves nothing of what there was. -/
theorem refines_reel_wiped :
    let rs : List (Request Nat) := [.setLimit (.int (-1)), .add 1, .setLimit (.int 2), .add 2,
      .add 3, .add 13, .undo, .undo]
    ∃ t u, (Script.all rs).play (engine.serve .lastDigit 1) ⟨{ limit := .bool true }, []⟩ =
        .returned () t ∧
      t.history.entries = [2, 13] ∧ t.history.pointer = 0 ∧ t.calls = [(.restore, 2)] ∧
      (Script.all (rs ++ [.add 22])).play (engine.serve .lastDigit 1)
        ⟨{ limit := .bool true }, []⟩ = .returned () u ∧
      u.history.entries = [22] ∧ u.history.current = .ok (some 22) := by
  intro rs
  have hr : ∀ r ∈ rs, r.Whole := by simp [rs, Request.Whole, Value.bound?]
  obtain ⟨t, m, ht, hs, -, -, -, -, -, -, hnext⟩ :=
    refines_reel .lastDigit Cast.quiet_lastDigit 0 (.bool true) 1 rfl rs hr
  obtain ⟨u, hu, -, -, hcurrent⟩ := hnext (.add 22) trivial
  have hseen : ((Script.all rs).play (engine.serve .lastDigit 1)
      ⟨{ limit := .bool true }, []⟩).state?.map (fun t ↦ ((t.history.entries, t.history.pointer),
        t.calls, t.history.enabled.truth, t.history.limit.bound?)) =
      some (([2, 13], 0), [(.restore, 2)], true, some 2) := by decide +kernel
  have hseen' : ((Script.all (rs ++ [.add 22])).play (engine.serve .lastDigit 1)
      ⟨{ limit := .bool true }, []⟩).state?.map (fun u ↦ u.history.entries) = some [22] := by
    decide +kernel
  rw [ht] at hseen
  rw [hu] at hseen'
  simp only [Outcome.state?, Option.map_some, Option.some.injEq, Prod.mk.injEq] at hseen hseen'
  obtain ⟨⟨he, hp⟩, hcalls, henabled, hlimit⟩ := hseen
  have hm : m.limit = 2 := Option.some.inj (hs.limit.symm.trans hlimit)
  exact ⟨t, u, ht, he, hp, hcalls, hu, hseen',
    hcurrent 22 rfl (hs.enabled.symm.trans henabled) (by omega)⟩

end Timeline

end Rewind
