import Rewind.Proofs.TwoStacks
import Rewind.Proofs.Upshot

namespace Rewind

open Session (Way)

variable {ε ι ν : Type}

/-- Whether something makes a difference to what comes after it. Answers and announcements do not,
but for what those who listen do about them. -/
def Act.isDeed : Act ι ν → Bool
  | .answered _ _ | .announced _ => false
  | .asked _ | .entered _ _ | .left _ _ _ => true

/-- How the requests ended, the first one first, where `ended` tells of those that were answered
later on, the latest start first. One that has not been answered counts as returned. -/
def endings : (ended : List (Option Fault)) → List (Act ι ν × ε) → List (Option Fault)
  | _, [] => []
  | ended, (.answered _ fault, _) :: past => endings (fault :: ended) past
  | ended, (.asked _, _) :: past => endings ended.tail past ++ [ended.head?.join]
  | ended, (.entered _ _, _) :: past | ended, (.left _ _ _, _) :: past
  | ended, (.announced _, _) :: past => endings ended past

/-- It makes no difference to answer that the first request not answered yet has returned. -/
theorem endings_answered (ended : List (Option Fault)) (past : List (Act ι ν × ε)) :
    endings (ended ++ [none]) past = endings ended past := by
  induction past generalizing ended with
  | nil => rfl
  | cons m past ih =>
    obtain ⟨a, j⟩ := m
    cases a with
    | asked r =>
      cases ended with
      | nil => simp [endings]
      | cons fault ended => simp [endings, ih]
    | answered r fault => exact ih (fault :: ended)
    | entered way x => exact ih ended
    | left way x fault => exact ih ended
    | announced n => exact ih ended

namespace Stage

variable (s : Stage ε ι ν)

/-- What has been asked, in order. -/
def requests : List (Request ι) :=
  s.past.reverse.filterMap fun
    | (.asked r, _) => some r
    | _ => none

/-- What has been asked and what code has run, the latest first, each time with the history as it
was then. -/
def deeds : List (Act ι ν × ε) := s.past.filter (·.1.isDeed)

/-- How the requests ended, in the order in which they were asked. -/
def outcomes : List (Option Fault) := endings [] s.past

@[simp]
theorem requests_update (f : ε → ε) : (s.update f).requests = s.requests := rfl

@[simp]
theorem deeds_update (f : ε → ε) : (s.update f).deeds = s.deeds := rfl

@[simp]
theorem outcomes_update (f : ε → ε) : (s.update f).outcomes = s.outcomes := rfl

@[simp]
theorem requests_note (a : Act ι ν) :
    (s.note a).requests = s.requests ++ match a with
      | .asked r => [r]
      | _ => [] := by
  cases a <;> simp [requests, note]

@[simp]
theorem deeds_note (a : Act ι ν) :
    (s.note a).deeds = if a.isDeed then (a, s.history) :: s.deeds else s.deeds := by
  simp only [deeds, past_note, List.filter_cons]

theorem outcomes_answered (r : Request ι) : (s.note (.answered r none)).outcomes = s.outcomes :=
  endings_answered [] s.past

end Stage

/-- The code of what is recorded asks for nothing, and goes only by what has been asked and what
code has run. Nothing fails to be described. -/
structure Cast.Detached (c : Cast ε ι ν) : Prop where
  code : ∀ s way x, c.code s way x = .finish ∨ ∃ e, c.code s way x = .fail e
  describe : ∀ s x, ∃ v, c.describe s x = .ok v
  code_eq : ∀ s t, s.history = t.history → s.deeds = t.deeds → c.code s = c.code t
  same_eq : ∀ s t, s.history = t.history → s.deeds = t.deeds → c.same s = c.same t

/-- Nobody listens. -/
def Cast.deaf (c : Cast ε ι ν) : Cast ε ι ν := { c with hears := fun _ _ ↦ .finish }

variable {c : Cast ε ι ν} {s t : Stage ε ι ν}

theorem Cast.Detached.deaf (hc : c.Detached) : c.deaf.Detached :=
  ⟨hc.code, hc.describe, hc.code_eq, hc.same_eq⟩

/-- What an upshot comes to if code asks for nothing, and how it ends. -/
def Upshot.close (c : Cast ε ι ν) (s : Stage ε ι ν) : Upshot ε ι → Stage ε ι ν × Option Fault
  | failed k e => (s.update fun _ ↦ k, some e)
  | quiet k | settled k => (s.update fun _ ↦ k, none)
  | replay way x start back done =>
    let t := (s.update fun _ ↦ start).note (.entered way x)
    match c.code (s.update fun _ ↦ start) way x with
    | .fail e => ((t.note (.left way x (some e))).update back, some e)
    | _ => ((t.note (.left way x none)).update done, none)

namespace Upshot

variable {serve : Request ι → Run (Stage ε ι ν) Unit} {u : Upshot ε ι} {I : Stage ε ι ν → Prop}
  {E : Fault → Stage ε ι ν → Prop} {X : Prop}

theorem leads_close (hc : c.Detached) (ha : ∀ n, (c.announce serve n).Keeps I X)
    {fault : Option Fault} (ht : u.close c s = (t, fault)) (hI : fault = none → I t)
    (hE : ∀ e, fault = some e → E e t) : u.Leads c serve s I E X := by
  have htold (t : Stage ε ι ν) (ht : I t) : Told c I E t := by
    refine ⟨ht, fun x e he ↦ ?_⟩
    obtain ⟨v, hv⟩ := hc.describe t x
    cases he.symm.trans hv
  cases u with
  | failed k e =>
    cases ht
    exact hE e rfl
  | quiet k =>
    cases ht
    exact htold _ (hI rfl)
  | settled k =>
    cases ht
    exact ⟨htold _ (hI rfl), ha⟩
  | replay way x start back done =>
    refine (Cast.leads_enter ..).2 ?_
    rcases hc.code (s.update fun _ ↦ start) way x with hx | ⟨e, hx⟩
    · simp only [close, hx] at ht
      cases ht
      rw [hx]
      exact ⟨htold _ (hI rfl), ha⟩
    · simp only [close, hx] at ht
      cases ht
      rw [hx]
      exact hE e rfl

/-- An upshot comes to the same whatever has been heard. -/
theorem close_congr (hc : c.Detached) (hd : s.deeds = t.deeds) :
    (u.close c s).2 = (u.close c t).2 ∧ (u.close c s).1.history = (u.close c t).1.history ∧
      (u.close c s).1.deeds = (u.close c t).1.deeds := by
  cases u with
  | failed k e => exact ⟨rfl, rfl, hd⟩
  | quiet k => exact ⟨rfl, rfl, hd⟩
  | settled k => exact ⟨rfl, rfl, hd⟩
  | replay way x start back done =>
    have hcode := hc.code_eq (s.update fun _ ↦ start) (t.update fun _ ↦ start) rfl hd
    simp only [close, hcode]
    rcases hc.code (t.update fun _ ↦ start) way x with hx | ⟨e, hx⟩
    · simp [hx, hd]
    · simp [hx, hd]

/-- Coming to an upshot asks and answers nothing, but only has code run. -/
theorem close_same {α : Type} (hc : c.Detached) {f : Stage ε ι ν → α}
    (hupdate : ∀ t g, f (t.update g) = f t)
    (hentered : ∀ t way x, f (t.note (.entered way x)) = f t)
    (hleft : ∀ t way x e, f (t.note (.left way x e)) = f t) : f (u.close c s).1 = f s := by
  cases u with
  | failed k e => exact hupdate s fun _ ↦ k
  | quiet k => exact hupdate s fun _ ↦ k
  | settled k => exact hupdate s fun _ ↦ k
  | replay way x start back done =>
    rcases hc.code (s.update fun _ ↦ start) way x with hx | ⟨e, hx⟩
    · simp only [close, hx, hupdate, hentered, hleft]
    · simp only [close, hx, hupdate, hentered, hleft]

end Upshot

variable {g : Engine ε ι ν} {upshot : (ι → ι → Bool) → ε → Request ι → Upshot ε ι} {n m : Nat}
  {j : ε}

/-- What has been asked comes to the same when it is asked one after the other from `j` on and
nobody listens. -/
def Engine.Straight (g : Engine ε ι ν) (c : Cast ε ι ν) (m : Nat) (j : ε) (s : Stage ε ι ν) :
    Prop :=
  ∃ u, (Script.all s.requests).play (g.serve c.deaf (m + 1)) ⟨j, []⟩ = .returned () u ∧
    u.history = s.history ∧ u.deeds = s.deeds ∧ u.answers = s.outcomes

namespace Engine.Straight

theorem note (h : g.Straight c m j s) {a : Act ι ν} (hr : (s.note a).requests = s.requests)
    (hd : (s.note a).deeds = s.deeds) (ho : (s.note a).outcomes = s.outcomes) :
    g.Straight c m j (s.note a) := by
  unfold Straight
  rw [hr, hd, ho]
  exact h

theorem announced (h : g.Straight c m j s) (n : ν) : g.Straight c m j (s.note (.announced n)) :=
  h.note (by simp) (by simp [Act.isDeed]) rfl

theorem answered (h : g.Straight c m j s) (r : Request ι) :
    g.Straight c m j (s.note (.answered r none)) :=
  h.note (by simp) (by simp [Act.isDeed]) (s.outcomes_answered r)

/-- Where nobody listens, a request has come to its upshot when it is answered. -/
theorem exists_next (hg : g.Prompt upshot) (hc : c.Detached) (r : Request ι) {u t : Stage ε ι ν}
    {e : Option Fault}
    (ht : (upshot (c.same (u.note (.asked r))) u.history r).close c (u.note (.asked r)) = (t, e)) :
    ∃ v, (Script.all [r]).play (g.serve c.deaf (m + 1)) u = .returned () v ∧
      v.history = t.history ∧ v.deeds = t.deeds ∧ v.answers = u.answers ++ [e] := by
  have hanswers : t.answers = u.answers := by
    have h := Upshot.close_same (f := Stage.answers)
      (u := upshot (c.same (u.note (.asked r))) u.history r) (s := u.note (.asked r)) hc
      (fun _ _ ↦ rfl) (by simp) (by simp)
    rw [ht] at h
    simpa using h
  have hleads : (g c.deaf (g.serve c.deaf m) r).Leads (u.note (.asked r))
      (fun _ v ↦ e = none ∧ v.history = t.history ∧ v.deeds = t.deeds ∧ v.answers = u.answers)
      (fun e' v ↦ e = some e' ∧ v.history = t.history ∧ v.deeds = t.deeds ∧ v.answers = u.answers)
      False := by
    refine hg _ _ _ _ (fun v ↦ e = none ∧ v.history = t.history ∧ v.deeds = t.deeds ∧
      v.answers = u.answers) _ False (Upshot.leads_close hc.deaf (fun n v hv ↦ ?_) ht
        (fun he ↦ ⟨he, rfl, rfl, hanswers⟩) fun _ he ↦ ⟨he, rfl, rfl, hanswers⟩)
    rw [Cast.leads_announce]
    obtain ⟨he, hh, hd, ha⟩ := hv
    exact ⟨he, hh, by simpa [Act.isDeed] using hd, by simpa using ha⟩
  refine Script.exists_played (Engine.leads_serve.2 (hleads.mono ?_ ?_))
  · rintro _ v ⟨rfl, hh, hd, ha⟩
    exact ⟨hh, by simpa [Act.isDeed] using hd, by simp [ha]⟩
  · rintro e' v ⟨rfl, hh, hd, ha⟩
    exact ⟨hh, by simpa [Act.isDeed] using hd, by simp [ha]⟩

/-- A request that has come to its upshot can be made after all that was asked before it. -/
theorem exists_after (hg : g.Prompt upshot) (hc : c.Detached) (h : g.Straight c m j s)
    (r : Request ι) {t : Stage ε ι ν} {e : Option Fault}
    (ht : (upshot (c.same (s.note (.asked r))) s.history r).close c (s.note (.asked r)) = (t, e)) :
    ∃ v, (Script.all t.requests).play (g.serve c.deaf (m + 1)) ⟨j, []⟩ = .returned () v ∧
      v.history = t.history ∧ v.deeds = t.deeds ∧
      v.answers = endings [e] t.past := by
  obtain ⟨u, hu, hh, hd, ha⟩ := h
  set w := upshot (c.same (s.note (.asked r))) s.history r with hw
  have hrequests : t.requests = s.requests ++ [r] := by
    have h := Upshot.close_same (f := Stage.requests) (u := w) (s := s.note (.asked r)) hc
      (fun _ _ ↦ rfl) (by simp) (by simp)
    rw [ht] at h
    simpa using h
  have hendings : endings [e] t.past = s.outcomes ++ [e] := by
    have h := Upshot.close_same (f := fun t ↦ endings [e] t.past) (u := w) (s := s.note (.asked r))
      hc (fun _ _ ↦ rfl) (fun _ _ _ ↦ rfl) (fun _ _ _ _ ↦ rfl)
    rw [ht] at h
    simpa [endings, Stage.outcomes] using h
  -- The two differ in what has been announced and answered, which the upshot does not go by.
  have hasked : (s.note (.asked r)).deeds = (u.note (.asked r)).deeds := by
    simp [Act.isDeed, hh, hd]
  obtain ⟨t', e', ht'⟩ : ∃ t' e', w.close c (u.note (.asked r)) = (t', e') := ⟨_, _, rfl⟩
  obtain ⟨rfl, hhistory, hdeeds⟩ : e = e' ∧ t.history = t'.history ∧ t.deeds = t'.deeds := by
    simpa only [ht, ht'] using Upshot.close_congr (u := w) hc hasked
  have hnext : (upshot (c.same (u.note (.asked r))) u.history r).close c (u.note (.asked r)) =
      (t', e) := by
    rw [hh, ← hc.same_eq (s.note (.asked r)) (u.note (.asked r)) hh.symm hasked]
    exact ht'
  obtain ⟨v, hv, hvh, hvd, hva⟩ := exists_next (m := m) hg hc r hnext
  refine ⟨v, ?_, hvh.trans hhistory.symm, hvd.trans hdeeds.symm, ?_⟩
  · rw [hrequests, Script.play_all_append hu, hv]
  · rw [hva, ha, hendings]

theorem serve_keeps (hg : g.Prompt upshot) (hc : c.Detached) (n : Nat) (r : Request ι) :
    (g.serve c n r).Keeps (g.Straight c m j) := by
  induction n generalizing r with
  | zero => exact fun _ _ ↦ trivial
  | succ n ih =>
    intro s hs
    have hann (k : ν) : (c.announce (g.serve c n) k).Keeps (g.Straight c m j) := by
      intro t ht
      rw [Cast.leads_announce]
      exact Script.play_keeps ih _ _ (ht.announced k)
    -- Those who hear of the request ask after it has come to its upshot, and before it is answered.
    obtain ⟨t, e, ht⟩ : ∃ t e, (upshot (c.same (s.note (.asked r))) s.history r).close c
      (s.note (.asked r)) = (t, e) := ⟨_, _, rfl⟩
    obtain ⟨v, hv, hh, hd, ha⟩ := hs.exists_after hg hc r ht
    rw [Engine.leads_serve]
    refine (hg c _ r _ (g.Straight c m j)
      (fun e t ↦ g.Straight c m j (t.note (.answered r (some e)))) True
      (Upshot.leads_close hc hann ht ?_ ?_)).mono (fun _ t ht ↦ ht.answered r) fun _ _ ht ↦ ht
    · rintro rfl
      exact ⟨v, hv, hh, hd, ha.trans (t.outcomes_answered r)⟩
    · rintro e rfl
      exact ⟨v, by simpa using hv, hh, by simpa [Act.isDeed] using hd, ha⟩

end Engine.Straight

theorem Engine.Prompt.straight (hg : g.Prompt upshot) (hc : c.Detached) {code : Script ι}
    (ht : (code.play (g.serve c n) ⟨j, []⟩).state? = some t) : g.Straight c m j t :=
  (Script.play_keeps (Straight.serve_keeps hg hc n) code ⟨j, []⟩
    ⟨⟨j, []⟩, rfl, rfl, rfl, rfl⟩).ended
    ht

/-- Whatever code works on a new history, and whatever those who listen ask for when they hear of
it, to any depth: if the code of what is recorded asks for nothing, all comes out as if it had been
asked one after the other, in the order in which it was, and nobody had listened. The history is the
same in the end, and what code has run and how that ended, and so are the faults that the requests
end with. -/
theorem nested_as_in_turn {ι : Type} :
    (∀ (c : Cast (Journal ι) ι (Journal.Notice ι)) (n m : Nat) (limit : Value) (code : Script ι) t,
      c.Detached → (code.play (Journal.engine.serve c n) ⟨{ limit }, []⟩).state? = some t →
      ∃ u, (Script.all t.requests).play (Journal.engine.serve c.deaf (m + 1)) ⟨{ limit }, []⟩ =
          .returned () u ∧
        u.history = t.history ∧ u.deeds = t.deeds ∧ u.answers = t.outcomes) ∧
    ∀ (c : Cast (Timeline ι) ι (Timeline.Notice ι)) (n m : Nat) (limit : Value) (code : Script ι) t,
      c.Detached → (code.play (Timeline.engine.serve c n) ⟨{ limit }, []⟩).state? = some t →
      ∃ u, (Script.all t.requests).play (Timeline.engine.serve c.deaf (m + 1)) ⟨{ limit }, []⟩ =
          .returned () u ∧
        u.history = t.history ∧ u.deeds = t.deeds ∧ u.answers = t.outcomes := by
  constructor
  · intro c n m limit code t hc ht
    exact Journal.prompt.straight hc ht
  · intro c n m limit code t hc ht
    exact Timeline.prompt.straight hc ht

/-- Those who hear that one has been recorded record nine, go back, and record two in a history that
has room for no more than one. Those who hear that two has been recorded go back too. -/
def Journal.meddling : Cast (Journal Nat) Nat (Notice Nat) where
  code _ _ x := if x = 9 then .fail (.scripted .null) else .finish
  hears _
    | .recorded 1 => .all [.add 9, .undo, .setLimit (.int 1), .add 2]
    | .recorded 2 => .all [.undo]
    | _ => .finish
  describe _ _ := .ok .null
  same _ _ _ := false

def Timeline.meddling : Cast (Timeline Nat) Nat (Notice Nat) where
  code _ _ x := if x = 9 then .fail (.scripted .null) else .finish
  hears _
    | .recorded 9 => .all [.add 1, .undo, .setLimit (.int 2), .add 2]
    | .recorded 2 => .all [.undo]
    | _ => .finish
  describe _ _ := .ok .null
  same _ _ _ := false

theorem Journal.detached_meddling : meddling.Detached where
  code s way x := by
    simp only [meddling]
    split
    · exact .inr ⟨_, rfl⟩
    · exact .inl rfl
  describe _ _ := ⟨_, rfl⟩
  code_eq _ _ _ _ := rfl
  same_eq _ _ _ _ := rfl

theorem Timeline.detached_meddling : meddling.Detached where
  code s way x := by
    simp only [meddling]
    split
    · exact .inr ⟨_, rfl⟩
    · exact .inl rfl
  describe _ _ := ⟨_, rfl⟩
  code_eq _ _ _ _ := rfl
  same_eq _ _ _ _ := rfl

/-- Requests nested to a depth of three, one of which fails, and the same requests in turn. -/
theorem nested_as_in_turn_meddled :
    (∃ u, (Script.all [.add 1, .add 9, .undo, .setLimit (.int 1), .add 2, .undo]).play
        (Journal.engine.serve Journal.meddling.deaf 1) ⟨{}, []⟩ = .returned () u ∧
      u.history.entries = [2] ∧ u.history.position = 0 ∧
      u.answers = [none, none, some (.scripted .null), none, none, none]) ∧
    ∃ u, (Script.all [.add 9, .add 1, .undo, .setLimit (.int 2), .add 2, .undo]).play
        (Timeline.engine.serve Timeline.meddling.deaf 1) ⟨{}, []⟩ = .returned () u ∧
      u.history.entries = [1, 2] ∧ u.history.pointer = 0 ∧
      u.answers = [none, none, some (.scripted .null), none, none, none] := by
  obtain ⟨hjournal, htimeline⟩ := nested_as_in_turn (ι := Nat)
  constructor
  · obtain ⟨t, ht, hr, he, hi, ho⟩ : ∃ t ∈ ((Script.all [.add 1]).play
        (Journal.engine.serve Journal.meddling 3) ⟨{}, []⟩).state?,
        t.requests = [.add 1, .add 9, .undo, .setLimit (.int 1), .add 2, .undo] ∧
        t.history.entries = [2] ∧ t.history.position = 0 ∧
        t.outcomes = [none, none, some (.scripted .null), none, none, none] := by decide +kernel
    obtain ⟨u, hu, hh, -, ha⟩ := hjournal _ 3 0 _ _ t Journal.detached_meddling ht
    rw [hr] at hu
    exact ⟨u, hu, by rw [hh, he], by rw [hh, hi], ha.trans ho⟩
  · obtain ⟨t, ht, hr, he, hi, ho⟩ : ∃ t ∈ ((Script.all [.add 9]).play
        (Timeline.engine.serve Timeline.meddling 3) ⟨{}, []⟩).state?,
        t.requests = [.add 9, .add 1, .undo, .setLimit (.int 2), .add 2, .undo] ∧
        t.history.entries = [1, 2] ∧ t.history.pointer = 0 ∧
        t.outcomes = [none, none, some (.scripted .null), none, none, none] := by decide +kernel
    obtain ⟨u, hu, hh, -, ha⟩ := htimeline _ 3 0 _ _ t Timeline.detached_meddling ht
    rw [hr] at hu
    exact ⟨u, hu, by rw [hh, he], by rw [hh, hi], ha.trans ho⟩

end Rewind
