import Rewind.Proofs.Limit
import Rewind.Proofs.Stage

namespace Rewind

open Session (Way)

variable {ε ι ν : Type}

namespace Stage

variable (s : Stage ε ι ν)

/-- What has been announced, in order. -/
def notices : List ν :=
  s.past.reverse.filterMap fun
    | (.announced n, _) => some n
    | _ => none

@[simp]
theorem notices_update (f : ε → ε) : (s.update f).notices = s.notices := rfl

@[simp]
theorem notices_note (a : Act ι ν) :
    (s.note a).notices = s.notices ++ match a with
      | .announced n => [n]
      | _ => [] := by
  cases a <;> simp [notices, note]

end Stage

/-- Neither the code of what is recorded nor those who listen ask for anything, but both may
fail. -/
structure Cast.Mute (c : Cast ε ι ν) : Prop where
  code : ∀ s way x, c.code s way x = .finish ∨ ∃ e, c.code s way x = .fail e
  hears : ∀ s n, c.hears s n = .finish ∨ ∃ e, c.hears s n = .fail e

namespace Cast.Mute

variable {c : Cast ε ι ν} {serve : Request ι → Run (Stage ε ι ν) Unit} {s : Stage ε ι ν}
  {Q : Unit → Stage ε ι ν → Prop} {E : Fault → Stage ε ι ν → Prop} {X : Prop}

theorem leads_enter (hc : c.Mute) {way : Way} {x : ι}
    (hQ : Q () ((s.note (.entered way x)).note (.left way x none)))
    (hE : ∀ e, E e ((s.note (.entered way x)).note (.left way x (some e)))) :
    (c.enter serve way x).Leads s Q E X := by
  rw [Cast.leads_enter]
  rcases hc.code s way x with hx | ⟨e, hx⟩
  · rw [hx]
    exact hQ
  · rw [hx]
    exact hE e

theorem leads_announce (hc : c.Mute) {n : ν} :
    (c.announce serve n).Leads s Q E X ↔ Q () (s.note (.announced n)) := by
  rw [Cast.leads_announce]
  rcases hc.hears (s.note (.announced n)) n with hn | ⟨e, hn⟩
  · rw [hn]
    rfl
  · rw [hn]
    rfl

end Cast.Mute

/-- What a kind of history shows of itself, and what it announces: something of the item that a
request is about, if it is about one, and what can be done next. -/
structure Voice (ε ι ν : Type) where
  view : ε → List ι × Int
  word? : ε → Request ι → Option (ι × ν)
  next : ε → ν

namespace Voice

/-- The request `r` leads from `s` to `t` and ends with that fault, if with any. If the history has
changed by then, either all has been announced, and in the end what can be done next, or the item
has failed to be described, the request fails with that, and nothing has been announced. -/
def Spoken (V : Voice ε ι ν) (c : Cast ε ι ν) (r : Request ι) (s : Stage ε ι ν)
    (fault : Option Fault) (t : Stage ε ι ν) : Prop :=
  V.view t.history ≠ V.view s.history →
    ∃ u, u.past <:+ t.past ∧ u.history = t.history ∧ u.notices = s.notices ∧
      ((∀ w ∈ V.word? s.history r, ∃ v, c.describe u w.1 = .ok v) ∧ fault = none ∧
          t.notices = s.notices ++ (V.word? s.history r).toList.map (·.2) ++ [V.next t.history] ∨
        ∃ w ∈ V.word? s.history r, ∃ e, c.describe u w.1 = .error e ∧ fault = some e ∧
          t.notices = s.notices)

/-- The request can be answered, as it has returned. -/
def Returned (V : Voice ε ι ν) (c : Cast ε ι ν) (r : Request ι) (s : Stage ε ι ν) (_ : Unit)
    (t : Stage ε ι ν) : Prop := V.Spoken c r s none (t.note (.answered r none))

/-- The request can be answered, as it has failed. -/
def Raised (V : Voice ε ι ν) (c : Cast ε ι ν) (r : Request ι) (s : Stage ε ι ν) (e : Fault)
    (t : Stage ε ι ν) : Prop := V.Spoken c r s (some e) (t.note (.answered r (some e)))

variable {V : Voice ε ι ν} {c : Cast ε ι ν} {serve : Request ι → Run (Stage ε ι ν) Unit}
  {r : Request ι} {s t u : Stage ε ι ν} {fault : Option Fault} {X : Prop}

theorem Spoken.unchanged (h : V.view t.history = V.view s.history) : V.Spoken c r s fault t :=
  fun hne ↦ absurd h hne

/-- Once a history has changed, it remains to announce what can be done next. -/
theorem leads_next (hc : c.Mute) (hw : V.word? s.history r = none) (hu : u.notices = s.notices) :
    (c.announce serve (V.next u.history)).Leads u (V.Returned c r s) (V.Raised c r s) X := by
  refine hc.leads_announce.2 fun _ ↦ ?_
  have hpast : u.past <:+ ((u.note (.announced (V.next u.history))).note (.answered r none)).past :=
    (List.suffix_cons _ _).trans (List.suffix_cons _ _)
  refine ⟨u, hpast, rfl, hu, .inl ⟨?_, rfl, ?_⟩⟩
  · rw [hw]
    exact nofun
  · simp [hw, hu]

/-- Once a history has changed, it remains to describe the item and to announce both. -/
theorem leads_word (hc : c.Mute) {x : ι} {n : ν} (hw : V.word? s.history r = some (x, n))
    (hu : u.notices = s.notices) :
    (Run.ask fun s ↦ c.describe s x).Leads u
      (fun _ t ↦ (c.announce serve n).Leads t
        (fun _ t ↦ (c.announce serve (V.next t.history)).Leads t (V.Returned c r s) (V.Raised c r s)
          X) (V.Raised c r s) X) (V.Raised c r s) X := by
  refine Run.leads_ask.2 ⟨fun v hv ↦ ?_, fun e he _ ↦ ?_⟩
  · refine hc.leads_announce.2 (hc.leads_announce.2 fun _ ↦ ?_)
    have hpast : u.past <:+ (((u.note (.announced n)).note (.announced (V.next u.history))).note
        (.answered r none)).past :=
      ((List.suffix_cons _ _).trans (List.suffix_cons _ _)).trans (List.suffix_cons _ _)
    refine ⟨u, hpast, rfl, hu, .inl ⟨?_, rfl, ?_⟩⟩
    · rw [hw]
      rintro _ ⟨⟩
      exact ⟨v, hv⟩
    · simp [hw, hu]
  · exact ⟨u, List.suffix_cons _ _, rfl, hu, .inr ⟨(x, n), hw, e, he, rfl, by simp [hu]⟩⟩

theorem exists_spoken {g : Engine ε ι ν} {n : Nat}
    (h : (g c (g.serve c n) r).Leads (s.note (.asked r)) (V.Returned c r s) (V.Raised c r s)
      False) :
    ∃ t, (g.serve c (n + 1) r s).state? = some t ∧
      V.Spoken c r s (g.serve c (n + 1) r s).fault? t :=
  Run.Leads.exists_ended_with (I := fun fault t ↦ V.Spoken c r s fault t) (Engine.leads_serve.2 h)

end Voice

namespace Journal

def voice : Voice (Journal ι) ι (Notice ι) where
  view j := (j.entries, j.position)
  word? j
    | .add x => some (x, .recorded x)
    | .undo => j.last?.map fun x ↦ (x, .undone x)
    | .redo => j.next?.map fun x ↦ (x, .redone x)
    | .clear | .setEnabled _ | .setLimit _ => none
  next j := .changed j.canUndo j.canRedo

variable {c : Cast (Journal ι) ι (Notice ι)}
  {serve : Request ι → Run (Stage (Journal ι) ι (Notice ι)) Unit}
  {s : Stage (Journal ι) ι (Notice ι)}

theorem leads_replay_spoken (hc : c.Mute) {r : Request ι} {way : Way} {x : ι} {d : Int}
    {remark : Value → Int → Remark} {n : Notice ι} (hw : voice.word? s.history r = some (x, n)) :
    ((c.journalHost serve).replay (c.enter serve way x)).Leads (s.note (.asked r))
      (fun _ t ↦ ((c.journalHost serve).settle d remark n x).Leads t (voice.Returned c r s)
        (voice.Raised c r s) False) (voice.Raised c r s) False := by
  refine Host.leads_replay.2 (hc.leads_enter ?_ fun e ↦ Voice.Spoken.unchanged rfl)
  simp only [Host.settle, Run.leads_bind, Host.leads_change, Host.leads_look]
  exact Voice.leads_word (V := voice) hc hw (by simp)

theorem leads_add_spoken (hc : c.Mute) (hl : s.history.limit.room?.isSome) (x : ι) :
    ((c.journalHost serve).add x).Leads (s.note (.asked (.add x))) (voice.Returned c (.add x) s)
      (voice.Raised c (.add x) s) False := by
  have hignored (remark : Value → Remark) :
      ((c.journalHost serve).tell x).Leads (s.note (.asked (.add x)))
        (fun v t ↦ ((c.journalHost serve).log (remark v)).Leads t (voice.Returned c (.add x) s)
          (voice.Raised c (.add x) s) False) (voice.Raised c (.add x) s) False :=
    Host.leads_tell.2 ⟨fun _ _ ↦ Voice.Spoken.unchanged rfl, fun _ _ ↦ Voice.Spoken.unchanged rfl⟩
  cases he : s.history.enabled.truth with
  | false => exact (Host.leads_add_ignored (.inl ⟨he, rfl⟩)).2 (hignored _)
  | true =>
    cases hp : s.history.replaying with
    | true => exact (Host.leads_add_ignored (.inr ⟨he, hp, rfl⟩)).2 (hignored _)
    | false =>
      obtain ⟨room, hroom⟩ := Option.isSome_iff_exists.1 hl
      refine (Host.leads_add_recorded he hp).2 ((Run.leads_lift_ok (trim_push hroom x)).2 ?_)
      exact Voice.leads_word (V := voice) hc rfl (by simp)

theorem leads_spoken (hc : c.Mute) (hl : s.history.limit.room?.isSome) (r : Request ι) :
    ((c.journalHost serve).handle r).Leads (s.note (.asked r)) (voice.Returned c r s)
      (voice.Raised c r s) False := by
  cases r with
  | add x => exact leads_add_spoken hc hl x
  | undo =>
    refine Host.leads_undo (fun _ ↦ Voice.Spoken.unchanged rfl)
      (fun _ _ ↦ Voice.Spoken.unchanged rfl) fun x _ hx ↦ Cast.leads_revert.2 ?_
    have hx : s.history.last? = some x := hx
    exact leads_replay_spoken hc (by simp [voice, hx])
  | redo =>
    refine Host.leads_redo (fun _ ↦ Voice.Spoken.unchanged rfl)
      (fun _ _ ↦ Voice.Spoken.unchanged rfl) fun x _ hx ↦ Cast.leads_reapply.2 ?_
    have hx : s.history.next? = some x := hx
    exact leads_replay_spoken hc (by simp [voice, hx])
  | clear =>
    have hcleared : ((s.note (.asked .clear)).update (·.empty)).notices = s.notices := by simp
    refine Host.leads_clear.2 (Host.leads_announceChange.2 ?_)
    exact Voice.leads_next (V := voice) hc rfl hcleared
  | setEnabled v => exact Voice.Spoken.unchanged rfl
  | setLimit v => exact Voice.Spoken.unchanged rfl

end Journal

namespace Timeline

def voice : Voice (Timeline ι) ι (Notice ι) where
  view t := (t.entries, t.pointer)
  word? t
    | .add x => some (x, .recorded x)
    | .undo => (Position.item? t.entries (t.pointer - 1)).map fun x ↦ (x, .restored x)
    | .redo => (Position.item? t.entries (t.pointer + 1)).map fun x ↦ (x, .restored x)
    | .clear | .setEnabled _ | .setLimit _ => none
  next t := .changed t.canUndo t.canRedo

variable {c : Cast (Timeline ι) ι (Notice ι)}
  {serve : Request ι → Run (Stage (Timeline ι) ι (Notice ι)) Unit}
  {s : Stage (Timeline ι) ι (Notice ι)}

theorem leads_moveTo_spoken (hc : c.Mute) {r : Request ι} {i : Int}
    (hw : voice.word? s.history r =
      (Position.item? s.history.entries i).map fun x ↦ (x, .restored x)) :
    ((c.timelineHost serve).moveTo i).Leads (s.note (.asked r)) (voice.Returned c r s)
      (voice.Raised c r s) False := by
  refine Host.leads_moveTo (fun _ ↦ Voice.Spoken.unchanged rfl) fun x hx ↦ ?_
  have hx : Position.item? s.history.entries i = some x := hx
  refine hc.leads_enter ?_ fun e ↦ Voice.Spoken.unchanged rfl
  simp only [Host.settle, Run.leads_bind, Host.leads_change, Host.leads_look]
  exact Voice.leads_word (V := voice) hc (by rw [hw, hx, Option.map_some]) (by simp)

theorem leads_add_spoken (hc : c.Mute) (hl : s.history.limit.room?.isSome) (x : ι) :
    ((c.timelineHost serve).add x).Leads (s.note (.asked (.add x))) (voice.Returned c (.add x) s)
      (voice.Raised c (.add x) s) False := by
  have hignored (remark : Value → Remark) :
      ((c.timelineHost serve).tell x).Leads (s.note (.asked (.add x)))
        (fun v t ↦ ((c.timelineHost serve).log (remark v)).Leads t (voice.Returned c (.add x) s)
          (voice.Raised c (.add x) s) False) (voice.Raised c (.add x) s) False :=
    Host.leads_tell.2 ⟨fun _ _ ↦ Voice.Spoken.unchanged rfl, fun _ _ ↦ Voice.Spoken.unchanged rfl⟩
  cases he : s.history.enabled.truth with
  | false => exact (Host.leads_add_ignored (.inl ⟨he, rfl⟩)).2 (hignored _)
  | true =>
    cases hp : s.history.restoring with
    | true => exact (Host.leads_add_ignored (.inr ⟨he, hp, rfl⟩)).2 (hignored _)
    | false =>
      obtain ⟨room, hroom⟩ := Option.isSome_iff_exists.1 hl
      have htrim := trim_eq (t := s.history.push (c.same (s.note (.asked (.add x)))) x) hroom
      refine (Host.leads_add_recorded he hp).2 ((Run.leads_lift_ok htrim).2 ?_)
      exact Voice.leads_word (V := voice) hc rfl (by simp)

theorem leads_spoken (hc : c.Mute) (hl : s.history.limit.room?.isSome) (r : Request ι) :
    ((c.timelineHost serve).handle r).Leads (s.note (.asked r)) (voice.Returned c r s)
      (voice.Raised c r s) False := by
  cases r with
  | add x => exact leads_add_spoken hc hl x
  | undo =>
    exact Host.leads_undo (fun _ ↦ Voice.Spoken.unchanged rfl)
      fun _ _ ↦ leads_moveTo_spoken hc rfl
  | redo =>
    exact Host.leads_redo (fun _ ↦ Voice.Spoken.unchanged rfl) fun _ ↦ leads_moveTo_spoken hc rfl
  | clear =>
    have hcleared : ((s.note (.asked .clear)).update (·.empty)).notices = s.notices := by simp
    refine Host.leads_clear.2 (Host.leads_announceChange.2 ?_)
    exact Voice.leads_next (V := voice) hc rfl hcleared
  | setEnabled v => exact Voice.Spoken.unchanged rfl
  | setLimit v => exact Voice.Spoken.unchanged rfl

end Timeline

/-- If a request changes a history with a proper limit, and neither code nor those who listen ask
for anything, then it is announced before the request ends what has been done with which item, but
for a request to clear, and what can be done next. The only exception is an item that fails to be
described: then nothing is announced, although the history has changed, and the request fails with
that fault. -/
theorem change_announced_or_undescribed {ι : Type} :
    (∀ (c : Cast (Journal ι) ι (Journal.Notice ι)) (n : Nat) (r : Request ι)
      (s : Stage (Journal ι) ι (Journal.Notice ι)), c.Mute → s.history.limit.room?.isSome →
      ∃ t, (Journal.engine.serve c (n + 1) r s).state? = some t ∧
        Journal.voice.Spoken c r s (Journal.engine.serve c (n + 1) r s).fault? t) ∧
    ∀ (c : Cast (Timeline ι) ι (Timeline.Notice ι)) (n : Nat) (r : Request ι)
      (s : Stage (Timeline ι) ι (Timeline.Notice ι)), c.Mute → s.history.limit.room?.isSome →
      ∃ t, (Timeline.engine.serve c (n + 1) r s).state? = some t ∧
        Timeline.voice.Spoken c r s (Timeline.engine.serve c (n + 1) r s).fault? t := by
  constructor
  · intro c n r s hc hl
    exact Voice.exists_spoken (Journal.leads_spoken hc hl r)
  · intro c n r s hc hl
    exact Voice.exists_spoken (Timeline.leads_spoken hc hl r)

/-- Two fails to be described, and the code of three and whoever listens fail too. -/
def Cast.mumbling : Cast ε Nat ν where
  code _ _ x := if x = 3 then .fail (.scripted .null) else .finish
  hears _ _ := .fail (.scripted .null)
  describe _ x := if x = 2 then .error (.scripted .null) else .ok .null
  same _ _ _ := false

theorem Cast.mute_mumbling : (mumbling : Cast ε Nat ν).Mute where
  code s way x := by
    by_cases hx : x = 3
    · exact .inr ⟨.scripted .null, if_pos hx⟩
    · exact .inl (if_neg hx)
  hears _ _ := .inr ⟨_, rfl⟩

/-- That one has been undone is announced, but not that two has been restored. -/
theorem change_announced_or_undescribed_mumbling :
    (∃ t : Stage (Journal Nat) Nat (Journal.Notice Nat),
      (Journal.engine.serve Cast.mumbling 1 .undo ⟨{ entries := [1], position := 1 }, []⟩).state? =
        some t ∧ t.history.position = 0 ∧ t.notices = [.undone 1, .changed false true]) ∧
    ∃ t : Stage (Timeline Nat) Nat (Timeline.Notice Nat),
      (Timeline.engine.serve Cast.mumbling 1 .undo
        ⟨{ entries := [2, 3], pointer := 1 }, []⟩).state? = some t ∧
      t.history.pointer = 0 ∧ t.notices = [] := by
  obtain ⟨hjournal, htimeline⟩ := change_announced_or_undescribed (ι := Nat)
  constructor
  · obtain ⟨t, ht, he, hp⟩ : ∃ t ∈ (Journal.engine.serve Cast.mumbling 1 .undo
        (⟨{ entries := [1], position := 1 }, []⟩ : Stage _ Nat _)).state?,
        t.history.entries = [1] ∧ t.history.position = 0 := by decide +kernel
    obtain ⟨t', ht', hs⟩ := hjournal Cast.mumbling 0 .undo
      ⟨{ entries := [1], position := 1 }, []⟩ Cast.mute_mumbling rfl
    obtain rfl : t = t' := Option.some.inj (ht.symm.trans ht')
    refine ⟨t, ht, hp, ?_⟩
    obtain ⟨u, -, -, -, ⟨-, -, hn⟩ | ⟨w, hw, e, hd, -⟩⟩ := hs (by simp [Journal.voice, hp])
    · simpa [Journal.voice, Journal.last?, Journal.canUndo, Journal.canRedo, Position.item?, he, hp,
        Stage.notices] using hn
    · cases hw
      cases hd
  · obtain ⟨t, ht, hp⟩ : ∃ t ∈ (Timeline.engine.serve Cast.mumbling 1 .undo
        (⟨{ entries := [2, 3], pointer := 1 }, []⟩ : Stage _ Nat _)).state?,
        t.history.pointer = 0 := by decide +kernel
    obtain ⟨t', ht', hs⟩ := htimeline Cast.mumbling 0 .undo
      ⟨{ entries := [2, 3], pointer := 1 }, []⟩ Cast.mute_mumbling rfl
    obtain rfl : t = t' := Option.some.inj (ht.symm.trans ht')
    refine ⟨t, ht, hp, ?_⟩
    obtain ⟨u, -, -, -, ⟨hd, -⟩ | ⟨-, -, -, -, -, hn⟩⟩ := hs (by simp [Timeline.voice, hp])
    · obtain ⟨v, hv⟩ := hd (2, .restored 2) rfl
      cases hv
    · exact hn

/-- Not every change is announced: when two is recorded, it fails to be described, and who listens
does not hear of it. -/
theorem not_announced_of_mumbling :
    (¬ ∀ (c : Cast (Journal Nat) Nat (Journal.Notice Nat)) (r : Request Nat)
      (s t : Stage (Journal Nat) Nat (Journal.Notice Nat)), c.Mute → s.history.limit.room?.isSome →
      (Journal.engine.serve c 1 r s).state? = some t →
      Journal.voice.view t.history ≠ Journal.voice.view s.history →
      t.notices = s.notices ++ (Journal.voice.word? s.history r).toList.map (·.2) ++
        [.changed t.history.canUndo t.history.canRedo]) ∧
    ¬ ∀ (c : Cast (Timeline Nat) Nat (Timeline.Notice Nat)) (r : Request Nat)
      (s t : Stage (Timeline Nat) Nat (Timeline.Notice Nat)), c.Mute →
      s.history.limit.room?.isSome → (Timeline.engine.serve c 1 r s).state? = some t →
      Timeline.voice.view t.history ≠ Timeline.voice.view s.history →
      t.notices = s.notices ++ (Timeline.voice.word? s.history r).toList.map (·.2) ++
        [.changed t.history.canUndo t.history.canRedo] := by
  constructor
  · intro h
    obtain ⟨t, ht, he, hn⟩ : ∃ t ∈ (Journal.engine.serve Cast.mumbling 1 (.add 2)
        (⟨{}, []⟩ : Stage _ Nat _)).state?, t.history.entries = [2] ∧ t.notices.length = 0 := by
      decide +kernel
    have hlong := h Cast.mumbling (.add 2) ⟨{}, []⟩ t Cast.mute_mumbling rfl ht
      (by simp [Journal.voice, he])
    simp [List.length_eq_zero_iff.1 hn] at hlong
  · intro h
    obtain ⟨t, ht, he, hn⟩ : ∃ t ∈ (Timeline.engine.serve Cast.mumbling 1 (.add 2)
        (⟨{}, []⟩ : Stage _ Nat _)).state?, t.history.entries = [2] ∧ t.notices.length = 0 := by
      decide +kernel
    have hlong := h Cast.mumbling (.add 2) ⟨{}, []⟩ t Cast.mute_mumbling rfl ht
      (by simp [Timeline.voice, he])
    simp [List.length_eq_zero_iff.1 hn] at hlong

end Rewind
