import Rewind.Proofs.Hosts
import Rewind.Session.Step

namespace Rewind

open Session (Way)

variable {σ ε ι ν : Type}

/-- What can be asked of a history. -/
inductive Request (ι : Type) where
  | add (x : ι)
  | undo
  | redo
  | clear
  | setEnabled (v : Value)
  | setLimit (v : Value)
  deriving DecidableEq

def Journal.Host.handle (h : Journal.Host σ ι) : Request ι → Run σ Unit
  | .add x => h.add x
  | .undo => h.undo
  | .redo => h.redo
  | .clear => h.clear
  | .setEnabled v => h.change ({ · with enabled := v })
  | .setLimit v => h.change ({ · with limit := v })

def Timeline.Host.handle (h : Timeline.Host σ ι) : Request ι → Run σ Unit
  | .add x => h.add x
  | .undo => h.undo
  | .redo => h.redo
  | .clear => h.clear
  | .setEnabled v => h.change ({ · with enabled := v })
  | .setLimit v => h.change ({ · with limit := v })

/-- Code that works on a history. It goes on by how each of its requests ended. -/
inductive Script (ι : Type) where
  | finish
  | fail (e : Fault)
  | ask (r : Request ι) (next : Option Fault → Script ι)

namespace Script

def all : List (Request ι) → Script ι
  | [] => finish
  | r :: rs => ask r fun _ ↦ all rs

def play (serve : Request ι → Run σ Unit) : Script ι → Run σ Unit
  | finish => pure ()
  | fail e => Run.raise e
  | ask r next => fun s ↦
    match serve r s with
    | .returned _ t => (next none).play serve t
    | .raised e t => (next (some e)).play serve t
    | .exhausted => .exhausted

variable {s : σ} {serve : Request ι → Run σ Unit} {Q : Unit → σ → Prop} {E : Fault → σ → Prop}
  {X : Prop}

@[simp]
theorem leads_finish : ((finish : Script ι).play serve).Leads s Q E X ↔ Q () s := Iff.rfl

theorem leads_ask {r : Request ι} {next : Option Fault → Script ι} :
    ((ask r next).play serve).Leads s Q E X ↔
      (serve r).Leads s (fun _ t ↦ ((next none).play serve).Leads t Q E X)
        (fun e t ↦ ((next (some e)).play serve).Leads t Q E X) X := by
  simp only [Run.Leads, play]
  cases serve r s <;> rfl

theorem play_all_cons {r : Request ι} {rs : List (Request ι)} {t : σ}
    (h : serve r s = .returned () t) : (all (r :: rs)).play serve s = (all rs).play serve t := by
  simp only [all, play, h]

theorem play_all_append {rs rs' : List (Request ι)} {t : σ}
    (h : (all rs).play serve s = .returned () t) :
    (all (rs ++ rs')).play serve s = (all rs').play serve t := by
  induction rs generalizing s with
  | nil =>
    cases h
    rfl
  | cons r rs ih =>
    simp only [List.cons_append, all, play] at h ⊢
    cases hr : serve r s with
    | returned a u =>
      rw [hr] at h
      exact ih h
    | raised e u =>
      rw [hr] at h
      exact ih h
    | exhausted =>
      rw [hr] at h
      cases h

/-- A request that comes to an end can be made by itself. -/
theorem exists_played {r : Request ι} {I : σ → Prop}
    (h : (serve r).Leads s (fun _ ↦ I) (fun _ ↦ I) False) :
    ∃ t, (all [r]).play serve s = .returned () t ∧ I t := by
  obtain ⟨t, ht, hi⟩ := h.exists_ended
  refine ⟨t, ?_, hi⟩
  simp only [all, play]
  cases hr : serve r s with
  | returned a u =>
    rw [hr] at ht
    cases ht
    rfl
  | raised e u =>
    rw [hr] at ht
    cases ht
    rfl
  | exhausted =>
    rw [hr] at ht
    cases ht

theorem play_keeps {I : σ → Prop} (h : ∀ r, (serve r).Keeps I) (code : Script ι) :
    (code.play serve).Keeps I := by
  intro s hs
  induction code generalizing s with
  | finish => exact hs
  | fail e => exact hs
  | ask r next ih =>
    rw [leads_ask]
    exact (h r s hs).mono (fun _ t ht ↦ ih none t ht) (fun e t ht ↦ ih (some e) t ht)

end Script

/-- What happens around a history: it is asked and answers, the code of what it records is entered
and left, and it announces. -/
inductive Act (ι ν : Type) where
  | asked (r : Request ι)
  | answered (r : Request ι) (fault : Option Fault)
  | entered (way : Way) (x : ι)
  | left (way : Way) (x : ι) (fault : Option Fault)
  | announced (notice : ν)
  deriving DecidableEq

/-- A history and what has happened around it, the latest first, each time with the history as it
was then. -/
structure Stage (ε ι ν : Type) where
  history : ε
  past : List (Act ι ν × ε) := []

namespace Stage

def note (s : Stage ε ι ν) (a : Act ι ν) : Stage ε ι ν :=
  { s with past := (a, s.history) :: s.past }

def update (f : ε → ε) (s : Stage ε ι ν) : Stage ε ι ν := { s with history := f s.history }

@[simp]
theorem history_note (s : Stage ε ι ν) (a : Act ι ν) : (s.note a).history = s.history := rfl

@[simp]
theorem past_note (s : Stage ε ι ν) (a : Act ι ν) : (s.note a).past = (a, s.history) :: s.past :=
  rfl

@[simp]
theorem history_update (f : ε → ε) (s : Stage ε ι ν) : (s.update f).history = f s.history := rfl

@[simp]
theorem past_update (f : ε → ε) (s : Stage ε ι ν) : (s.update f).past = s.past := rfl

end Stage

/-- Those who work around a history: the code of what it records, those who listen to it, what
things are called, and which are equal. Each may go by all that has happened. -/
structure Cast (ε ι ν : Type) where
  code : Stage ε ι ν → Way → ι → Script ι
  hears : Stage ε ι ν → ν → Script ι
  describe : Stage ε ι ν → ι → Except Fault Value
  same : Stage ε ι ν → ι → ι → Bool

/-- Runs `m`, and takes note of how it ended. -/
def Run.closing {α : Type} (m : Run σ α) (f : Option Fault → σ → σ) : Run σ α := fun s ↦
  match m s with
  | .returned a t => .returned a (f none t)
  | .raised e t => .raised e (f (some e) t)
  | .exhausted => .exhausted

theorem Run.leads_closing {α : Type} {m : Run σ α} {f : Option Fault → σ → σ} {s : σ}
    {Q : α → σ → Prop} {E : Fault → σ → Prop} {X : Prop} :
    (m.closing f).Leads s Q E X ↔
      m.Leads s (fun a t ↦ Q a (f none t)) (fun e t ↦ E e (f (some e) t)) X := by
  unfold Leads closing
  cases m s <;> rfl

namespace Cast

variable (c : Cast ε ι ν) (serve : Request ι → Run (Stage ε ι ν) Unit)

def enter (way : Way) (x : ι) : Run (Stage ε ι ν) Unit := do
  let s ← Run.get
  Run.modify (·.note (.entered way x))
  ((c.code s way x).play serve).closing fun e s ↦ s.note (.left way x e)

/-- Lets the listeners hear of something. Their faults stay with them. -/
def announce (n : ν) : Run (Stage ε ι ν) Unit := do
  Run.modify (·.note (.announced n))
  let s ← Run.get
  ((c.hears s n).play serve).recover fun _ ↦ pure ()

def journalHost (c : Cast (Journal ι) ι (Journal.Notice ι))
    (serve : Request ι → Run (Stage (Journal ι) ι (Journal.Notice ι)) Unit) :
    Journal.Host (Stage (Journal ι) ι (Journal.Notice ι)) ι where
  journal s := s.history
  update := Stage.update
  describe := c.describe
  revert _ x := .ok (c.enter serve .undo x)
  reapply _ x := .ok (c.enter serve .redo x)
  announce := c.announce serve
  log _ := pure ()

def timelineHost (c : Cast (Timeline ι) ι (Timeline.Notice ι))
    (serve : Request ι → Run (Stage (Timeline ι) ι (Timeline.Notice ι)) Unit) :
    Timeline.Host (Stage (Timeline ι) ι (Timeline.Notice ι)) ι where
  timeline s := s.history
  update := Stage.update
  same := c.same
  describe := c.describe
  restore := c.enter serve .restore
  announce := c.announce serve
  log _ := pure ()

section Hosts

variable {s : Stage ε ι ν} {x : ι} {Q : Unit → Stage ε ι ν → Prop}
  {E : Fault → Stage ε ι ν → Prop} {X : Prop}

theorem leads_enter {way : Way} :
    (c.enter serve way x).Leads s Q E X ↔
      ((c.code s way x).play serve).Leads (s.note (.entered way x))
        (fun _ t ↦ Q () (t.note (.left way x none)))
        (fun e t ↦ E e (t.note (.left way x (some e)))) X := by
  simp only [enter, Run.leads_bind, Run.leads_get, Run.leads_modify, Run.leads_closing]

theorem leads_announce {n : ν} :
    (c.announce serve n).Leads s Q E X ↔
      ((c.hears (s.note (.announced n)) n).play serve).Leads (s.note (.announced n)) Q
        (fun _ t ↦ Q () t) X := by
  simp only [announce, Run.leads_bind, Run.leads_get, Run.leads_modify, Run.leads_recover,
    Run.leads_pure]

end Hosts

section Journal

variable {c : Cast (Journal ι) ι (Journal.Notice ι)}
  {serve : Request ι → Run (Stage (Journal ι) ι (Journal.Notice ι)) Unit}
  {s : Stage (Journal ι) ι (Journal.Notice ι)} {x : ι}

@[simp]
theorem journal_journalHost : (c.journalHost serve).journal s = s.history := rfl

@[simp]
theorem update_journalHost {f : Journal ι → Journal ι} :
    (c.journalHost serve).update f s = s.update f := rfl

@[simp]
theorem describe_journalHost : (c.journalHost serve).describe s x = c.describe s x := rfl

theorem leads_revert {Q : Run _ Unit → _ → Prop} {E : Fault → _ → Prop} {X : Prop} :
    (Run.ask fun s ↦ (c.journalHost serve).revert s x).Leads s Q E X ↔
      Q (c.enter serve .undo x) s := Iff.rfl

theorem leads_reapply {Q : Run _ Unit → _ → Prop} {E : Fault → _ → Prop} {X : Prop} :
    (Run.ask fun s ↦ (c.journalHost serve).reapply s x).Leads s Q E X ↔
      Q (c.enter serve .redo x) s := Iff.rfl

@[simp]
theorem announce_journalHost : (c.journalHost serve).announce = c.announce serve := rfl

@[simp]
theorem log_journalHost {r : Journal.Remark} : (c.journalHost serve).log r = pure () := rfl

end Journal

section Timeline

variable {c : Cast (Timeline ι) ι (Timeline.Notice ι)}
  {serve : Request ι → Run (Stage (Timeline ι) ι (Timeline.Notice ι)) Unit}
  {s : Stage (Timeline ι) ι (Timeline.Notice ι)} {x : ι}

@[simp]
theorem timeline_timelineHost : (c.timelineHost serve).timeline s = s.history := rfl

@[simp]
theorem update_timelineHost {f : Timeline ι → Timeline ι} :
    (c.timelineHost serve).update f s = s.update f := rfl

@[simp]
theorem same_timelineHost : (c.timelineHost serve).same s = c.same s := rfl

@[simp]
theorem describe_timelineHost : (c.timelineHost serve).describe s x = c.describe s x := rfl

@[simp]
theorem restore_timelineHost : (c.timelineHost serve).restore = c.enter serve .restore := rfl

@[simp]
theorem announce_timelineHost : (c.timelineHost serve).announce = c.announce serve := rfl

@[simp]
theorem log_timelineHost {r : Timeline.Remark} : (c.timelineHost serve).log r = pure () := rfl

end Timeline

end Cast

/-- A kind of history: how it meets requests, given how it meets those that are made meanwhile. -/
def Engine (ε ι ν : Type) : Type :=
  Cast ε ι ν → (Request ι → Run (Stage ε ι ν) Unit) → Request ι → Run (Stage ε ι ν) Unit

/-- Meets a request, where requests may nest down to a depth. -/
def Engine.serve (g : Engine ε ι ν) (c : Cast ε ι ν) : Nat → Request ι → Run (Stage ε ι ν) Unit
  | 0, _ => Run.exhausted
  | n + 1, r => do
    Run.modify (·.note (.asked r))
    (g c (g.serve c n) r).closing fun e s ↦ s.note (.answered r e)

theorem Engine.leads_serve {g : Engine ε ι ν} {c : Cast ε ι ν} {n : Nat} {r : Request ι}
    {s : Stage ε ι ν} {Q : Unit → Stage ε ι ν → Prop} {E : Fault → Stage ε ι ν → Prop} {X : Prop} :
    (g.serve c (n + 1) r).Leads s Q E X ↔
      (g c (g.serve c n) r).Leads (s.note (.asked r)) (fun _ t ↦ Q () (t.note (.answered r none)))
        (fun e t ↦ E e (t.note (.answered r (some e)))) X := by
  simp only [serve, Run.leads_bind, Run.leads_modify, Run.leads_closing]

def Journal.engine : Engine (Journal ι) ι (Journal.Notice ι) :=
  fun c serve ↦ (c.journalHost serve).handle

def Timeline.engine : Engine (Timeline ι) ι (Timeline.Notice ι) :=
  fun c serve ↦ (c.timelineHost serve).handle

end Rewind
