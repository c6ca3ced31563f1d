import Rewind.Proofs.TwoStacks
import Rewind.Proofs.Upshot

namespace Rewind

open Session (Way)

variable {σ ε ι ν : Type}

/-- A history, and what has been called for it. -/
structure Tally (ε ι : Type) where
  history : ε
  calls : List (Way × ι) := []

def Tally.call (m : Tally ε ι) (way : Way) (x : ι) : Tally ε ι :=
  { m with calls := m.calls ++ [(way, x)] }

/-- What becomes of a history and of what has been called for it, if what is called ends as `ends`
says by what has been called before. -/
def Tally.after (ends : List (Way × ι) → Way → ι → Option Fault) (m : Tally ε ι) :
    Upshot ε ι → Tally ε ι
  | .failed k _ | .quiet k | .settled k => { m with history := k }
  | .replay way x start back done =>
    match ends m.calls way x with
    | none => { m.call way x with history := done start }
    | some _ => { m.call way x with history := back start }

/-- The fault of a request, but for what refuses to be described. -/
def Upshot.fault? (ends : Way → ι → Option Fault) : Upshot ε ι → Option Fault
  | failed _ e => some e
  | quiet _ | settled _ => none
  | replay way x _ _ _ => ends way x

/-- Nothing but what is in `P` is to be recorded. -/
def Request.Of (P : ι → Prop) : Request ι → Prop
  | .add x => P x
  | _ => True

/-- Code that leaves a history alone ends as told, and nothing comes of it but that it has been
called. -/
def Run.Calls (code : Run σ Unit) (ends : List (Way × ι) → Way → ι → Option Fault)
    (I : Tally ε ι → σ → Prop) (way : Way) (x : ι) : Prop :=
  ∀ {m s}, I m s → code.Leads s (fun _ t ↦ ends m.calls way x = none ∧ I (m.call way x) t)
    (fun e t ↦ ends m.calls way x = some e ∧ I (m.call way x) t) False

/-- What an upshot makes of a tally is within `Q`, or within `F` if it fails or if what is concerned
then refuses to be described, with a fault in `E`. -/
structure Upshot.Allows (u : Upshot ε ι) (ends : List (Way × ι) → Way → ι → Option Fault)
    (E : Fault → Prop) (I : Tally ε ι → σ → Prop) (m : Tally ε ι) (Q : Unit → σ → Prop)
    (F : Fault → σ → Prop) : Prop where
  returned : ∀ t, u.fault? (ends m.calls) = none → I (m.after ends u) t → Q () t
  raised : ∀ e t, u.fault? (ends m.calls) = none ∧ E e ∨ u.fault? (ends m.calls) = some e →
    I (m.after ends u) t → F e t

variable {P : ι → Prop} {E : Fault → Prop} {ends : List (Way × ι) → Way → ι → Option Fault}
  {s : σ} {x : ι} {Q : Unit → σ → Prop} {F : Fault → σ → Prop}

namespace Journal

variable {m : Tally (Journal ι) ι} {I : Tally (Journal ι) ι → σ → Prop}

/-- The edit next to the position, which undoing reverses or redoing applies again. -/
def facing (j : Journal ι) : Way → Option ι
  | .redo => j.next?
  | .undo | .restore => j.last?

theorem mem_of_facing {j : Journal ι} {way : Way} (h : j.facing way = some x) : x ∈ j.entries := by
  cases way <;> exact Position.mem_of_item? h

def meet (ends : List (Way × ι) → Way → ι → Option Fault) (m : Tally (Journal ι) ι)
    (r : Request ι) : Tally (Journal ι) ι :=
  m.after ends (m.history.upshot r)

theorem of_meet {r : Request ι} (h : ∀ x ∈ m.history.entries, P x) (hr : r.Of P) :
    ∀ x ∈ (meet ends m r).history.entries, P x := by
  have hreplayed (way : Way) (x : ι) (d : Int) :
      (m.after ends (m.history.replayed way x d)).history.entries = m.history.entries := by
    simp only [replayed, Tally.after]
    cases ends m.calls way x with
    | none => rfl
    | some e => rfl
  unfold meet
  cases r with
  | add x =>
    have hpush : ∀ y ∈ (m.history.push x).entries, P y := by
      intro y hy
      rcases mem_of_push hy with hy | rfl
      · exact h y hy
      · exact hr
    simp only [upshot]
    split
    · cases ht : (m.history.push x).trim with
      | ok k => exact fun y hy ↦ hpush y (entries_of_trim ht hy)
      | error e => exact hpush
    · exact h
  | undo =>
    rcases upshot_undo m.history with ⟨e, hu⟩ | ⟨x, -, -, hu⟩
    · rw [hu]
      exact h
    · rw [hu, hreplayed]
      exact h
  | redo =>
    rcases upshot_redo m.history with ⟨e, hu⟩ | ⟨x, -, -, hu⟩
    · rw [hu]
      exact h
    · rw [hu, hreplayed]
      exact h
  | clear => exact fun x hx ↦ absurd hx List.not_mem_nil
  | setEnabled v => exact h
  | setLimit v => exact h

/-- All is as `I` says, while what is to be recorded is held off. -/
def Holding (I : Tally (Journal ι) ι → σ → Prop) (m : Tally (Journal ι) ι) (s : σ) : Prop :=
  m.history.replaying = true ∧ I m s

theorem Holding.calls {code : Run σ Unit} {way : Way} (h : code.Calls ends I way x) :
    code.Calls ends (Holding I) way x := fun hs ↦
  (h hs.2).mono (fun _ _ ht ↦ ⟨ht.1, hs.1, ht.2⟩) fun _ _ ht ↦ ⟨ht.1, hs.1, ht.2⟩

namespace Host

/-- A journal whose edits leave it alone while they are replayed, and whose listeners do too. `I`
tells what it is like and what has been called for it. -/
structure Plain (h : Host σ ι) (P : ι → Prop) (E : Fault → Prop)
    (ends : List (Way × ι) → Way → ι → Option Fault) (I : Tally (Journal ι) ι → σ → Prop) :
    Prop where
  journal : ∀ {m s}, I m s → h.journal s = m.history
  update : ∀ {m s} f, I m s → I { m with history := f m.history } (h.update f s)
  describe : ∀ {m s x e}, I m s → P x → h.describe s x = .error e → E e
  revert : ∀ {m s x}, I m s → P x →
    ∃ code, h.revert s x = .ok code ∧ code.Calls ends (Holding I) .undo x
  reapply : ∀ {m s x}, I m s → P x →
    ∃ code, h.reapply s x = .ok code ∧ code.Calls ends (Holding I) .redo x
  announce : ∀ {m s} n, I m s → (h.announce n).Leads s (fun _ ↦ I m) (fun _ _ ↦ False) False
  log : ∀ {m s} r, I m s → (h.log r).Leads s (fun _ ↦ I m) (fun _ _ ↦ False) False

namespace Plain

variable {h : Host σ ι}

theorem leads_announceChange (hh : h.Plain P E ends I) (hs : I m s) (hQ : ∀ t, I m t → Q () t) :
    h.announceChange.Leads s Q F False :=
  Host.leads_announceChange.2 ((hh.announce _ hs).mono (fun _ t ht ↦ hQ t ht)
    fun _ _ ht ↦ ht.elim)

/-- Once the journal has changed, nothing can fail but to describe what is concerned. -/
theorem leads_report (hh : h.Plain P E ends I) (hs : I m s) (hx : P x) (r : Value → σ → Remark)
    (n : Notice ι) (hQ : ∀ t, I m t → Q () t) (hF : ∀ e t, E e → I m t → F e t) :
    (h.tell x).Leads s (fun v t ↦ (h.log (r v t)).Leads t (fun _ t ↦ (h.announce n).Leads t
      (fun _ t ↦ h.announceChange.Leads t Q F False) F False) F False) F False := by
  refine leads_tell.2 ⟨fun v _ ↦ ?_, fun e he ↦ hF e s (hh.describe hs hx he) hs⟩
  refine (hh.log (r v s) hs).mono (fun _ t ht ↦ ?_) (fun _ _ ht ↦ ht.elim)
  refine (hh.announce n ht).mono (fun _ u hu ↦ ?_) (fun _ _ hu ↦ hu.elim)
  exact hh.leads_announceChange hu hQ

theorem leads_ignored (hh : h.Plain P E ends I) (hs : I m s) (hx : P x) (r : Value → Remark)
    (hQ : ∀ t, I m t → Q () t) (hF : ∀ e t, E e → I m t → F e t) :
    (h.tell x).Leads s (fun v t ↦ (h.log (r v)).Leads t Q F False) F False := by
  refine leads_tell.2 ⟨fun v _ ↦ ?_, fun e he ↦ hF e s (hh.describe hs hx he) hs⟩
  exact (hh.log (r v) hs).mono (fun _ t ht ↦ hQ t ht) (fun _ _ ht ↦ ht.elim)

theorem leads_replayed (hh : h.Plain P E ends I) (hs : I m s) (hx : P x) {way : Way} {d : Int}
    {code : Run σ Unit} (hcode : code.Calls ends (Holding I) way x) (r : Value → Int → Remark)
    (n : Notice ι) (hu : (m.history.replayed way x d).Allows ends E I m Q F) :
    (h.replay code).Leads s (fun _ t ↦ (h.settle d r n x).Leads t Q F False) F False := by
  refine Host.leads_replay.2 ?_
  -- While the code runs, the journal is no other than before but for holding off what is recorded.
  refine (hcode ⟨rfl, hh.update ({ · with replaying := true }) hs⟩).mono (fun _ t ht ↦ ?_)
    (fun e t ht ↦ ?_)
  · have hidle := hh.update (·.move d) (hh.update ({ · with replaying := false }) ht.2.2)
    have hafter : m.after ends (m.history.replayed way x d) = { m.call way x with
        history := ({ m.history with replaying := false } : Journal ι).move d } := by
      simp only [replayed, Tally.after, ht.1]
    simp only [settle, Run.leads_bind, Host.leads_change, Host.leads_look]
    refine hh.leads_report hidle hx (fun v t ↦ r v (h.journal t).position) n
      (fun u hi ↦ hu.returned u ht.1 ?_) (fun e u he hi ↦ hu.raised e u (.inl ⟨ht.1, he⟩) ?_)
    · rwa [hafter]
    · rwa [hafter]
  · have hafter : m.after ends (m.history.replayed way x d) = { m.call way x with
        history := { m.history with replaying := false } } := by
      simp only [replayed, Tally.after, ht.1]
    refine hu.raised e _ (.inr ht.1) ?_
    rw [hafter]
    exact hh.update ({ · with replaying := false }) ht.2.2

theorem leads_add (hh : h.Plain P E ends I) (hs : I m s) (hx : P x)
    (hu : (m.history.upshot (.add x)).Allows ends E I m Q F) : (h.add x).Leads s Q F False := by
  have hj := hh.journal hs
  cases he : m.history.enabled.truth with
  | false =>
    rw [upshot_add_ignored (.inl he)] at hu
    refine (leads_add_ignored (.inl ⟨by rw [hj, he], rfl⟩)).2 ?_
    exact hh.leads_ignored hs hx _ (fun t ↦ hu.returned t rfl) fun e t he ↦
      hu.raised e t (.inl ⟨rfl, he⟩)
  | true =>
    cases hr : m.history.replaying with
    | true =>
      rw [upshot_add_ignored (.inr hr)] at hu
      refine (leads_add_ignored (.inr ⟨by rw [hj, he], by rw [hj, hr], rfl⟩)).2 ?_
      exact hh.leads_ignored hs hx _ (fun t ↦ hu.returned t rfl) fun e t he ↦
        hu.raised e t (.inl ⟨rfl, he⟩)
    | false =>
      have hpush := hh.update (·.push x) hs
      rw [upshot_add_recorded he hr] at hu
      refine (leads_add_recorded (by rw [hj, he]) (by rw [hj, hr])).2 ?_
      rw [hh.journal hpush]
      refine Run.leads_lift.2 ⟨fun k hk ↦ ?_, fun e hk ↦ ?_⟩
      · rw [show (m.history.push x).trim = .ok k from hk] at hu
        exact hh.leads_report (hh.update (fun _ ↦ k) hpush) hx (fun v _ ↦ .recorded v k.position)
          (.recorded x) (fun t ↦ hu.returned t rfl) fun e t he ↦ hu.raised e t (.inl ⟨rfl, he⟩)
      · rw [show (m.history.push x).trim = .error e from hk] at hu
        exact hu.raised e _ (.inr rfl) hpush

theorem leads_undo (hh : h.Plain P E ends I) (hs : I m s)
    (hx : ∀ x, m.history.last? = some x → P x)
    (hu : (m.history.upshot .undo).Allows ends E I m Q F) : h.undo.Leads s Q F False := by
  have hj := hh.journal hs
  refine Host.leads_undo (fun hc ↦ ?_) (fun hc hl ↦ ?_) fun x hc hl ↦ ?_ <;> rw [hj] at hc
  · simp only [upshot, hc, Bool.false_eq_true, if_false] at hu
    exact hu.raised _ s (.inr rfl) hs
  · rw [hj] at hl ⊢
    simp only [upshot, hc, hl, if_true] at hu
    exact hu.raised _ s (.inr rfl) hs
  · rw [hj] at hl
    simp only [upshot, hc, hl, if_true] at hu
    obtain ⟨code, hrevert, hcode⟩ := hh.revert hs (hx x hl)
    apply (Run.leads_ask_ok (f := (h.revert · x)) hrevert).2
    exact hh.leads_replayed hs (hx x hl) hcode _ _ hu

theorem leads_redo (hh : h.Plain P E ends I) (hs : I m s)
    (hx : ∀ x, m.history.next? = some x → P x)
    (hu : (m.history.upshot .redo).Allows ends E I m Q F) : h.redo.Leads s Q F False := by
  have hj := hh.journal hs
  refine Host.leads_redo (fun hc ↦ ?_) (fun hc hl ↦ ?_) fun x hc hl ↦ ?_ <;> rw [hj] at hc
  · simp only [upshot, hc, Bool.false_eq_true, if_false] at hu
    exact hu.raised _ s (.inr rfl) hs
  · rw [hj] at hl ⊢
    simp only [upshot, hc, hl, if_true] at hu
    exact hu.raised _ s (.inr rfl) hs
  · rw [hj] at hl
    simp only [upshot, hc, hl, if_true] at hu
    obtain ⟨code, hreapply, hcode⟩ := hh.reapply hs (hx x hl)
    apply (Run.leads_ask_ok (f := (h.reapply · x)) hreapply).2
    exact hh.leads_replayed hs (hx x hl) hcode _ _ hu

/-- Whatever is asked of such a journal, it makes of it what a tally does, and fails if that says so
or if what is concerned refuses to be described. -/
theorem leads_handle (hh : h.Plain P E ends I) (hs : I m s) (hP : ∀ x ∈ m.history.entries, P x)
    {r : Request ι} (hr : r.Of P) (hu : (m.history.upshot r).Allows ends E I m Q F) :
    (h.handle r).Leads s Q F False := by
  have hchange (f : Journal ι → Journal ι) := hh.update f hs
  cases r with
  | add x => exact hh.leads_add hs hr hu
  | undo => exact hh.leads_undo hs (fun x hx ↦ hP x (Position.mem_of_item? hx)) hu
  | redo => exact hh.leads_redo hs (fun x hx ↦ hP x (Position.mem_of_item? hx)) hu
  | clear =>
    refine Host.leads_clear.2 ((hh.log _ (hchange (·.empty))).mono (fun _ t ht ↦ ?_)
      (fun _ _ ht ↦ ht.elim))
    exact hh.leads_announceChange ht fun u ↦ hu.returned u rfl
  | setEnabled v => exact hu.returned _ rfl (hchange ({ · with enabled := v }))
  | setLimit v => exact hu.returned _ rfl (hchange ({ · with limit := v }))

end Plain

end Host

end Journal

namespace Timeline

variable {m : Tally (Timeline ι) ι} {I : Tally (Timeline ι) ι → σ → Prop} {same : ι → ι → Bool}

def meet (ends : List (Way × ι) → Way → ι → Option Fault) (same : ι → ι → Bool)
    (m : Tally (Timeline ι) ι) (r : Request ι) : Tally (Timeline ι) ι :=
  m.after ends (m.history.upshot same r)

theorem of_meet {r : Request ι} (h : ∀ x ∈ m.history.entries, P x) (hr : r.Of P) :
    ∀ x ∈ (meet ends same m r).history.entries, P x := by
  have hrestored (i : Int) :
      (m.after ends (m.history.restored i)).history.entries = m.history.entries := by
    rcases m.history.restored_cases i with hi | ⟨x, -, hi⟩
    · rw [hi]
      rfl
    · simp only [hi, replayed, Tally.after]
      cases ends m.calls .restore x with
      | none => rfl
      | some e => rfl
  unfold meet
  cases r with
  | add x =>
    have hpush : ∀ y ∈ (m.history.push same x).entries, P y := by
      intro y hy
      rcases mem_of_push hy with hy | rfl
      · exact h y hy
      · exact hr
    simp only [upshot]
    split
    · cases ht : (m.history.push same x).trim with
      | ok k => exact fun y hy ↦ hpush y (entries_of_trim ht hy)
      | error e => exact hpush
    · exact h
  | undo =>
    rcases upshot_undo m.history same with hu | hu
    · rw [hu]
      exact h
    · rw [hu, hrestored]
      exact h
  | redo =>
    rcases upshot_redo m.history same with hu | hu
    · rw [hu]
      exact h
    · rw [hu, hrestored]
      exact h
  | clear => exact fun x hx ↦ absurd hx List.not_mem_nil
  | setEnabled v => exact h
  | setLimit v => exact h

/-- Only the newest of the entries that are to stay is compared with a new state. -/
theorem push_congr {t : Timeline ι} {same same' : ι → ι → Bool}
    (h : ∀ y ∈ t.entries, same y x = same' y x) : t.push same x = t.push same' x := by
  have hkept : t.kept same x = t.kept same' x := by
    unfold kept
    cases hl : t.past.getLast? with
    | none => rfl
    | some y =>
      have hy := h y (t.past_subset (List.mem_of_getLast? hl))
      simp only [Option.any_some, hy]
  rw [push, hkept, push]

namespace Host

/-- A timeline whose states leave it alone, and whose listeners do too. `I` tells what it is like
and what has been called for it. -/
structure Plain (h : Host σ ι) (P : ι → Prop) (E : Fault → Prop)
    (ends : List (Way × ι) → Way → ι → Option Fault) (same : ι → ι → Bool)
    (I : Tally (Timeline ι) ι → σ → Prop) : Prop where
  timeline : ∀ {m s}, I m s → h.timeline s = m.history
  update : ∀ {m s} f, I m s → I { m with history := f m.history } (h.update f s)
  same : ∀ {m s x y}, I m s → P x → P y → h.same s x y = same x y
  describe : ∀ {m s x e}, I m s → P x → h.describe s x = .error e → E e
  restore : ∀ {x}, P x → (h.restore x).Calls ends I .restore x
  announce : ∀ {m s} n, I m s → (h.announce n).Leads s (fun _ ↦ I m) (fun _ _ ↦ False) False
  log : ∀ {m s} r, I m s → (h.log r).Leads s (fun _ ↦ I m) (fun _ _ ↦ False) False

namespace Plain

variable {h : Host σ ι}

theorem leads_announceChange (hh : h.Plain P E ends same I) (hs : I m s)
    (hQ : ∀ t, I m t → Q () t) : h.announceChange.Leads s Q F False :=
  Host.leads_announceChange.2 ((hh.announce _ hs).mono (fun _ t ht ↦ hQ t ht)
    fun _ _ ht ↦ ht.elim)

/-- Once the timeline has changed, nothing can fail but to describe what is concerned. -/
theorem leads_report (hh : h.Plain P E ends same I) (hs : I m s) (hx : P x)
    (r : Value → σ → Remark) (n : Notice ι) (hQ : ∀ t, I m t → Q () t)
    (hF : ∀ e t, E e → I m t → F e t) :
    (h.tell x).Leads s (fun v t ↦ (h.log (r v t)).Leads t (fun _ t ↦ (h.announce n).Leads t
      (fun _ t ↦ h.announceChange.Leads t Q F False) F False) F False) F False := by
  refine leads_tell.2 ⟨fun v _ ↦ ?_, fun e he ↦ hF e s (hh.describe hs hx he) hs⟩
  refine (hh.log (r v s) hs).mono (fun _ t ht ↦ ?_) (fun _ _ ht ↦ ht.elim)
  refine (hh.announce n ht).mono (fun _ u hu ↦ ?_) (fun _ _ hu ↦ hu.elim)
  exact hh.leads_announceChange hu hQ

theorem leads_ignored (hh : h.Plain P E ends same I) (hs : I m s) (hx : P x)
    (r : Value → Remark) (hQ : ∀ t, I m t → Q () t) (hF : ∀ e t, E e → I m t → F e t) :
    (h.tell x).Leads s (fun v t ↦ (h.log (r v)).Leads t Q F False) F False := by
  refine leads_tell.2 ⟨fun v _ ↦ ?_, fun e he ↦ hF e s (hh.describe hs hx he) hs⟩
  exact (hh.log (r v) hs).mono (fun _ t ht ↦ hQ t ht) (fun _ _ ht ↦ ht.elim)

theorem leads_moveTo (hh : h.Plain P E ends same I) (hs : I m s)
    (hP : ∀ x ∈ m.history.entries, P x) {i : Int}
    (hu : (m.history.restored i).Allows ends E I m Q F) : (h.moveTo i).Leads s Q F False := by
  have ht := hh.timeline hs
  refine Host.leads_moveTo (fun hi ↦ ?_) fun x hi ↦ ?_ <;> rw [ht] at hi
  · simp only [restored, hi] at hu
    exact hu.raised _ s (.inr rfl) hs
  · simp only [restored, hi] at hu
    have hx := hP x (Position.mem_of_item? hi)
    refine (hh.restore hx (hh.update ({ · with restoring := true }) hs)).mono (fun _ t ht ↦ ?_)
      (fun e t ht ↦ ?_)
    · have hidle := hh.update ({ · with pointer := i })
        (hh.update ({ · with restoring := false }) ht.2)
      have hafter : m.after ends (m.history.replayed x i) = { m.call .restore x with
          history := { m.history with restoring := false, pointer := i } } := by
        simp only [replayed, Tally.after, ht.1]
      simp only [settle, Run.leads_bind, Host.leads_change, Host.leads_look]
      refine hh.leads_report hidle hx (fun v t ↦ .restored v (h.timeline t).pointer) (.restored x)
        (fun u hi ↦ hu.returned u ht.1 ?_) (fun e u he hi ↦ hu.raised e u (.inl ⟨ht.1, he⟩) ?_)
      · rwa [hafter]
      · rwa [hafter]
    · have hafter : m.after ends (m.history.replayed x i) = { m.call .restore x with
          history := { m.history with restoring := false } } := by
        simp only [replayed, Tally.after, ht.1]
      refine hu.raised e _ (.inr ht.1) ?_
      rw [hafter]
      exact hh.update ({ · with restoring := false }) ht.2

theorem leads_add (hh : h.Plain P E ends same I) (hs : I m s)
    (hP : ∀ x ∈ m.history.entries, P x) (hx : P x)
    (hu : (m.history.upshot same (.add x)).Allows ends E I m Q F) :
    (h.add x).Leads s Q F False := by
  have ht := hh.timeline hs
  cases he : m.history.enabled.truth with
  | false =>
    rw [upshot_add_ignored (.inl he)] at hu
    refine (leads_add_ignored (.inl ⟨by rw [ht, he], rfl⟩)).2 ?_
    exact hh.leads_ignored hs hx _ (fun t ↦ hu.returned t rfl) fun e t he ↦
      hu.raised e t (.inl ⟨rfl, he⟩)
  | true =>
    cases hr : m.history.restoring with
    | true =>
      rw [upshot_add_ignored (.inr hr)] at hu
      refine (leads_add_ignored (.inr ⟨by rw [ht, he], by rw [ht, hr], rfl⟩)).2 ?_
      exact hh.leads_ignored hs hx _ (fun t ↦ hu.returned t rfl) fun e t he ↦
        hu.raised e t (.inl ⟨rfl, he⟩)
    | false =>
      have hsame : m.history.push (h.same s) x = m.history.push same x :=
        push_congr fun y hy ↦ hh.same hs (hP y hy) hx
      have hpush := hh.update (·.push (h.same s) x) hs
      rw [hsame] at hpush
      rw [upshot_add_recorded he hr] at hu
      refine (leads_add_recorded (by rw [ht, he]) (by rw [ht, hr])).2 ?_
      rw [hh.timeline hpush]
      refine Run.leads_lift.2 ⟨fun k hk ↦ ?_, fun e hk ↦ ?_⟩
      · rw [show (m.history.push same x).trim = .ok k from hk] at hu
        exact hh.leads_report (hh.update (fun _ ↦ k) hpush) hx (fun v _ ↦ .recorded v k.pointer)
          (.recorded x) (fun t ↦ hu.returned t rfl) fun e t he ↦ hu.raised e t (.inl ⟨rfl, he⟩)
      · rw [show (m.history.push same x).trim = .error e from hk] at hu
        exact hu.raised e _ (.inr rfl) hpush

/-- Whatever is asked of such a timeline, it makes of it what a tally does, and fails if that says
so or if what is concerned refuses to be described. -/
theorem leads_handle (hh : h.Plain P E ends same I) (hs : I m s)
    (hP : ∀ x ∈ m.history.entries, P x) {r : Request ι} (hr : r.Of P)
    (hu : (m.history.upshot same r).Allows ends E I m Q F) : (h.handle r).Leads s Q F False := by
  have ht := hh.timeline hs
  have hchange (f : Timeline ι → Timeline ι) := hh.update f hs
  cases r with
  | add x => exact hh.leads_add hs hP hr hu
  | undo =>
    refine Host.leads_undo (fun hn ↦ ?_) fun he hp ↦ ?_
    · rw [ht] at hn
      have hn : (m.history.isEmpty || m.history.pointer == 0) = true := by simpa using hn
      simp only [upshot, hn, if_true] at hu
      exact hu.returned s rfl hs
    · rw [ht] at he hp ⊢
      have hn : (m.history.isEmpty || m.history.pointer == 0) = false := by
        simpa using And.intro he hp
      simp only [upshot, hn, Bool.false_eq_true, if_false] at hu
      exact hh.leads_moveTo hs hP hu
  | redo =>
    refine Host.leads_redo (fun hn ↦ ?_) fun hp ↦ ?_
    · rw [ht] at hn
      have hn : (m.history.pointer == m.history.entries.length - 1) = true := by simpa using hn
      simp only [upshot, hn, if_true] at hu
      exact hu.returned s rfl hs
    · rw [ht] at hp ⊢
      have hn : (m.history.pointer == m.history.entries.length - 1) = false := by simpa using hp
      simp only [upshot, hn, Bool.false_eq_true, if_false] at hu
      exact hh.leads_moveTo hs hP hu
  | clear =>
    refine Host.leads_clear.2 ((hh.log _ (hchange (·.empty))).mono (fun _ t ht ↦ ?_)
      (fun _ _ ht ↦ ht.elim))
    exact hh.leads_announceChange ht fun u ↦ hu.returned u rfl
  | setEnabled v => exact hu.returned _ rfl (hchange ({ · with enabled := v }))
  | setLimit v => exact hu.returned _ rfl (hchange ({ · with limit := v }))

end Plain

end Host

end Timeline

/-- Those around a history that stands by itself: nobody calls back, and what is called ends as
told. -/
def Cast.alone (ends : List (Way × ι) → Way → ι → Option Fault)
    (describe : ι → Except Fault Value) (same : ι → ι → Bool) : Cast ε ι ν where
  code s way x :=
    match ends s.calls way x with
    | none => .finish
    | some e => .fail e
  hears _ _ := .finish
  describe _ := describe
  same _ := same

section Alone

variable {describe : ι → Except Fault Value} {same : ι → ι → Bool}

/-- A stage is as a tally says. -/
def Stage.Counts (m : Tally ε ι) (s : Stage ε ι ν) : Prop :=
  s.history = m.history ∧ s.calls = m.calls

theorem Stage.Counts.note {m : Tally ε ι} {s : Stage ε ι ν} (h : s.Counts m) {a : Act ι ν}
    (ha : ∀ way x, a ≠ .entered way x) : (s.note a).Counts m := by
  refine ⟨h.1, ?_⟩
  rw [Stage.calls_note, h.2]
  cases a with
  | entered way x => exact absurd rfl (ha way x)
  | asked | answered | left | announced => exact List.append_nil _

theorem Cast.alone_enter (serve : Request ι → Run (Stage ε ι ν) Unit) (way : Way) (x : ι) :
    ((Cast.alone ends describe same).enter serve way x).Calls ends Stage.Counts way x := by
  intro m s hs
  have hcalled : (s.note (.entered way x)).Counts (m.call way x) := by
    refine ⟨hs.1, ?_⟩
    rw [Stage.calls_note, hs.2]
    rfl
  rw [Cast.leads_enter]
  unfold Cast.alone
  dsimp only
  rw [hs.2]
  cases hends : ends m.calls way x with
  | none => exact ⟨rfl, hcalled.note nofun⟩
  | some e => exact ⟨rfl, hcalled.note nofun⟩

theorem Cast.alone_announce (serve : Request ι → Run (Stage ε ι ν) Unit) {n : ν}
    {m : Tally ε ι} {s : Stage ε ι ν} (hs : s.Counts m) :
    ((Cast.alone ends describe same).announce serve n).Leads s (fun _ ↦ Stage.Counts m)
      (fun _ _ ↦ False) False :=
  (Cast.leads_announce ..).2 (hs.note nofun)

theorem Journal.plain_alone (serve : Request ι → Run (Stage (Journal ι) ι (Notice ι)) Unit) :
    ((Cast.alone ends describe same).journalHost serve).Plain (fun _ ↦ True) (fun _ ↦ True) ends
      Stage.Counts where
  journal hs := hs.1
  update f hs := ⟨congrArg f hs.1, hs.2⟩
  describe _ _ _ := trivial
  revert _ _ := ⟨_, rfl, Holding.calls (Cast.alone_enter serve .undo _)⟩
  reapply _ _ := ⟨_, rfl, Holding.calls (Cast.alone_enter serve .redo _)⟩
  announce _ hs := Cast.alone_announce serve hs
  log _ hs := hs

theorem Timeline.plain_alone (serve : Request ι → Run (Stage (Timeline ι) ι (Notice ι)) Unit) :
    ((Cast.alone ends describe same).timelineHost serve).Plain (fun _ ↦ True) (fun _ ↦ True) ends
      same Stage.Counts where
  timeline hs := hs.1
  update f hs := ⟨congrArg f hs.1, hs.2⟩
  same _ _ _ := rfl
  describe _ _ _ := trivial
  restore _ := Cast.alone_enter serve .restore _
  announce _ hs := Cast.alone_announce serve hs
  log _ hs := hs

theorem Script.play_all_counts {serve : Request ι → Run (Stage ε ι ν) Unit}
    {meet : Tally ε ι → Request ι → Tally ε ι}
    (h : ∀ {m s} r, s.Counts m → (serve r).Leads s (fun _ ↦ Stage.Counts (meet m r))
      (fun _ ↦ Stage.Counts (meet m r)) False) (rs : List (Request ι)) {m : Tally ε ι}
    {s : Stage ε ι ν} (hs : s.Counts m) :
    ∃ t, (Script.all rs).play serve s = .returned () t ∧ t.Counts (rs.foldl meet m) := by
  induction rs generalizing m s with
  | nil => exact ⟨s, rfl, hs⟩
  | cons r rs ih =>
    obtain ⟨t, ht, hm⟩ := Script.exists_played (h r hs)
    obtain ⟨u, hu, hm⟩ := ih hm
    have hplay : (Script.all ([r] ++ rs)).play serve s = _ := Script.play_all_append ht
    exact ⟨u, hplay.trans hu, hm⟩

/-- A journal by itself makes of requests what a tally does. -/
theorem Journal.exists_played_alone (n : Nat) (rs : List (Request ι)) (j : Journal ι) :
    ∃ s : Stage (Journal ι) ι (Notice ι), (Script.all rs).play
        (engine.serve (.alone ends describe same) (n + 1)) ⟨j, []⟩ = .returned () s ∧
      s.Counts (rs.foldl (meet ends) ⟨j, []⟩) := by
  refine Script.play_all_counts (fun r hs ↦ Engine.leads_serve.2 ?_) rs ⟨rfl, rfl⟩
  refine (plain_alone _).leads_handle (hs.note (a := .asked r) nofun) (fun _ _ ↦ trivial) ?_
    ⟨?_, ?_⟩
  · cases r <;> trivial
  · exact fun t _ ht ↦ ht.note nofun
  · exact fun e t _ ht ↦ ht.note nofun

theorem Timeline.exists_played_alone (n : Nat) (rs : List (Request ι)) (t : Timeline ι) :
    ∃ s : Stage (Timeline ι) ι (Notice ι), (Script.all rs).play
        (engine.serve (.alone ends describe same) (n + 1)) ⟨t, []⟩ = .returned () s ∧
      s.Counts (rs.foldl (meet ends same) ⟨t, []⟩) := by
  refine Script.play_all_counts (fun r hs ↦ Engine.leads_serve.2 ?_) rs ⟨rfl, rfl⟩
  refine (plain_alone _).leads_handle (hs.note (a := .asked r) nofun) (fun _ _ ↦ trivial) ?_
    ⟨?_, ?_⟩
  · cases r <;> trivial
  · exact fun t _ ht ↦ ht.note nofun
  · exact fun e t _ ht ↦ ht.note nofun

end Alone

end Rewind
