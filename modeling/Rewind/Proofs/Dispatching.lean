import Rewind.Proofs.Independent
import Rewind.Proofs.Poise

namespace Rewind

open Session (Way)

variable {ι : Type}

/-- Whether a request leaves the limit of a history as it is, and whether it records. -/
def Request.keepsTerms : Request ι → Bool
  | .setEnabled _ | .setLimit _ => false
  | .add _ | .undo | .redo | .clear => true

theorem Request.whole_of_keepsTerms {r : Request ι} (h : r.keepsTerms = true) : r.Whole := by
  cases r with
  | setLimit v => cases h
  | add | undo | redo | clear | setEnabled => trivial

/-- Whether something has been added since a history was cleared. -/
def Request.pends (pending : Bool) : Request ι → Bool
  | .add _ => true
  | .clear => false
  | .undo | .redo | .setEnabled _ | .setLimit _ => pending

variable {ends : List (Way × ι) → Way → ι → Option Fault} {l : Int} {p : Bool} {r : Request ι}

/-- A journal with its position within its record, unless the limit is negative: then it records
nothing, and its position falls below zero as soon as something has been added. -/
structure Journal.Poised (l : Int) (pending : Bool) (j : Journal ι) : Prop where
  bound : j.limit.bound? = some l
  enabled : j.enabled.truth = true
  idle : j.replaying = false
  inRange : 0 ≤ l → j.InRange
  empty : l < 0 → j.entries = []
  position : l < 0 → j.position = if pending then l else 0

namespace Journal.Poised

variable {m : Tally (Journal ι) ι} {j : Journal ι}

theorem canUndo_of_neg (h : j.Poised l p) (hl : l < 0) : j.canUndo = false := by
  have hp := h.position hl
  simp only [canUndo, decide_eq_false_iff_not]
  split at hp <;> omega

theorem canRedo_of_neg (h : j.Poised l p) (hl : l < 0) : j.canRedo = p := by
  have hp := h.position hl
  unfold canRedo
  rw [h.empty hl, hp]
  cases p with
  | false => rfl
  | true => simpa using hl

theorem next?_of_neg (h : j.Poised l p) (hl : l < 0) (hp : p = true) : j.next? = none := by
  have hpos := h.position hl
  rw [if_pos hp] at hpos
  unfold next? Position.item?
  rw [h.empty hl, hpos, if_neg (by omega), if_neg (by simp; omega)]

theorem exists_back (h : j.Poised l p) (hc : j.canUndo = true) :
    ∃ x, j.facing .undo = some x ∧ j.upshot .undo = j.replayed .undo x (-1) := by
  have hl : 0 ≤ l := by
    by_contra hl
    cases (h.canUndo_of_neg (by omega)).symm.trans hc
  obtain ⟨x, hx, -⟩ := (h.inRange hl).exists_undone hc
  exact ⟨x, hx, by simp only [upshot, hc, hx, if_true]⟩

theorem exists_forth (h : j.Poised l p) (hp : l < 0 → p ≠ true) (hc : j.canRedo = true) :
    ∃ x, j.facing .redo = some x ∧ j.upshot .redo = j.replayed .redo x 1 := by
  have hl : 0 ≤ l := by
    by_contra hl
    have hl : l < 0 := by omega
    exact hp hl ((h.canRedo_of_neg hl).symm.trans hc)
  obtain ⟨x, hx, -⟩ := (h.inRange hl).exists_redone hc
  exact ⟨x, hx, by simp only [upshot, hc, hx, if_true]⟩

theorem push (h : j.Poised l p) (x : ι) :
    ∃ k, (j.push x).trim = .ok k ∧ k.Poised l true := by
  by_cases hl : l < 0
  · -- More is dropped than there is, so that the position falls to the limit.
    refine ⟨_, trim_push_of_neg h.bound hl x, h.bound, h.enabled, h.idle, fun h0 ↦ ?_, fun _ ↦ rfl,
      fun _ ↦ rfl⟩
    omega
  · refine ⟨_, trim_push (Value.room_of_bound h.bound (by omega)) x, h.bound, h.enabled, h.idle,
      fun _ ↦ ⟨by simp, by simp⟩, fun hn ↦ ?_, fun hn ↦ ?_⟩
    · omega
    · omega

theorem cleared (h : j.Poised l p) : j.empty.Poised l false :=
  ⟨h.bound, h.enabled, h.idle, fun _ ↦ ⟨Int.le_refl 0, Int.le_refl 0⟩, fun _ ↦ rfl, fun _ ↦ rfl⟩

theorem move (h : j.Poised l p) (hl : 0 ≤ l) {d : Int} (hd : (j.move d).InRange) :
    (j.move d).Poised l p := by
  refine ⟨h.bound, h.enabled, h.idle, fun _ ↦ hd, fun hn ↦ ?_, fun hn ↦ ?_⟩
  · omega
  · omega

theorem replayed (h : m.history.Poised l p) (hl : 0 ≤ l) {way : Way} {x : ι} {d : Int}
    (hd : (m.history.move d).InRange) :
    (m.after ends (m.history.replayed way x d)).history.Poised l p := by
  have hidle : ({ m.history with replaying := false } : Journal ι) = m.history := by
    rw [← h.idle]
  simp only [Journal.replayed, Tally.after]
  cases ends m.calls way x with
  | some e =>
    show ({ m.history with replaying := false } : Journal ι).Poised l p
    rwa [hidle]
  | none =>
    show (({ m.history with replaying := false } : Journal ι).move d).Poised l p
    rw [hidle]
    exact h.move hl hd

/-- Nothing that a journal is asked on its terms takes its position out of place. -/
theorem meet (h : m.history.Poised l p) (hr : r.keepsTerms = true) :
    (Journal.meet ends m r).history.Poised l (r.pends p) := by
  unfold Journal.meet
  cases r with
  | add x =>
    obtain ⟨k, hk, hpoised⟩ := h.push x
    rw [upshot_add_recorded h.enabled h.idle, hk]
    exact hpoised
  | undo =>
    rcases upshot_undo m.history with ⟨e, hu⟩ | ⟨x, hc, -, hu⟩
    · rw [hu]
      exact h
    · by_cases hl : l < 0
      · cases (h.canUndo_of_neg hl).symm.trans hc
      · obtain ⟨-, -, -, -, hd⟩ := (h.inRange (by omega)).exists_undone hc
        rw [hu]
        exact h.replayed (by omega) hd
  | redo =>
    rcases upshot_redo m.history with ⟨e, hu⟩ | ⟨x, hc, hn, hu⟩
    · rw [hu]
      exact h
    · by_cases hl : l < 0
      · -- There is no edit to redo in an empty record, so that the request has failed.
        rw [h.canRedo_of_neg hl] at hc
        cases (h.next?_of_neg hl hc).symm.trans hn
      · obtain ⟨-, -, -, -, hd⟩ := (h.inRange (by omega)).exists_redone hc
        rw [hu]
        exact h.replayed (by omega) hd
  | clear => exact h.cleared
  | setEnabled v => cases hr
  | setLimit v => cases hr

theorem edited {rs : List (Request ι)} (h : m.history.Poised l p)
    (hr : ∀ r ∈ rs, r.keepsTerms = true) :
    (rs.foldl (Journal.meet ends) m).history.Poised l (rs.foldl Request.pends p) := by
  induction rs generalizing m p with
  | nil => exact h
  | cons r rs ih =>
    have hrs : ∀ r ∈ rs, r.keepsTerms = true := fun r hm ↦ hr r (List.mem_cons_of_mem _ hm)
    exact ih (h.meet (hr r List.mem_cons_self)) hrs

end Journal.Poised

namespace Session

namespace Office

variable {o : Office} {w v : World} {Calm : World → Prop} {m n x : Nat}
  {a : Tally (Journal Nat) Nat} {b : Tally (Timeline Nat) Nat}

/-- Nothing that is called fails, nor does it refuse to be described. -/
structure Willing (o : Office) : Prop where
  edits : ∀ {i}, o.edits.items i → ∀ called way, (o.edits.does called way i).2 = none
  states : ∀ {i}, o.states.items i → ∀ called way, (o.states.does called way i).2 = none
  said : ∀ i, o.edits.items i ∨ o.states.items i → ∃ d, o.start.describe i = .ok d

theorem Willing.not_unsaid (hw : o.Willing) {e : Fault} : ¬ o.Unsaid e := by
  rintro ⟨i, hi, he⟩
  obtain ⟨d, hd⟩ := hw.said i hi
  cases hd.symm.trans he

/-- The journal has called the edit that it stores next to its position, and stands `d` further. -/
structure Edited (o : Office) (way : Way) (d : Int) (i : Nat) (w v : World) : Prop where
  stored : (w.journal o.journal).facing way = some i
  journal : v.journal o.journal = (w.journal o.journal).move d
  calls : v.calls o.edits.heeds =
    w.calls o.edits.heeds ++ (o.edits.does (w.calls o.edits.heeds) way i).1
  timeline : v.timeline o.timeline = w.timeline o.timeline
  others : v.calls o.states.heeds = w.calls o.states.heeds

/-- The timeline has called the state that it stores `d` further, and stands there. -/
structure Visited (o : Office) (d : Int) (i : Nat) (w v : World) : Prop where
  stored : Position.item? (w.timeline o.timeline).entries ((w.timeline o.timeline).pointer + d) =
    some i
  timeline : v.timeline o.timeline =
    { w.timeline o.timeline with pointer := (w.timeline o.timeline).pointer + d }
  calls : v.calls o.states.heeds =
    w.calls o.states.heeds ++ (o.states.does (w.calls o.states.heeds) .restore i).1
  journal : v.journal o.journal = w.journal o.journal
  others : v.calls o.edits.heeds = w.calls o.edits.heeds

/-- The history that is driven has called one item that it stores, and stands one step back, or one
step forth. -/
def Stepped (o : Office) (way : Way) (d : Int) (w v : World) : Prop :=
  if (w.dispatcher o.dispatcher).usesTimeline then ∃ i, o.Visited d i w v
  else ∃ i, o.Edited way d i w v

theorem Stands.leads_edit (h : o.Stands Calm a b w) (ho : o.Undisturbed m n x Calm)
    (hw : o.Willing) (hidle : a.history.replaying = false) {r : Request Nat}
    (hr : r.Of o.edits.items) {way : Way} {i : Nat} {d : Int} (hi : a.history.facing way = some i)
    (hu : a.history.upshot r = a.history.replayed way i d) :
    ((journalHost (inner n) o.journal).handle r).Leads w (fun _ ↦ o.Edited way d i w)
      (fun _ _ ↦ False) False := by
  have hends : o.ends o.edits a.calls way i = none :=
    hw.edits (h.done i (Journal.mem_of_facing hi)) _ way
  -- Only what is called and what is described could fail, and neither does.
  refine (ho.journal_plain b).leads_handle h.toAt h.done hr ⟨fun v _ hv ↦ ?_, fun e v he _ ↦ ?_⟩
  · have hmove : ({ a.history with replaying := false } : Journal Nat) = a.history := by
      rw [← hidle]
    have hv : o.At Calm { a.call way i with
        history := ({ a.history with replaying := false } : Journal Nat).move d } b v := by
      rw [hu] at hv
      simp only [Journal.replayed, Tally.after, hends] at hv
      exact hv
    rw [hmove] at hv
    refine ⟨h.journal ▸ hi, ?_, ?_, hv.timeline.trans h.timeline.symm,
      hv.states.trans h.states.symm⟩
    · rw [hv.journal, h.journal]
    · rw [hv.edits, h.edits]
      exact trace_call a.calls
  · rcases he with ⟨-, he⟩ | he
    · exact hw.not_unsaid he
    · rw [hu] at he
      cases hends.symm.trans he

theorem Stands.leads_visit (h : o.Stands Calm a b w) (ho : o.Undisturbed m n x Calm)
    (hw : o.Willing) (hidle : b.history.restoring = false) {r : Request Nat}
    (hr : r.Of o.states.items) {i : Nat} {d : Int}
    (hi : Position.item? b.history.entries (b.history.pointer + d) = some i)
    (hu : b.history.upshot o.start.sameItem r = b.history.replayed i (b.history.pointer + d)) :
    ((timelineHost (inner n) o.timeline).handle r).Leads w (fun _ ↦ o.Visited d i w)
      (fun _ _ ↦ False) False := by
  have hends : o.ends o.states b.calls .restore i = none :=
    hw.states (h.seen i (Position.mem_of_item? hi)) _ .restore
  refine (ho.timeline_plain a).leads_handle h.toAt h.seen hr ⟨fun v _ hv ↦ ?_, fun e v he _ ↦ ?_⟩
  · have hv : o.At Calm a { b.call .restore i with
        history := { b.history with restoring := false, pointer := b.history.pointer + d } } v := by
      rw [hu] at hv
      simp only [Timeline.replayed, Tally.after, hends] at hv
      exact hv
    rw [← hidle] at hv
    refine ⟨h.timeline ▸ hi, ?_, ?_, hv.journal.trans h.journal.symm,
      hv.edits.trans h.edits.symm⟩
    · rw [hv.timeline, h.timeline]
    · rw [hv.states, h.states]
      exact trace_call b.calls
  · rcases he with ⟨-, he⟩ | he
    · exact hw.not_unsaid he
    · rw [hu] at he
      cases hends.symm.trans he

/-- What histories have come to on their terms, if what is called never fails. -/
structure Sane (o : Office) (Calm : World → Prop) (l : Int) (pending : Bool)
    (a : Tally (Journal Nat) Nat) (b : Tally (Timeline Nat) Nat) (w : World) : Prop
    extends o.Stands Calm a b w where
  edited : a.history.Poised l pending
  visited : b.history.Poised

/-- The journal is driven, its limit is negative, and something has been added since it was
cleared. -/
def Overdrawn (o : Office) (l : Int) (pending : Bool) (w : World) : Prop :=
  (w.dispatcher o.dispatcher).usesTimeline = false ∧ l < 0 ∧ pending = true

namespace Sane

variable {l : Int} {p : Bool}

theorem abilities_eq (h : o.Sane Calm l p a b w) (ho : o.Undisturbed m n x Calm) :
    w.abilities o.dispatcher =
      if (w.dispatcher o.dispatcher).usesTimeline then (b.history.canUndo, b.history.canRedo)
      else (a.history.canUndo, a.history.canRedo) := by
  obtain ⟨hj, ht⟩ := h.dispatcher_eq ho
  unfold World.abilities
  dsimp only
  rw [hj, ht, h.journal, h.timeline]

/-- The history that is driven steps if it has something to step to. -/
theorem leads_forward (h : o.Sane Calm l p a b w) (ho : o.Undisturbed m n x Calm) (hw : o.Willing)
    {r : Request Nat} (hr : ∀ P, r.Of P) (way : Way) (d : Int)
    (hvisit : (w.dispatcher o.dispatcher).usesTimeline = true →
      ∃ i, Position.item? b.history.entries (b.history.pointer + d) = some i ∧
        b.history.upshot o.start.sameItem r = b.history.replayed i (b.history.pointer + d))
    (hedit : (w.dispatcher o.dispatcher).usesTimeline = false →
      ∃ i, a.history.facing way = some i ∧ a.history.upshot r = a.history.replayed way i d) :
    (forward (inner n) o.dispatcher r).Leads w (fun _ ↦ o.Stepped way d w) (fun _ _ ↦ False)
      False := by
  obtain ⟨hj, ht⟩ := h.dispatcher_eq ho
  unfold forward Stepped
  rw [Run.leads_bind, Run.leads_get]
  dsimp only
  rw [hj, ht]
  cases hm : (w.dispatcher o.dispatcher).usesTimeline with
  | true =>
    obtain ⟨i, hi, hu⟩ := hvisit hm
    exact (h.leads_visit ho hw h.visited.idle (hr _) hi hu).mono (fun _ v hv ↦ ⟨i, hv⟩)
      (fun _ _ hv ↦ hv)
  | false =>
    obtain ⟨i, hi, hu⟩ := hedit hm
    exact (h.leads_edit ho hw h.edited.idle (hr _) hi hu).mono (fun _ v hv ↦ ⟨i, hv⟩)
      (fun _ _ hv ↦ hv)

/-- Where there is something to undo, it is undone. -/
theorem leads_undo (h : o.Sane Calm l p a b w) (ho : o.Undisturbed m n x Calm) (hw : o.Willing) :
    (dispatchUndo (inner n) o.dispatcher).Leads w
      (fun done v ↦ done = (w.abilities o.dispatcher).1 ∧
        if done then o.Stepped .undo (-1) w v else v = w) (fun _ _ ↦ False) False := by
  rw [leads_dispatchUndo]
  split
  · rename_i hable
    rw [hable]
    rw [h.abilities_eq ho] at hable
    refine (h.leads_forward ho hw (r := .undo) (fun _ ↦ trivial) .undo (-1)
      (fun hm ↦ ?_) (fun hm ↦ ?_)).mono (fun _ v hv ↦ ⟨rfl, hv⟩) (fun _ _ hv ↦ hv)
    · rw [if_pos hm] at hable
      exact h.visited.exists_back hable
    · rw [hm] at hable
      exact h.edited.exists_back hable
  · rename_i hable
    exact ⟨(Bool.not_eq_true _ ▸ hable).symm, rfl⟩

/-- Where there is something to redo, it is redone, unless it only seems so. -/
theorem leads_redo (h : o.Sane Calm l p a b w) (ho : o.Undisturbed m n x Calm) (hw : o.Willing)
    (hnot : ¬ o.Overdrawn l p w) :
    (dispatchRedo (inner n) o.dispatcher).Leads w
      (fun done v ↦ done = (w.abilities o.dispatcher).2 ∧
        if done then o.Stepped .redo 1 w v else v = w) (fun _ _ ↦ False) False := by
  rw [leads_dispatchRedo]
  split
  · rename_i hable
    rw [hable]
    rw [h.abilities_eq ho] at hable
    refine (h.leads_forward ho hw (r := .redo) (fun _ ↦ trivial) .redo 1
      (fun hm ↦ ?_) (fun hm ↦ ?_)).mono (fun _ v hv ↦ ⟨rfl, hv⟩) (fun _ _ hv ↦ hv)
    · rw [if_pos hm] at hable
      exact h.visited.exists_forth hable
    · rw [hm] at hable
      exact h.edited.exists_forth (fun hl hp ↦ hnot ⟨hm, hl, hp⟩) hable
  · rename_i hable
    exact ⟨(Bool.not_eq_true _ ▸ hable).symm, rfl⟩

/-- With a negative limit, what seems to be there to redo is not. -/
theorem leads_redo_overdrawn (h : o.Sane Calm l p a b w) (ho : o.Undisturbed m n x Calm)
    (hover : o.Overdrawn l p w) :
    (dispatchRedo (inner n) o.dispatcher).Leads w (fun _ _ ↦ False)
      (fun e v ↦ e = .atPosition l ∧ v = w) False := by
  obtain ⟨hm, hl, hp⟩ := hover
  have hcan : a.history.canRedo = true := (h.edited.canRedo_of_neg hl).trans hp
  have hnone : a.history.next? = none := h.edited.next?_of_neg hl hp
  have hpos := h.edited.position hl
  rw [if_pos hp] at hpos
  rw [leads_dispatchRedo, h.abilities_eq ho, hm]
  simp only [Bool.false_eq_true, if_false, hcan, if_true]
  unfold forward
  rw [Run.leads_bind, Run.leads_get]
  dsimp only
  rw [(h.dispatcher_eq ho).1, hm]
  show (journalHost (inner n) o.journal).redo.Leads w _ _ _
  have hj : (journalHost (inner n) o.journal).journal w = a.history := h.journal
  apply Journal.Host.leads_redo
  · intro hr
    rw [hj, hcan] at hr
    cases hr
  · intro _ _
    rw [hj, hpos]
    exact ⟨rfl, rfl⟩
  · intro i _ hi
    rw [hj, hnone] at hi
    cases hi

/-- A key that stands for neither does nothing. -/
theorem leads_key (h : o.Sane Calm l p a b w) (ho : o.Undisturbed m n x Calm) (hw : o.Willing)
    {key : Value} (hk : ¬ (o.Overdrawn l p w ∧ key = .text "REDO")) :
    (shortcut (inner n) o.dispatcher key).Leads w
      (fun done _ ↦ done = (key.same (.text "UNDO") || key.same (.text "REDO")))
      (fun _ _ ↦ False) False := by
  rw [leads_shortcut]
  split
  · rename_i hu
    exact (h.leads_undo ho hw).mono (fun _ _ _ ↦ by rw [hu, Bool.true_or]) (fun _ _ hv ↦ hv)
  · rename_i hu
    split
    · rename_i hr
      have hnot : ¬ o.Overdrawn l p w := fun hover ↦ hk ⟨hover, Value.same_text.1 hr⟩
      exact (h.leads_redo ho hw hnot).mono (fun _ _ _ ↦ by rw [hr, Bool.or_true])
        (fun _ _ hv ↦ hv)
    · rename_i hr
      show false = _
      rw [Bool.not_eq_true] at hu hr
      rw [hu, hr, Bool.false_or]

theorem leads_key_overdrawn (h : o.Sane Calm l p a b w) (ho : o.Undisturbed m n x Calm)
    (hover : o.Overdrawn l p w) :
    (shortcut (inner n) o.dispatcher (.text "REDO")).Leads w (fun _ _ ↦ False)
      (fun e v ↦ e = .atPosition l ∧ v = w) False := by
  have hu : ¬ (Value.text "REDO").same (.text "UNDO") = true := by decide
  rw [leads_shortcut, if_neg hu, if_pos (Value.same_text.2 rfl)]
  exact h.leads_redo_overdrawn ho hover

end Sane

theorem Served.sane {s : Routes} (h : o.Served n s w) (ho : o.Undisturbed m n x Calm) {l : Int}
    {p : Bool} (hj : (o.start.journal o.journal).Poised l p)
    (ht : (o.start.timeline o.timeline).Poised)
    (hr : ∀ r ∈ s.journal ++ s.timeline, r.keepsTerms = true) :
    o.Sane Calm l (s.journal.foldl Request.pends p)
      (o.edited ⟨o.start.journal o.journal, []⟩ s.journal)
      (o.visited ⟨o.start.timeline o.timeline, []⟩ s.timeline) w := by
  refine ⟨h.stands ho, ?_, ?_⟩
  · exact hj.edited (m := ⟨o.start.journal o.journal, []⟩) fun r hm ↦
      hr r (List.mem_append_left _ hm)
  · exact ht.visited (m := ⟨o.start.timeline o.timeline, []⟩) fun r hm ↦
      Request.whole_of_keepsTerms (hr r (List.mem_append_right _ hm))

/-- If there is something to step to, there has been a step and that is what is returned. If not,
nothing has happened. -/
def Answers (o : Office) (able : Bool) (way : Way) (d : Int) (w : World)
    (out : Outcome World Bool) : Prop :=
  ∃ v, out = .returned able v ∧ if able then o.Stepped way d w v else v = w

theorem answers_of_leads {code : Run World Bool} {able : Bool} {way : Way} {d : Int}
    (h : code.Leads w (fun done v ↦ done = able ∧ if done then o.Stepped way d w v else v = w)
      (fun _ _ ↦ False) False) : o.Answers able way d w (code w) := by
  obtain ⟨_, v, hv, rfl, hstep⟩ := h.exists_returned
  exact ⟨v, hv, hstep⟩

instance {l : Int} {p : Bool} : Decidable (o.Overdrawn l p w) :=
  inferInstanceAs (Decidable (_ ∧ _ ∧ _))

end Office

section Dispatched

variable {o : Office} {w : World} {Calm : World → Prop} {m n x : Nat} {l : Int}
  {limit limit' : Value}

/-- With new histories on integer limits, and edits and states that do not fail, undoing through a
dispatcher never fails, nor does redoing, unless the journal is driven with a negative limit and
something has been added since it was cleared: then redoing always fails. Whatever is returned tells
whether an item that is stored has been called. -/
theorem dispatched_unless_overdrawn (ho : o.Undisturbed m n x Calm) (hw : o.Willing)
    (hj : o.start.journal o.journal = { limit }) (hl : limit.bound? = some l)
    (ht : o.start.timeline o.timeline = { limit := limit' }) (hl' : limit'.bound?.isSome = true)
    {s : Routes} (h : o.Served n s w) (hr : ∀ r ∈ s.journal ++ s.timeline, r.keepsTerms = true) :
    let overdrawn := o.Overdrawn l (s.journal.foldl Request.pends false) w
    o.Answers (w.abilities o.dispatcher).1 .undo (-1) w (dispatchUndo (inner n) o.dispatcher w) ∧
    (if overdrawn then dispatchRedo (inner n) o.dispatcher w = .raised (.atPosition l) w
      else
        o.Answers (w.abilities o.dispatcher).2 .redo 1 w (dispatchRedo (inner n) o.dispatcher w)) ∧
    ∀ key : Value, if overdrawn ∧ key = .text "REDO" then
        shortcut (inner n) o.dispatcher key w = .raised (.atPosition l) w
      else ∃ v, shortcut (inner n) o.dispatcher key w =
        .returned (key.same (.text "UNDO") || key.same (.text "REDO")) v := by
  intro overdrawn
  have hfresh : ({ limit } : Journal Nat).Poised l false :=
    ⟨hl, rfl, rfl, fun _ ↦ ⟨Int.le_refl 0, Int.le_refl 0⟩, fun _ ↦ rfl, fun _ ↦ rfl⟩
  have hfresh' : ({ limit := limit' } : Timeline Nat).Poised := ⟨hl', rfl, rfl⟩
  have hsane := h.sane ho (hj ▸ hfresh) (ht ▸ hfresh') hr
  refine ⟨Office.answers_of_leads (hsane.leads_undo ho hw), ?_, fun key ↦ ?_⟩
  · split
    · rename_i hover
      obtain ⟨e, v, hv, rfl, rfl⟩ := (hsane.leads_redo_overdrawn ho hover).exists_raised
      exact hv
    · rename_i hover
      exact Office.answers_of_leads (hsane.leads_redo ho hw hover)
  · split
    · rename_i hk
      obtain ⟨hover, rfl⟩ := hk
      obtain ⟨e, v, hv, rfl, rfl⟩ := (hsane.leads_key_overdrawn ho hover).exists_raised
      exact hv
    · rename_i hk
      obtain ⟨_, v, hv, rfl⟩ := (hsane.leads_key ho hw hk).exists_returned
      exact ⟨v, hv⟩

end Dispatched

/-- A dispatcher with a negative limit for edits, an edit and two states. -/
def World.scant : World :=
  (World.after {} 1 [.newDispatcher "desk" (.given [("max_command_history", .int (-1))]),
    .edit "plain" (.text "plain") none [] [] none,
    .state "first" (.int 1) (.text "first") none [] none,
    .state "last" (.int 2) (.text "last") none [] none,
    .listen "desk" "state_changed" [.fail .null] none]).get (by decide +kernel)

theorem World.reached_scant : Reached scant := .after (.start false) (Option.some_get _).symm

def Office.scant : Office where
  dispatcher := 0
  journal := 0
  timeline := 0
  edits := .blunt World.scant.items [0] ["plain"]
  states := .blunt World.scant.items [1, 2] ["first", "last"]
  fit _ _ _ := True
  start := World.scant

theorem Office.undisturbed_scant : scant.Undisturbed 0 5 0
    fun w ↦ w.links.all fun l ↦ l.slot.failing := by
  refine undisturbed_blunt World.reached_scant ?_ ?_ (fun _ _ _ ↦ trivial) rfl rfl rfl rfl ?_ ?_ ?_
  all_goals decide +kernel

theorem Office.willing_scant : scant.Willing where
  edits {i} hi called way := by
    obtain rfl : i = 0 := List.mem_singleton.1 hi
    cases way <;> rfl
  states {i} hi called way := by
    obtain rfl | rfl : i = 1 ∨ i = 2 := by simpa [scant, Crew.blunt] using hi
    · cases way <;> rfl
    · cases way <;> rfl
  said i hi := by
    obtain rfl | rfl | rfl : i = 0 ∨ i = 1 ∨ i = 2 := by simpa [scant, Crew.blunt] using hi
    · exact ⟨_, rfl⟩
    · exact ⟨_, rfl⟩
    · exact ⟨_, rfl⟩

/-- The journal fails to redo what has never been undone. The timeline is not concerned. -/
theorem dispatched_unless_overdrawn_switched :
    let o := Office.scant
    let es : List Errand := [.commit 0, .timeline (.add 1), .timeline (.add 2)]
    let es' : List Errand := [.setMode (.text "snapshots"), .undo]
    ∃ s s' w w', o.attend 5 ({}, o.start) es = some (s, w) ∧
      o.attend 5 (s, w) es' = some (s', w') ∧
      o.Answers false .undo (-1) w (dispatchUndo (inner 5) o.dispatcher w) ∧
      dispatchRedo (inner 5) o.dispatcher w = .raised (.atPosition (-1)) w ∧
      o.Answers true .redo 1 w' (dispatchRedo (inner 5) o.dispatcher w') := by
  intro o es es'
  have hof : ∀ e ∈ es ++ es', e.Of o := by
    simp [es, es', o, Errand.Of, Request.Of, Office.scant, Crew.blunt]
  have hseen : ((o.attend 5 ({}, o.start) es).bind fun t ↦ (o.attend 5 t es').map fun u ↦
        (t.1, decide (o.Overdrawn (-1) true t.2), (t.2.abilities o.dispatcher).1,
          u.1, decide (o.Overdrawn (-1) true u.2), (u.2.abilities o.dispatcher).2)) =
      some (⟨[.add 0], [.add 1, .add 2]⟩, true, false,
        ⟨[.add 0], [.add 1, .add 2, .undo]⟩, false, true) := by
    decide +kernel
  obtain ⟨⟨s, w⟩, hw, hseen⟩ := Option.bind_eq_some_iff.1 hseen
  obtain ⟨⟨s', w'⟩, hw', hseen⟩ := Option.map_eq_some_iff.1 hseen
  simp only [Prod.mk.injEq, decide_eq_true_eq, decide_eq_false_iff_not] at hseen
  obtain ⟨rfl, hover, hable, rfl, hnot, hable'⟩ := hseen
  have h := Office.Served.start.attend (fun e he ↦ hof e (List.mem_append_left es' he)) hw
  have h' := h.attend (fun e he ↦ hof e (List.mem_append_right es he)) hw'
  have hj : o.start.journal o.journal = { limit := .int (-1) } := rfl
  have ht : o.start.timeline o.timeline = { limit := .int 50 } := rfl
  obtain ⟨hundo, hredo, -⟩ := dispatched_unless_overdrawn Office.undisturbed_scant
    Office.willing_scant hj rfl ht rfl h (by decide)
  obtain ⟨-, hredo', -⟩ := dispatched_unless_overdrawn Office.undisturbed_scant
    Office.willing_scant hj rfl ht rfl h' (by decide)
  refine ⟨_, _, w, w', hw, hw', hable ▸ hundo, ?_, ?_⟩
  · exact (if_pos hover).mp hredo
  · rw [← hable']
    exact (if_neg hnot).mp hredo'

/-- Nothing has been undone, nor is there an edit left, and redoing fails instead of returning that
it has done nothing. -/
theorem redo_fails_of_negative_limit :
    ((World.after {} 3 [.newDispatcher "desk" (.given [("max_command_history", .int (-1))]),
        .edit "plain" (.text "plain") none [] [] none, .commit "desk" "plain"]).map fun w ↦
      ((w.journal 0).entries, w.abilities 0, (perform (inner 3) (.redo "desk") w).fault?)) =
    some ([], (false, true), some .outOfRange) := by
  decide +kernel

end Session

end Rewind
