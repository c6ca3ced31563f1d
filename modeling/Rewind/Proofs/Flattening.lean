import Rewind.Proofs.Grouping
import Rewind.Proofs.Plain

namespace Rewind

open Session (Way)

variable {σ ι β : Type}

namespace Session.Way

/-- The request that calls edits in a way. -/
def request : Way → Request ι
  | undo => .undo
  | redo | restore => .redo

/-- How the position then moves. -/
def step : Way → Int
  | undo => -1
  | redo | restore => 1

def back : Way → Way
  | undo => redo
  | redo => undo
  | restore => restore

end Session.Way

@[simp]
theorem Session.Way.length_order (way : Way) (xs : List ι) : (way.order xs).length = xs.length := by
  cases way with
  | undo => exact List.length_reverse
  | redo | restore => rfl

/-- What has been called once `xs` are called in turn until one fails, and the fault of that. -/
def inTurn (ends : List (Way × ι) → Way → ι → Option Fault) (way : Way) :
    List ι → List (Way × ι) → List (Way × ι) × Option Fault
  | [], calls => (calls, none)
  | x :: xs, calls =>
    match ends calls way x with
    | none => inTurn ends way xs (calls ++ [(way, x)])
    | some e => (calls ++ [(way, x)], some e)

section Turns

variable {ends : List (Way × ι) → Way → ι → Option Fault} {way : Way} {m : Tally (Journal ι) ι}
  {I : Tally (Journal ι) ι → σ → Prop} {s : σ}

theorem keeps_of_calls {f : β → Run σ Unit} {g : β → ι} {cs : List β}
    (hf : ∀ c ∈ cs, (f c).Calls ends I way (g c)) : ∀ c ∈ cs, (f c).Keeps fun s ↦ ∃ m, I m s :=
  fun c hc _ ⟨_, hs⟩ ↦
    (hf c hc hs).weaken.mono (fun _ _ ht ↦ ⟨_, ht.2⟩) fun _ _ ht ↦ ⟨_, ht.2⟩

/-- Codes that are run in turn end as told. -/
theorem leads_each_inTurn {f : β → Run σ Unit} {g : β → ι} {cs : List β}
    (hf : ∀ c ∈ cs, (f c).Calls ends I way (g c)) (hs : I m s) :
    (Run.each cs f).Leads s
      (fun _ t ↦ (inTurn ends way (cs.map g) m.calls).2 = none ∧
        I { m with calls := (inTurn ends way (cs.map g) m.calls).1 } t)
      (fun e t ↦ (inTurn ends way (cs.map g) m.calls).2 = some e ∧
        I { m with calls := (inTurn ends way (cs.map g) m.calls).1 } t) False := by
  induction cs generalizing m s with
  | nil => exact ⟨rfl, hs⟩
  | cons c cs ih =>
    show (f c >>= fun _ ↦ Run.each cs f).Leads s _ _ False
    rw [Run.leads_bind]
    simp only [List.map_cons, inTurn]
    refine (hf c List.mem_cons_self hs).mono (fun _ t ht ↦ ?_) fun e t ht ↦ ?_
    · rw [ht.1]
      exact ih (fun d hd ↦ hf d (List.mem_cons_of_mem c hd)) ht.2
    · rw [ht.1]
      exact ⟨rfl, ht.2⟩

end Turns

namespace Journal

/-- Some entries stand together next to the position, so that undoing would reverse them, or redoing
apply them again. -/
structure Faces (way : Way) (xs : List ι) (j : Journal ι) : Prop where
  idle : j.replaying = false
  between : ∃ before after, j.entries = before ++ xs ++ after ∧
    j.position = (match way with
      | .undo => before ++ xs
      | .redo | .restore => before).length

theorem move_zero (j : Journal ι) : j.move 0 = j := by simp [move]

theorem move_move (j : Journal ι) (d d' : Int) : (j.move d).move d' = j.move (d + d') := by
  simp [move, Int.add_assoc]

namespace Faces

variable {way : Way} {x : ι} {xs ys : List ι} {j : Journal ι}

/-- Once all are called, they are next to the position on its other side. -/
theorem move (h : j.Faces way xs) (hway : way ≠ .restore) :
    (j.move (way.step * xs.length)).Faces way.back xs := by
  obtain ⟨before, after, he, hp⟩ := h.between
  refine ⟨h.idle, before, after, he, ?_⟩
  cases way with
  | undo | redo =>
    simp only [Journal.move, hp, Way.step, Way.back, List.length_append]
    omega
  | restore => exact absurd rfl hway

/-- What is to be called first stands next to the position, and then the others do. -/
theorem next (h : j.Faces way xs) (hway : way ≠ .restore) (hxs : way.order xs = x :: ys) :
    j.facing way = some x ∧ j.upshot way.request = j.replayed way x way.step ∧
      ∃ xs', way.order xs' = ys ∧ (j.move way.step).Faces way xs' := by
  obtain ⟨before, after, he, hp⟩ := h.between
  have hitem (as bs : List ι) : Position.item? (as ++ x :: bs) as.length = some x := by
    rw [Position.item?_natCast, List.getElem?_append_right (Nat.le_refl _), Nat.sub_self]
    rfl
  cases way with
  | undo =>
    obtain rfl : xs = ys.reverse ++ [x] := by
      rw [← List.reverse_reverse xs]
      exact (congrArg List.reverse hxs).trans List.reverse_cons
    have he : j.entries = (before ++ ys.reverse) ++ x :: after := by simp [he]
    have hp : j.position - 1 = (before ++ ys.reverse).length := by
      rw [hp]
      simp only [List.length_append, List.length_singleton]
      omega
    have hc : j.canUndo = true := by
      simp only [canUndo, decide_eq_true_eq]
      omega
    have hl : j.last? = some x := by rw [last?, hp, he, hitem]
    refine ⟨hl, by simp only [Way.request, upshot, hc, hl, if_true]; rfl, ys.reverse,
      List.reverse_reverse ys, h.idle, before, x :: after, he, ?_⟩
    exact hp
  | redo =>
    obtain rfl : xs = x :: ys := hxs
    have he : j.entries = before ++ x :: (ys ++ after) := by simp [he]
    have hc : j.canRedo = true := by
      simp only [canRedo, hp, he, List.length_append, List.length_cons, decide_eq_true_eq]
      omega
    have hn : j.next? = some x := by rw [next?, hp, he, hitem]
    refine ⟨hn, by simp only [Way.request, upshot, hc, hn, if_true]; rfl, ys, rfl, h.idle,
      before ++ [x], after, by simp [Journal.move, he], ?_⟩
    simp [Journal.move, hp, Way.step]
  | restore => exact absurd rfl hway

end Faces

/-- Makes a request, and fails with it only if it leaves the position where it is: a fault of
telling what has been done does not count. -/
def Host.advance (h : Host σ ι) (r : Request ι) : Run σ Unit := do
  let position := (← h.look).position
  (h.handle r).recover fun e ↦ do
    if (← h.look).position = position then Run.raise e

namespace Host.Plain

variable {h : Host σ ι} {P : ι → Prop} {E : Fault → Prop}
  {ends : List (Way × ι) → Way → ι → Option Fault} {I : Tally (Journal ι) ι → σ → Prop}
  {m : Tally (Journal ι) ι} {s : σ} {way : Way} {x : ι} {xs : List ι}

/-- When the code next to the position has been called and has not failed, the position moves. -/
theorem leads_step (hh : h.Plain P E ends I) (hs : I m s) (hidle : m.history.replaying = false)
    (hway : way ≠ .restore) (hx : m.history.facing way = some x) (hP : P x)
    (hu : m.history.upshot way.request = m.history.replayed way x way.step) :
    (h.handle way.request).Leads s
      (fun _ t ↦ ends m.calls way x = none ∧
        I { m.call way x with history := m.history.move way.step } t)
      (fun e t ↦ ends m.calls way x = none ∧
          I { m.call way x with history := m.history.move way.step } t ∨
        ends m.calls way x = some e ∧ I (m.call way x) t) False := by
  have hmoved (hn : ends m.calls way x = none) :
      m.after ends (m.history.replayed way x way.step) =
        { m.call way x with history := m.history.move way.step } := by
    simp only [replayed, Tally.after, hn, ← hidle]
  have hstays {e : Fault} (he : ends m.calls way x = some e) :
      m.after ends (m.history.replayed way x way.step) = m.call way x := by
    simp only [replayed, Tally.after, he, ← hidle]
    rfl
  have hallows : (m.history.upshot way.request).Allows ends E I m
      (fun _ t ↦ ends m.calls way x = none ∧
        I { m.call way x with history := m.history.move way.step } t)
      (fun e t ↦ ends m.calls way x = none ∧
          I { m.call way x with history := m.history.move way.step } t ∨
        ends m.calls way x = some e ∧ I (m.call way x) t) := by
    rw [hu]
    constructor
    · intro t hn ht
      exact ⟨hn, hmoved hn ▸ ht⟩
    · rintro e t (⟨hn, -⟩ | he) ht
      · exact .inl ⟨hn, hmoved hn ▸ ht⟩
      · exact .inr ⟨he, hstays he ▸ ht⟩
  have hown (y : ι) (hy : m.history.facing way = some y) : P y := by
    rw [hx] at hy
    cases hy
    exact hP
  cases way with
  | undo => exact hh.leads_undo hs hown hallows
  | redo => exact hh.leads_redo hs hown hallows
  | restore => exact absurd rfl hway

theorem leads_advance (hh : h.Plain P E ends I) (hs : I m s) (hidle : m.history.replaying = false)
    (hway : way ≠ .restore) (hx : m.history.facing way = some x) (hP : P x)
    (hu : m.history.upshot way.request = m.history.replayed way x way.step) :
    (h.advance way.request).Leads s
      (fun _ t ↦ ends m.calls way x = none ∧
        I { m.call way x with history := m.history.move way.step } t)
      (fun e t ↦ ends m.calls way x = some e ∧ I (m.call way x) t) False := by
  unfold advance
  rw [Run.leads_bind, leads_look, hh.journal hs, Run.leads_recover]
  refine (hh.leads_step hs hidle hway hx hP hu).mono (fun _ _ ht ↦ ht) fun e t ht ↦ ?_
  rw [Run.leads_bind, leads_look]
  rcases ht with ⟨hn, ht⟩ | ⟨he, ht⟩
  · have hmoved : (m.history.move way.step).position ≠ m.history.position := by
      simp only [Journal.move]
      cases way <;> simp only [Way.step] <;> omega
    rw [hh.journal ht, if_neg hmoved]
    exact ⟨hn, ht⟩
  · have hstays : (m.call way x).history.position = m.history.position := rfl
    rw [hh.journal ht, if_pos hstays]
    exact ⟨he, ht⟩

/-- One request after the other calls what stands next to the position, until one fails. -/
theorem leads_advances (hh : h.Plain P E ends I) (hs : I m s) (hway : way ≠ .restore)
    (hf : m.history.Faces way xs) (hP : ∀ x ∈ xs, P x) :
    (Run.each (List.replicate xs.length way.request) h.advance).Leads s
      (fun _ t ↦ (inTurn ends way (way.order xs) m.calls).2 = none ∧
        I ⟨m.history.move (way.step * xs.length), (inTurn ends way (way.order xs) m.calls).1⟩ t)
      (fun e t ↦ (inTurn ends way (way.order xs) m.calls).2 = some e ∧ ∃ d < xs.length,
        I ⟨m.history.move (way.step * d), (inTurn ends way (way.order xs) m.calls).1⟩ t) False := by
  rw [← way.length_order xs]
  generalize hys : way.order xs = ys
  induction ys generalizing m s xs with
  | nil =>
    refine ⟨rfl, ?_⟩
    rw [List.length_nil, Int.natCast_zero, Int.mul_zero, move_zero]
    exact hs
  | cons x ys ih =>
    obtain ⟨hx, hu, xs', hxs', hf'⟩ := hf.next hway hys
    have hmem {y : ι} (hy : y ∈ x :: ys) : P y := hP y (Way.mem_order.1 (hys ▸ hy))
    have hP' (y : ι) (hy : y ∈ xs') : P y :=
      hmem (List.mem_cons_of_mem x (hxs' ▸ Way.mem_order.2 hy))
    have hmoves (d : Nat) : (m.history.move way.step).move (way.step * d) =
        m.history.move (way.step * (d + 1 : Nat)) := by
      rw [move_move, Int.natCast_succ, Int.mul_add, Int.mul_one, Int.add_comm]
    show (h.advance way.request >>= fun _ ↦
      Run.each (List.replicate ys.length way.request) h.advance).Leads s _ _ False
    rw [Run.leads_bind]
    refine (hh.leads_advance hs hf.idle hway hx (hmem List.mem_cons_self) hu).mono
      (fun _ t ht ↦ ?_) fun e t ht ↦ ?_
    · simp only [inTurn, ht.1]
      refine (ih ht.2 hf' hP' hxs').mono (fun _ u hu ↦ ?_) fun e u hu ↦ ?_
      · exact ⟨hu.1, hmoves _ ▸ hu.2⟩
      · obtain ⟨he, d, hd, hu⟩ := hu
        exact ⟨he, d + 1, Nat.succ_lt_succ hd, hmoves d ▸ hu⟩
    · simp only [inTurn, ht.1]
      refine ⟨trivial, 0, Nat.zero_lt_succ _, ?_⟩
      rw [Int.natCast_zero, Int.mul_zero, move_zero]
      exact ht.2

/-- What is asked to be recorded is recorded, if there is room for any number of edits. -/
theorem exists_recorded (hh : h.Plain P E ends I) (hs : I m s)
    (he : m.history.enabled.truth = true) (hidle : m.history.replaying = false)
    (hroom : m.history.limit.room? = some 0) (hr : m.history.InRange) (hP : ∀ x ∈ xs, P x) :
    ∃ t j, (Script.all (xs.map .add)).play h.handle s = .returned () t ∧ I ⟨j, m.calls⟩ t ∧
      j.done = m.history.done ++ xs ∧ j.Faces .undo xs := by
  suffices hrecorded : ∃ t j, (Script.all (xs.map .add)).play h.handle s = .returned () t ∧
      I ⟨j, m.calls⟩ t ∧ j.replaying = false ∧ j.done = m.history.done ++ xs ∧ j.InRange by
    obtain ⟨t, j, ht, hj, hidle, hdone, hrange⟩ := hrecorded
    refine ⟨t, j, ht, hj, hdone, hidle, m.history.done, j.todo, ?_, ?_⟩
    · rw [← hdone, done_append_todo]
    · rw [← hrange.length_done, hdone]
  induction xs generalizing m s with
  | nil => exact ⟨s, m.history, rfl, hs, hidle, (List.append_nil _).symm, hr⟩
  | cons x xs ih =>
    have hx : P x := hP x List.mem_cons_self
    have htrim : (m.history.push x).trim = .ok (m.history.push x) := by
      rw [trim_push hroom, newest_zero]
      simp [push]
    have hadd : (h.handle (.add x)).Leads s (fun _ ↦ I ⟨m.history.push x, m.calls⟩)
        (fun _ ↦ I ⟨m.history.push x, m.calls⟩) False := by
      refine hh.leads_add hs hx ?_
      rw [upshot_add_recorded he hidle, htrim]
      exact ⟨fun _ _ ht ↦ ht, fun _ _ _ ht ↦ ht⟩
    obtain ⟨t, ht, hpush⟩ := Script.exists_played hadd
    obtain ⟨u, j, hu, hj, hi, hdone, hrange⟩ := ih hpush he hidle hroom (.push _ x)
      fun y hy ↦ hP y (List.mem_cons_of_mem x hy)
    refine ⟨u, j, (Script.play_all_append ht).trans hu, hj, hi, ?_, hrange⟩
    rw [hdone, done_push, List.append_assoc]
    rfl

end Host.Plain

end Journal

namespace Session

/-- What a journal records leaves it alone while it is replayed, those who listen always do, and the
groups stay as they are. `I` tells what the journal is like and which edits have been called. -/
structure Parts.Played (t : Parts) (root n k : Nat)
    (ends : List (Way × Nat) → Way → Nat → Option Fault)
    (I : Tally (Journal Nat) Nat → World → Prop) : Prop where
  plain : (journalHost (inner (n + 1)) k).Plain (· ∈ t.leaves) (fun _ ↦ True) ends I
  holds : ∀ {m w}, I m w → w.Holds (.group root t .nil)
  calls : ∀ way ≠ .restore, ∀ c ∈ t.calls n,
    (callAt way c).Calls ends (Journal.Holding I) way c.2

/-- What has been called of the parts of a group when the group has been called. -/
def Parts.expand (t : Parts) (ends : List (Way × Nat) → Way → Nat → Option Fault)
    (start calls : List (Way × Nat)) : List (Way × Nat) :=
  calls.foldl (fun called c ↦ (inTurn ends c.1 (c.1.order t.leaves) called).1) start

namespace Parts.Played

variable {t : Parts} {root n k : Nat} {ends : List (Way × Nat) → Way → Nat → Option Fault}
  {I : Tally (Journal Nat) Nat → World → Prop} {way : Way}

/-- A group calls its edits in turn. -/
theorem leads_group (h : t.Played root n k ends I) (hn : t.height ≤ n) (hway : way ≠ .restore)
    {m : Tally (Journal Nat) Nat} {w : World} (hw : Journal.Holding I m w) :
    ((inner (n + 1)).call way root).Leads w
      (fun _ v ↦ (inTurn ends way (way.order t.leaves) m.calls).2 = none ∧ Journal.Holding I
        { m with calls := (inTurn ends way (way.order t.leaves) m.calls).1 } v)
      (fun e v ↦ (inTurn ends way (way.order t.leaves) m.calls).2 = some e ∧ Journal.Holding I
        { m with calls := (inTurn ends way (way.order t.leaves) m.calls).1 } v) False := by
  have hgroup := group_agree hway hn (fun w ⟨m, hw⟩ ↦ h.holds hw.2)
    (keeps_of_calls (h.calls way hway))
  have hcalls : (way.order (t.calls n)).map Prod.snd = way.order t.leaves := by
    rw [Way.map_order, map_calls]
  rw [← hcalls]
  exact (leads_each_inTurn (fun c hc ↦ h.calls way hway c (Way.mem_order.1 hc)) hw).of_eq
    (hgroup w ⟨m, hw⟩).1

/-- As one edit, a group ends as its edits do in turn. -/
theorem group_calls (h : t.Played root n k ends I) (hn : t.height ≤ n) (hway : way ≠ .restore)
    (start : List (Way × Nat)) :
    ((inner (n + 1)).call way root).Calls
      (fun calls way _ ↦ (inTurn ends way (way.order t.leaves) (t.expand ends start calls)).2)
      (Journal.Holding fun m ↦ I ⟨m.history, t.expand ends start m.calls⟩) way root := by
  intro m w hw
  have hexpand : t.expand ends start (m.calls ++ [(way, root)]) =
      (inTurn ends way (way.order t.leaves) (t.expand ends start m.calls)).1 := by
    simp [Parts.expand]
  have hgroup := h.leads_group hn hway (m := ⟨m.history, t.expand ends start m.calls⟩) hw
  refine hgroup.mono (fun _ v hv ↦ ⟨hv.1, hw.1, ?_⟩) fun e v hv ↦ ⟨hv.1, hw.1, ?_⟩
  · show I ⟨m.history, t.expand ends start (m.calls ++ [(way, root)])⟩ v
    exact hexpand ▸ hv.2.2
  · show I ⟨m.history, t.expand ends start (m.calls ++ [(way, root)])⟩ v
    exact hexpand ▸ hv.2.2

theorem group_plain (h : t.Played root n k ends I) (hn : t.height ≤ n)
    (start : List (Way × Nat)) :
    (journalHost (inner (n + 1)) k).Plain (· = root) (fun _ ↦ True)
      (fun calls way _ ↦ (inTurn ends way (way.order t.leaves) (t.expand ends start calls)).2)
      (fun m ↦ I ⟨m.history, t.expand ends start m.calls⟩) where
  journal {m w} hw := h.plain.journal (m := ⟨m.history, t.expand ends start m.calls⟩) hw
  update {m w} f hw := h.plain.update (m := ⟨m.history, t.expand ends start m.calls⟩) f hw
  describe _ _ _ := trivial
  revert {m w x} hw hx := by
    obtain ⟨⟨g, hg, -⟩, -⟩ := h.holds hw
    rw [show x = root from hx]
    refine ⟨(inner (n + 1)).call .undo root, ?_, h.group_calls hn Way.noConfusion start⟩
    simp only [journalHost, World.allows, hg]
    rfl
  reapply {m w x} hw hx := by
    obtain ⟨⟨g, hg, -⟩, -⟩ := h.holds hw
    rw [show x = root from hx]
    refine ⟨(inner (n + 1)).call .redo root, ?_, h.group_calls hn Way.noConfusion start⟩
    simp only [journalHost, World.allows, hg]
    rfl
  announce notice hw := h.plain.announce notice hw
  log r hw := h.plain.log r hw

theorem exists_recorded (h : t.Played root n k ends I) (hn : t.height ≤ n)
    {m : Tally (Journal Nat) Nat} {w : World} (hw : I m w)
    (he : m.history.enabled.truth = true) (hidle : m.history.replaying = false)
    (hroom : m.history.limit.room? = some 0) (hr : m.history.InRange) {xs : List Nat}
    (hxs : xs = [root] ∨ xs = t.leaves) :
    ∃ v j, (Script.all (xs.map .add)).play (journalHost (inner (n + 1)) k).handle w =
        .returned () v ∧ I ⟨j, m.calls⟩ v ∧ j.done = m.history.done ++ xs ∧ j.Faces .undo xs := by
  rcases hxs with rfl | rfl
  · exact (h.group_plain hn m.calls).exists_recorded (m := ⟨m.history, []⟩) hw he hidle hroom hr
      fun x hx ↦ List.mem_singleton.1 hx
  · exact h.plain.exists_recorded hw he hidle hroom hr fun x hx ↦ hx

/-- One request calls the edits of a group in turn. -/
theorem exists_advanced (h : t.Played root n k ends I) (hn : t.height ≤ n) (hway : way ≠ .restore)
    {j : Journal Nat} {calls : List (Way × Nat)} {w : World} (hw : I ⟨j, calls⟩ w)
    (hf : j.Faces way [root]) :
    let turn := inTurn ends way (way.order t.leaves) calls
    let one := (journalHost (inner (n + 1)) k).advance way.request w
    ∃ v j', one.state? = some v ∧ one.fault? = turn.2 ∧ I ⟨j', turn.1⟩ v ∧
      (turn.2 = none → j'.Faces way.back [root]) ∧ (turn.2 ≠ none → j' = j) := by
  intro turn one
  have horder : way.order [root] = [root] := by
    cases way with
    | undo | redo | restore => rfl
  obtain ⟨hx, hu, -⟩ := hf.next hway horder
  have hone := (h.group_plain hn calls).leads_advance (m := ⟨j, []⟩) hw hf.idle hway hx rfl hu
  obtain ⟨v, hv, hfault, hmoved, hstays⟩ := hone.exists_ended_as
  by_cases hn : turn.2 = none
  · refine ⟨v, j.move way.step, hv, hfault, hmoved hn, fun _ ↦ ?_, absurd hn⟩
    simpa using hf.move hway
  · exact ⟨v, j, hv, hfault, hstays hn, fun h ↦ absurd h hn, fun _ ↦ rfl⟩

/-- As many requests as there are edits call them in turn. -/
theorem exists_advances (h : t.Played root n k ends I) (hway : way ≠ .restore)
    {j : Journal Nat} {calls : List (Way × Nat)} {w : World} (hw : I ⟨j, calls⟩ w)
    (hf : j.Faces way t.leaves) :
    let turn := inTurn ends way (way.order t.leaves) calls
    let many := Run.each (List.replicate t.leaves.length way.request)
      (journalHost (inner (n + 1)) k).advance w
    ∃ v j', many.state? = some v ∧ many.fault? = turn.2 ∧ I ⟨j', turn.1⟩ v ∧
      (turn.2 = none → j'.Faces way.back t.leaves) := by
  intro turn many
  obtain ⟨v, hv, hfault, hmoved, hstays⟩ :=
    (h.plain.leads_advances hw hway hf fun x hx ↦ hx).exists_ended_as
  by_cases hn : turn.2 = none
  · exact ⟨v, _, hv, hfault, hmoved hn, fun _ ↦ hf.move hway⟩
  · obtain ⟨d, -, hd⟩ := hstays hn
    exact ⟨v, _, hv, hfault, hd, fun h ↦ absurd h hn⟩

end Parts.Played

/-- However edits are grouped: a group calls just the edits in it, from the first to the last to
redo and from the last to the first to undo, and if one fails, no further one. So it makes no
difference to what is called, to what comes of it and to how it ends whether a journal with any
number of entries records the group and is asked once or records its edits and is asked as many
times. If each edit undone reverses it redone where it is, the group undone reverses the group
redone. -/
theorem group_plays_parts {root n : Nat} {t : Parts} (hn : t.height ≤ n) :
    (t.calls n).map Prod.snd = t.leaves ∧
    (∀ (way : Way) (I : World → Prop), way ≠ .restore →
      (∀ w, I w → w.Holds (.group root t .nil)) →
      (∀ c ∈ t.calls n, (callAt way c).Keeps I) → ∀ w, I w →
        (inner (n + 1)).call way root w = Run.each (way.order (t.calls n)) (callAt way) w ∧
        ∀ e v, (inner (n + 1)).call way root w = .raised e v ↔ ∃ called c left u,
          way.order (t.calls n) = called ++ c :: left ∧
          Run.each called (callAt way) w = .returned () u ∧ callAt way c u = .raised e v) ∧
    (∀ (k : Nat) (ends : List (Way × Nat) → Way → Nat → Option Fault)
      (I : Tally (Journal Nat) Nat → World → Prop), t.Played root n k ends I →
      let h := journalHost (inner (n + 1)) k
      (∀ m w, I m w → m.history.enabled.truth = true → m.history.replaying = false →
        m.history.limit.room? = some 0 → m.history.InRange →
        ∀ xs, xs = [root] ∨ xs = t.leaves → ∃ v j,
          (Script.all (xs.map .add)).play h.handle w = .returned () v ∧ I ⟨j, m.calls⟩ v ∧
          j.done = m.history.done ++ xs ∧ j.Faces .undo xs) ∧
      ∀ (way : Way) (j k : Journal Nat) (calls : List (Way × Nat)) (w w' : World),
        way ≠ .restore → I ⟨j, calls⟩ w → j.Faces way [root] → I ⟨k, calls⟩ w' →
        k.Faces way t.leaves →
        let turn := inTurn ends way (way.order t.leaves) calls
        let one := h.advance way.request w
        let many := Run.each (List.replicate t.leaves.length way.request) h.advance w'
        ∃ v v' j' k', one.state? = some v ∧ many.state? = some v' ∧ one.fault? = turn.2 ∧
          many.fault? = turn.2 ∧ I ⟨j', turn.1⟩ v ∧ I ⟨k', turn.1⟩ v' ∧
          (∀ {α : Type} (live : World → α) (after : List (Way × Nat) → α),
            (∀ m w, I m w → live w = after m.calls) → live v = live v') ∧
          (turn.2 = none → j'.Faces way.back [root] ∧ k'.Faces way.back t.leaves) ∧
          (turn.2 ≠ none → j' = j)) ∧
    ∀ {α : Type} (live : World → α) (I : World → Prop),
      (∀ w, I w → w.Holds (.group root t .nil)) →
      (∀ way ≠ .restore, ∀ c ∈ t.calls n, (callAt way c).Keeps I) → ∀ w v, I w →
        (inner (n + 1)).call .redo root w = .returned () v →
        (∀ called c left u u', t.calls n = called ++ c :: left →
          Run.each called (callAt .redo) w = .returned () u → callAt .redo c u = .returned () u' →
          (callAt .undo c).Reverses I live u u') →
        ((inner (n + 1)).call .undo root).Reverses I live w v := by
  refine ⟨t.map_calls n, fun way I hway hg ht w hw ↦ ?_, fun k ends I hp ↦ ⟨?_, ?_⟩, ?_⟩
  · have hsame := (group_agree hway hn hg ht w hw).1
    exact ⟨hsame, fun e v ↦ hsame ▸ Run.each_raised_iff⟩
  · intro m w hw he hidle hroom hr xs hxs
    exact hp.exists_recorded hn hw he hidle hroom hr hxs
  · intro way j j' calls w w' hway hw hj hw' hj'
    obtain ⟨v, k, hv, hf, hk, hface, hstays⟩ := hp.exists_advanced hn hway hw hj
    obtain ⟨v', k', hv', hf', hk', hface'⟩ := hp.exists_advances hway hw' hj'
    refine ⟨v, v', k, k', hv, hv', hf, hf', hk, hk', fun live after hlive ↦ ?_,
      fun hn ↦ ⟨hface hn, hface' hn⟩, hstays⟩
    rw [hlive _ _ hk, hlive _ _ hk']
  · intro α live I hg ht w v hw hv hreverses x hx hlive
    have hredo := (group_agree Way.noConfusion hn hg (ht .redo Way.noConfusion) w hw).1
    have hundo := (group_agree Way.noConfusion hn hg (ht .undo Way.noConfusion) x hx).1
    rw [hundo]
    exact Run.reverses_each (hredo.symm.trans hv) hreverses x hx hlive

/-- Two edits that select a lamp or nothing, and groups of them. -/
def World.bundle (j : Journal Nat) (lit : Bool) : World where
  journals := [j]
  selections := [⟨if lit then [.text "lamp"] else []⟩]
  items := [.change ⟨"on", .null, .selection 0, [], [.text "lamp"]⟩,
    .change ⟨"off", .null, .selection 0, [.text "lamp"], []⟩, .group ⟨"within", .null, #[1]⟩,
    .group ⟨"empty", .null, #[]⟩, .group ⟨"all", .null, #[0, 2, 3, 0]⟩]

def Parts.bundle : Parts := .edit 0 (.group 2 (.edit 1 .nil) (.group 3 .nil (.edit 0 .nil)))

/-- Whether the lamp is selected once edits have been called. -/
def lit (calls : List (Way × Nat)) : Bool := calls.getLast?.any fun c ↦ (c.1 == .redo) == (c.2 == 0)

/-- What is left of the edits that have been called. -/
def lamp (m : Tally (Journal Nat) Nat) : World := .bundle m.history (lit m.calls)

theorem Parts.mem_bundle {i : Nat} (h : i ∈ bundle.leaves) : i = 0 ∨ i = 1 := by
  have h : i = 0 ∨ i = 1 ∨ i = 0 := by simpa [bundle, leaves] using h
  omega

theorem call_bundle (n : Nat) {way : Way} (hway : way ≠ .restore) {i : Nat}
    (hi : i ∈ Parts.bundle.leaves) (j : Journal Nat) (b : Bool) :
    (inner (n + 1)).call way i (.bundle j b) = .returned () (.bundle j (lit [(way, i)])) := by
  obtain rfl | rfl := Parts.mem_bundle hi
  all_goals
    cases way with
    | undo | redo => cases b <;> rfl
    | restore => exact absurd rfl hway

theorem lamp_call (m : Tally (Journal Nat) Nat) (way : Way) (i : Nat) :
    lamp (m.call way i) = .bundle m.history (lit [(way, i)]) := by
  have hlit : lit (m.call way i).calls = lit [(way, i)] := by simp [Tally.call, lit]
  unfold lamp
  rw [hlit]
  rfl

theorem call_lamp (n : Nat) {way : Way} (hway : way ≠ .restore) {i : Nat}
    (hi : i ∈ Parts.bundle.leaves) (m : Tally (Journal Nat) Nat) :
    (inner (n + 1)).call way i (lamp m) = .returned () (lamp (m.call way i)) := by
  rw [lamp_call]
  exact call_bundle n hway hi _ _

theorem calls_lamp (n : Nat) {way : Way} (hway : way ≠ .restore) {i : Nat}
    (hi : i ∈ Parts.bundle.leaves) :
    ((inner (n + 1)).call way i).Calls (fun _ _ _ ↦ none)
      (fun m w ↦ w = lamp m) way i := by
  rintro m _ rfl
  unfold Run.Leads
  rw [call_lamp n hway hi]
  exact ⟨rfl, rfl⟩

theorem callAt_lamp {way : Way} (hway : way ≠ .restore) : ∀ c ∈ Parts.bundle.calls 2,
    (callAt way c).Calls (fun _ _ _ ↦ none) (fun m w ↦ w = lamp m) way c.2 := by
  intro c hc
  obtain rfl | rfl | rfl : c = (2, 0) ∨ c = (1, 1) ∨ c = (2, 0) := by
    simpa [Parts.bundle, Parts.calls] using hc
  · exact calls_lamp 1 hway (by decide)
  · exact calls_lamp 0 hway (by decide)
  · exact calls_lamp 1 hway (by decide)

theorem played_lamp : Parts.bundle.Played 4 2 0 (fun _ _ _ ↦ none) fun m w ↦ w = lamp m where
  plain :=
    { journal := by
        rintro m _ rfl
        rfl
      update := by
        rintro m _ f rfl
        rfl
      describe _ _ _ := trivial
      revert := by
        rintro m _ i rfl hi
        refine ⟨(inner 3).call .undo i, ?_, ?_⟩
        · obtain rfl | rfl := Parts.mem_bundle hi
          · rfl
          · rfl
        · apply Journal.Holding.calls
          exact calls_lamp 2 Way.noConfusion hi
      reapply := by
        rintro m _ i rfl hi
        refine ⟨(inner 3).call .redo i, ?_, ?_⟩
        · obtain rfl | rfl := Parts.mem_bundle hi
          · rfl
          · rfl
        · apply Journal.Holding.calls
          exact calls_lamp 2 Way.noConfusion hi
      announce := by
        rintro m _ notice rfl
        cases notice <;> exact rfl
      log := by
        rintro m _ r rfl
        exact rfl }
  holds := by
    rintro m _ rfl
    exact ⟨⟨_, rfl, rfl⟩, ⟨⟨_, rfl, rfl⟩, trivial, ⟨_, rfl, rfl⟩, trivial, trivial⟩, trivial⟩
  calls way hway c hc := by
    apply Journal.Holding.calls
    exact callAt_lamp hway c hc

/-- Redone and undone, the lamp is as it was, though one edit is called twice. Recorded as one or as
three, it ends as it ends when all is undone. -/
theorem group_plays_parts_bundle :
    let h := journalHost (inner 3) 0
    let live (w : World) := (w.selection 0).nodes
    let w := lamp ⟨{}, [(.redo, 0)]⟩
    ∃ v v' u u', (Script.all [.add 4]).play h.handle w = .returned () v ∧
      (Script.all [.add 0, .add 1, .add 0]).play h.handle w = .returned () v' ∧
      (h.advance .undo v).state? = some u ∧
      (Run.each [.undo, .undo, .undo] h.advance v').state? = some u' ∧ live u = live u' ∧
      (inner 3).call .redo 4 (.bundle {} false) = .returned () w ∧
      ((inner 3).call .undo 4).Reverses (fun w ↦ ∃ m, w = lamp m) live (.bundle {} false) w := by
  intro h live w
  obtain ⟨-, hrow, hplayed, hreverses⟩ :=
    @group_plays_parts 4 2 .bundle (by decide)
  obtain ⟨hrecord, hadvance⟩ := hplayed 0 _ _ played_lamp
  obtain ⟨v, j, hv, hj, -, hf⟩ := hrecord _ w rfl rfl rfl rfl ⟨Int.le_refl 0, Int.le_refl 0⟩ [4]
    (.inl rfl)
  obtain ⟨v', j', hv', hj', -, hf'⟩ := hrecord _ w rfl rfl rfl rfl ⟨Int.le_refl 0, Int.le_refl 0⟩
    [0, 1, 0] (.inr rfl)
  obtain ⟨u, u', -, -, hu, hu', -, -, -, -, hlive, -⟩ :=
    hadvance .undo j j' _ v v' Way.noConfusion hj hf hj' hf'
  have hsame : live u = live u' := hlive live (fun calls ↦ live (lamp ⟨{}, calls⟩))
    fun m w hw ↦ by rw [hw]; rfl
  have hholds (w : World) (hw : ∃ m, w = lamp m) : w.Holds (.group 4 .bundle .nil) :=
    hw.elim fun _ hw ↦ played_lamp.holds hw
  have hredo : (inner 3).call .redo 4 (.bundle {} false) = .returned () w :=
    (hrow .redo _ Way.noConfusion hholds (keeps_of_calls (callAt_lamp Way.noConfusion)) _
      ⟨⟨{}, []⟩, rfl⟩).1.trans rfl
  refine ⟨v, v', u, u', hv, hv', hu, hu', hsame, hredo, ?_⟩
  refine hreverses live _ hholds (fun way hway ↦ keeps_of_calls (callAt_lamp hway)) _ _
    ⟨⟨{}, []⟩, rfl⟩ hredo ?_
  rintro called c left x x' hc hx - _ ⟨m, rfl⟩ -
  match called, hc with
  | [], hc =>
    cases hc
    cases hx
    exact ⟨_, call_lamp 1 Way.noConfusion (by decide) m, ⟨_, rfl⟩, by rw [lamp_call]; rfl⟩
  | [_], hc =>
    cases hc
    cases hx
    exact ⟨_, call_lamp 0 Way.noConfusion (by decide) m, ⟨_, rfl⟩, by rw [lamp_call]; rfl⟩
  | [_, _], hc =>
    cases hc
    cases hx
    exact ⟨_, call_lamp 1 Way.noConfusion (by decide) m, ⟨_, rfl⟩, by rw [lamp_call]; rfl⟩
  | _ :: _ :: _ :: _, hc => simp [Parts.calls, Parts.bundle] at hc

end Session

end Rewind
