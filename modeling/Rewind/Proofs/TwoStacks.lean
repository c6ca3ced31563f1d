import Mathlib.Data.List.Basic
import Rewind.Proofs.Limit
import Rewind.Proofs.Stage

namespace Rewind

open Session (Way)

variable {ε ι ν : Type}

namespace Stage

/-- The code that has been entered, in order. -/
def calls (s : Stage ε ι ν) : List (Way × ι) :=
  s.past.reverse.filterMap fun
    | (.entered way x, _) => some (way, x)
    | _ => none

def answers (s : Stage ε ι ν) : List (Option Fault) :=
  s.past.reverse.filterMap fun
    | (.answered _ fault, _) => some fault
    | _ => none

variable (s : Stage ε ι ν)

@[simp]
theorem calls_update (f : ε → ε) : (s.update f).calls = s.calls := rfl

@[simp]
theorem answers_update (f : ε → ε) : (s.update f).answers = s.answers := rfl

@[simp]
theorem calls_note (a : Act ι ν) :
    (s.note a).calls = s.calls ++ match a with
      | .entered way x => [(way, x)]
      | _ => [] := by
  cases a <;> simp [calls, note]

@[simp]
theorem answers_note (a : Act ι ν) :
    (s.note a).answers = s.answers ++ match a with
      | .answered _ fault => [fault]
      | _ => [] := by
  cases a <;> simp [answers, note]

end Stage

/-- Nobody calls back, nothing fails. -/
structure Cast.Quiet (c : Cast ε ι ν) : Prop where
  code : ∀ s way x, c.code s way x = .finish
  hears : ∀ s n, c.hears s n = .finish
  describe : ∀ s x, ∃ v, c.describe s x = .ok v

namespace Cast.Quiet

variable {c : Cast ε ι ν} {serve : Request ι → Run (Stage ε ι ν) Unit} {s : Stage ε ι ν}
  {Q : Unit → Stage ε ι ν → Prop} {E : Fault → Stage ε ι ν → Prop} {X : Prop}

theorem leads_enter (hc : c.Quiet) {way : Way} {x : ι} :
    (c.enter serve way x).Leads s Q E X ↔
      Q () ((s.note (.entered way x)).note (.left way x none)) := by
  simp only [enter, Run.leads_bind, Run.leads_get, Run.leads_modify, Run.leads_closing, hc.code,
    Script.leads_finish]

theorem leads_announce (hc : c.Quiet) {n : ν} :
    (c.announce serve n).Leads s Q E X ↔ Q () (s.note (.announced n)) := by
  simp only [announce, Run.leads_bind, Run.leads_get, Run.leads_modify, Run.leads_recover, hc.hears,
    Script.leads_finish]

end Cast.Quiet

/-- Edits in effect, the oldest first, and edits that have been undone, the next one to redo first.
There is room for so many edits in effect, where zero means any number. -/
structure Stacks (ι : Type) where
  done : List ι := []
  todo : List ι := []
  room : Nat := 0
  enabled : Bool := true

namespace Stacks

def step (m : Stacks ι) : Request ι → Stacks ι
  | .add x => if m.enabled then { m with done := newest m.room (m.done ++ [x]), todo := [] } else m
  | .undo =>
    match m.done.getLast? with
    | some x => { m with done := m.done.dropLast, todo := x :: m.todo }
    | none => m
  | .redo =>
    match m.todo with
    | x :: todo => { m with done := m.done ++ [x], todo }
    | [] => m
  | .clear => { m with done := [], todo := [] }
  | .setEnabled v => { m with enabled := v.truth }
  | .setLimit v => { m with room := v.room?.getD 0 }

def calls (m : Stacks ι) : Request ι → List (Way × ι)
  | .undo => m.done.getLast?.toList.map (.undo, ·)
  | .redo => m.todo.head?.toList.map (.redo, ·)
  | _ => []

def fault? (m : Stacks ι) : Request ι → Option Fault
  | .undo => if m.done.isEmpty then some .nothingToUndo else none
  | .redo => if m.todo.isEmpty then some .nothingToRedo else none
  | _ => none

def after (m : Stacks ι) (rs : List (Request ι)) : Stacks ι := rs.foldl step m

def callsOf (m : Stacks ι) : List (Request ι) → List (Way × ι)
  | [] => []
  | r :: rs => m.calls r ++ (m.step r).callsOf rs

def faultsOf (m : Stacks ι) : List (Request ι) → List (Option Fault)
  | [] => []
  | r :: rs => m.fault? r :: (m.step r).faultsOf rs

end Stacks

/-- A journal that holds the two stacks one after the other, with the position between them. -/
structure Journal.Holds (j : Journal ι) (m : Stacks ι) : Prop where
  entries : j.entries = m.done ++ m.todo
  position : j.position = m.done.length
  room : j.limit.room? = some m.room
  enabled : j.enabled.truth = m.enabled
  idle : j.replaying = false

namespace Journal.Holds

variable {j : Journal ι} {m : Stacks ι}

theorem done_eq (h : j.Holds m) : j.done = m.done := by
  rw [done, h.position, Position.before_natCast, h.entries, List.take_left]

theorem todo_eq (h : j.Holds m) : j.todo = m.todo := by
  rw [todo, h.done_eq, h.entries, List.drop_left]

theorem inRange (h : j.Holds m) : j.InRange := by
  have hl := congrArg List.length h.entries
  rw [List.length_append] at hl
  have hp := h.position
  exact ⟨by omega, by omega⟩

theorem canUndo_eq (h : j.Holds m) : j.canUndo = !m.done.isEmpty := by
  have hu := h.inRange.canUndo_iff
  rw [h.done_eq] at hu
  cases hd : m.done with
  | nil => simpa [hd] using hu
  | cons x xs => simpa [hd] using hu

theorem canRedo_eq (h : j.Holds m) : j.canRedo = !m.todo.isEmpty := by
  have hr := h.inRange.canRedo_iff
  rw [h.todo_eq] at hr
  cases hd : m.todo with
  | nil => simpa [hd] using hr
  | cons x xs => simpa [hd] using hr

end Journal.Holds

/-- A machine meets the request `r` the way the history does between `s` and `t`. -/
structure Stacks.Meets (m : Stacks ι) (r : Request ι)
    (s t : Stage (Journal ι) ι (Journal.Notice ι)) : Prop where
  holds : t.history.Holds (m.step r)
  calls : t.calls = s.calls ++ m.calls r
  answers : t.answers = s.answers

section Quiet

variable {c : Cast (Journal ι) ι (Journal.Notice ι)} {m : Stacks ι}
  {serve : Request ι → Run (Stage (Journal ι) ι (Journal.Notice ι)) Unit}
  {s : Stage (Journal ι) ι (Journal.Notice ι)}
  {Q : Unit → Stage (Journal ι) ι (Journal.Notice ι) → Prop}
  {E : Fault → Stage (Journal ι) ι (Journal.Notice ι) → Prop}

theorem Cast.Quiet.leads_tell (hc : c.Quiet) {x : ι} {Q : Value → _ → Prop} (hQ : ∀ v, Q v s) :
    ((c.journalHost serve).tell x).Leads s Q E False := by
  obtain ⟨v, hv⟩ := hc.describe s x
  refine Journal.Host.leads_tell.2 ⟨fun w _ ↦ hQ w, fun e he ↦ ?_⟩
  rw [describe_journalHost, hv] at he
  cases he

theorem Cast.Quiet.leads_add (hc : c.Quiet) (hs : s.history.Holds m) (x : ι) :
    ((c.journalHost serve).add x).Leads s (fun _ t ↦ m.Meets (.add x) s t) E False := by
  have he := hs.enabled
  cases hm : m.enabled with
  | false =>
    rw [Journal.Host.leads_add_ignored (.inl ⟨he.trans hm, rfl⟩)]
    refine hc.leads_tell fun v ↦ ⟨?_, ?_, rfl⟩
    · rw [Stacks.step, if_neg (by simp [hm])]
      exact hs
    · simp [Stacks.calls]
  | true =>
    rw [Journal.Host.leads_add_recorded (he.trans hm) hs.idle]
    apply (Run.leads_lift_ok (Journal.trim_push hs.room x)).2
    refine hc.leads_tell fun v ↦ ?_
    simp only [log_journalHost, announce_journalHost, Run.leads_pure, hc.leads_announce,
      Journal.Host.leads_announceChange]
    refine ⟨?_, by simp [Stacks.calls], by simp⟩
    rw [Stacks.step, if_pos hm]
    refine ⟨?_, ?_, hs.room, he, hs.idle⟩
    · simp [hs.done_eq]
    · simp [hs.done_eq]

/-- What is left to do after the code of an edit has run moves the position and tells of it. -/
theorem Cast.Quiet.leads_settle (hc : c.Quiet) {d : Int} {r : Value → Int → Journal.Remark}
    {n : Journal.Notice ι} {x : ι} (hQ : ∀ t : Stage (Journal ι) ι (Journal.Notice ι),
      t.history = s.history.move d → t.calls = s.calls → t.answers = s.answers → Q () t) :
    ((c.journalHost serve).settle d r n x).Leads s Q E False := by
  simp only [Journal.Host.settle, Run.leads_bind, Journal.Host.leads_change,
    Journal.Host.leads_look]
  refine hc.leads_tell fun v ↦ ?_
  simp only [log_journalHost, announce_journalHost, Run.leads_pure, hc.leads_announce,
    Journal.Host.leads_announceChange]
  exact hQ _ rfl (by simp) (by simp)

theorem Cast.Quiet.leads_undo (hc : c.Quiet) (hs : s.history.Holds m) :
    (c.journalHost serve).undo.Leads s
      (fun _ t ↦ m.fault? .undo = none ∧ m.Meets .undo s t)
      (fun e t ↦ m.fault? .undo = some e ∧ m.Meets .undo s t) False := by
  refine Journal.Host.leads_undo (fun hu ↦ ?_) (fun hu hl ↦ ?_) (fun x hu hl ↦ ?_)
  · have hd : m.done = [] := by simpa [hs.canUndo_eq] using hu
    refine ⟨by simp [Stacks.fault?, hd], ?_, by simp [Stacks.calls, hd], rfl⟩
    simpa [Stacks.step, hd] using hs
  · have hd := hs.inRange.last?_eq hu
    rw [journal_journalHost] at hl hu
    rw [hs.done_eq, hl, eq_comm, List.getLast?_eq_none_iff] at hd
    simp [hs.canUndo_eq, hd] at hu
  · have hd := hs.inRange.last?_eq hu
    rw [journal_journalHost] at hl
    rw [hs.done_eq, hl, eq_comm] at hd
    have happ := List.dropLast_append_getLast? x hd
    have hne : m.done ≠ [] := by
      intro hn
      simp [hn] at hd
    rw [leads_revert, Journal.Host.leads_replay, hc.leads_enter]
    refine hc.leads_settle fun t ht hcalls hans ↦ ⟨by simp [Stacks.fault?, hne], ?_, ?_, ?_⟩
    · simp only [Stacks.step, hd, ht]
      refine ⟨?_, ?_, hs.room, hs.enabled, rfl⟩
      · calc s.history.entries = m.done ++ m.todo := hs.entries
          _ = m.done.dropLast ++ [x] ++ m.todo := by rw [happ]
          _ = m.done.dropLast ++ x :: m.todo := by simp
      · have hp := hs.position
        have hl := congrArg List.length happ
        simp [Journal.move, hp] at hl ⊢
        omega
    · simpa [Stacks.calls, hd] using hcalls
    · simpa using hans

theorem Cast.Quiet.leads_redo (hc : c.Quiet) (hs : s.history.Holds m) :
    (c.journalHost serve).redo.Leads s
      (fun _ t ↦ m.fault? .redo = none ∧ m.Meets .redo s t)
      (fun e t ↦ m.fault? .redo = some e ∧ m.Meets .redo s t) False := by
  refine Journal.Host.leads_redo (fun hr ↦ ?_) (fun hr hn ↦ ?_) (fun x hr hn ↦ ?_)
  · have hd : m.todo = [] := by simpa [hs.canRedo_eq] using hr
    refine ⟨by simp [Stacks.fault?, hd], ?_, by simp [Stacks.calls, hd], rfl⟩
    simpa [Stacks.step, hd] using hs
  · have hd := hs.inRange.next?_eq
    rw [journal_journalHost] at hn hr
    rw [hs.todo_eq, hn, eq_comm, List.head?_eq_none_iff] at hd
    simp [hs.canRedo_eq, hd] at hr
  · have hd := hs.inRange.next?_eq
    rw [journal_journalHost] at hn
    rw [hs.todo_eq, hn, eq_comm, List.head?_eq_some_iff] at hd
    obtain ⟨todo, hd⟩ := hd
    rw [leads_reapply, Journal.Host.leads_replay, hc.leads_enter]
    refine hc.leads_settle fun t ht hcalls hans ↦ ⟨by simp [Stacks.fault?, hd], ?_, ?_, ?_⟩
    · simp only [Stacks.step, hd, ht]
      refine ⟨?_, ?_, hs.room, hs.enabled, rfl⟩
      · simp [Journal.move, hs.entries, hd]
      · simp [Journal.move, hs.position]
    · simpa [Stacks.calls, hd] using hcalls
    · simpa using hans

theorem Cast.Quiet.leads_clear (hc : c.Quiet) (hs : s.history.Holds m) :
    (c.journalHost serve).clear.Leads s (fun _ t ↦ m.Meets .clear s t) E False := by
  simp only [Journal.Host.leads_clear, log_journalHost, announce_journalHost, Run.leads_pure,
    hc.leads_announce, Journal.Host.leads_announceChange]
  exact ⟨⟨rfl, rfl, hs.room, hs.enabled, hs.idle⟩, by simp [Stacks.calls], by simp⟩

end Quiet

/-- The only limits set are proper ones. -/
def Request.Proper : Request ι → Prop
  | .setLimit v => v.room?.isSome
  | _ => True

/-- A request has the result and the effect it has on the two stacks. -/
theorem Journal.Holds.leads_handle {c : Cast (Journal ι) ι (Journal.Notice ι)} {m : Stacks ι}
    {serve : Request ι → Run (Stage (Journal ι) ι (Journal.Notice ι)) Unit}
    {s : Stage (Journal ι) ι (Journal.Notice ι)} (hs : s.history.Holds m) (hc : c.Quiet)
    {r : Request ι} (hr : r.Proper) :
    ((c.journalHost serve).handle r).Leads s
      (fun _ t ↦ m.fault? r = none ∧ m.Meets r s t)
      (fun e t ↦ m.fault? r = some e ∧ m.Meets r s t) False := by
  cases r with
  | add x => exact (hc.leads_add hs x).mono (fun _ t ht ↦ ⟨rfl, ht⟩) (fun _ _ h ↦ h)
  | undo => exact hc.leads_undo hs
  | redo => exact hc.leads_redo hs
  | clear => exact (hc.leads_clear hs).mono (fun _ t ht ↦ ⟨rfl, ht⟩) (fun _ _ h ↦ h)
  | setEnabled v =>
    rw [Journal.Host.handle, Journal.Host.leads_change]
    exact ⟨rfl, ⟨hs.entries, hs.position, hs.room, rfl, hs.idle⟩, by simp [Stacks.calls], rfl⟩
  | setLimit v =>
    obtain ⟨room, hv⟩ := Option.isSome_iff_exists.1 hr
    rw [Journal.Host.handle, Journal.Host.leads_change]
    refine ⟨rfl, ⟨hs.entries, hs.position, ?_, hs.enabled, hs.idle⟩, by simp [Stacks.calls], rfl⟩
    simp [Stacks.step, hv]

section Runs

variable {c : Cast (Journal ι) ι (Journal.Notice ι)} {m : Stacks ι}
  {s : Stage (Journal ι) ι (Journal.Notice ι)}

theorem Journal.Holds.leads_all (hs : s.history.Holds m) (hc : c.Quiet) (n : Nat)
    {rs : List (Request ι)} (hr : ∀ r ∈ rs, r.Proper) :
    ((Script.all rs).play (Journal.engine.serve c (n + 1))).Leads s
      (fun _ t ↦ t.history.Holds (m.after rs) ∧ t.calls = s.calls ++ m.callsOf rs ∧
        t.answers = s.answers ++ m.faultsOf rs)
      (fun _ _ ↦ False) False := by
  induction rs generalizing s m with
  | nil => exact ⟨hs, by simp [Stacks.callsOf], by simp [Stacks.faultsOf]⟩
  | cons r rs ih =>
    rw [Script.all, Script.leads_ask, Engine.leads_serve]
    have hrs : ∀ r ∈ rs, r.Proper := fun q hq ↦ hr q (List.mem_cons_of_mem r hq)
    -- Whether the request succeeds or fails, the rest goes on from where it left off.
    have hrest (fault : Option Fault) (t : Stage (Journal ι) ι (Journal.Notice ι))
        (ht : m.fault? r = fault ∧ m.Meets r (s.note (.asked r)) t) :
        ((Script.all rs).play (Journal.engine.serve c (n + 1))).Leads (t.note (.answered r fault))
          (fun _ u ↦ u.history.Holds (m.after (r :: rs)) ∧
            u.calls = s.calls ++ m.callsOf (r :: rs) ∧
            u.answers = s.answers ++ m.faultsOf (r :: rs))
          (fun _ _ ↦ False) False := by
      obtain ⟨hf, hm⟩ := ht
      have hu : (t.note (.answered r fault)).history.Holds (m.step r) := hm.holds
      refine (ih hu hrs).mono (fun _ u hu ↦ ?_) (fun _ _ h ↦ h)
      obtain ⟨hu, hcalls, hans⟩ := hu
      refine ⟨hu, ?_, ?_⟩
      · simpa [hm.calls, Stacks.callsOf] using hcalls
      · simpa [hm.answers, Stacks.faultsOf, hf] using hans
    have hq : (s.note (.asked r)).history.Holds m := hs
    exact (hq.leads_handle hc (hr r List.mem_cons_self)).mono
      (fun _ t ht ↦ hrest none t ht) (fun e t ht ↦ hrest (some e) t ht)

theorem Journal.Holds.undoText_eq (hs : s.history.Holds m)
    (serve : Request ι → Run (Stage (Journal ι) ι (Journal.Notice ι)) Unit) :
    (c.journalHost serve).undoText s = m.done.getLast?.elim (.ok (.text [])) (c.describe s) := by
  unfold Journal.Host.undoText
  rw [Cast.journal_journalHost, hs.canUndo_eq]
  by_cases hd : m.done = []
  · simp [hd]
  · have hl := hs.inRange.last?_eq (by simpa [hs.canUndo_eq] using hd)
    rw [hs.done_eq, List.getLast?_eq_some_getLast hd] at hl
    simp [hl, hd, List.getLast?_eq_some_getLast hd]

theorem Journal.Holds.redoText_eq (hs : s.history.Holds m)
    (serve : Request ι → Run (Stage (Journal ι) ι (Journal.Notice ι)) Unit) :
    (c.journalHost serve).redoText s = m.todo.head?.elim (.ok (.text [])) (c.describe s) := by
  unfold Journal.Host.redoText
  rw [Cast.journal_journalHost, hs.canRedo_eq, hs.inRange.next?_eq, hs.todo_eq]
  cases m.todo <;> rfl

end Runs

/-- Whatever is asked of a new journal whose edits keep to themselves, its entries are two stacks
with the position between them. Each undo and each redo runs the code of just the edit that it
moves from one stack to the other, and fails only if there is none. -/
theorem Journal.refines_two_stacks (c : Cast (Journal ι) ι (Journal.Notice ι)) (hc : c.Quiet)
    (n : Nat) (limit : Value) (room : Nat) (hl : limit.room? = some room) (rs : List (Request ι))
    (hr : ∀ r ∈ rs, r.Proper) :
    let m : Stacks ι := { room }
    ∃ t, (Script.all rs).play (Journal.engine.serve c (n + 1)) ⟨{ limit }, []⟩ = .returned () t ∧
      t.history.entries = (m.after rs).done ++ (m.after rs).todo ∧
      t.history.position = (m.after rs).done.length ∧
      t.calls = m.callsOf rs ∧ t.answers = m.faultsOf rs ∧
      (t.history.canUndo = true ↔ (m.after rs).done ≠ []) ∧
      (t.history.canRedo = true ↔ (m.after rs).todo ≠ []) ∧
      (c.journalHost (Journal.engine.serve c n)).undoText t =
        (m.after rs).done.getLast?.elim (.ok (.text [])) (c.describe t) ∧
      (c.journalHost (Journal.engine.serve c n)).redoText t =
        (m.after rs).todo.head?.elim (.ok (.text [])) (c.describe t) := by
  intro m
  have hm : (⟨{ limit }, []⟩ : Stage (Journal ι) ι (Journal.Notice ι)).history.Holds m :=
    ⟨rfl, rfl, hl, rfl, rfl⟩
  obtain ⟨_, t, ht, hs, hcalls, hans⟩ := (hm.leads_all hc n hr).exists_returned
  refine ⟨t, ht, hs.entries, hs.position, hcalls, hans, ?_, ?_, hs.undoText_eq _,
    hs.redoText_eq _⟩
  · simp [hs.canUndo_eq]
  · simp [hs.canRedo_eq]

/-- Nobody calls back, and nothing has a description of its own. -/
def Cast.silent : Cast ε ι ν where
  code _ _ _ := .finish
  hears _ _ := .finish
  describe _ _ := .ok .null
  same _ _ _ := false

theorem Cast.quiet_silent : (silent : Cast ε ι ν).Quiet :=
  ⟨fun _ _ _ ↦ rfl, fun _ _ ↦ rfl, fun _ _ ↦ ⟨.null, rfl⟩⟩

/-- With room for two, the limit lowered to one while an edit is undone, and undone once too
often. -/
theorem Journal.refines_two_stacks_lowered :
    let rs : List (Request Nat) := [.add 1, .add 2, .add 3, .undo, .setLimit (.int 1),
      .setEnabled (.int 0), .add 4, .redo, .undo, .undo, .undo, .setEnabled (.text []), .redo,
      .setEnabled (.bool true), .add 5]
    ∃ t, (Script.all rs).play (Journal.engine.serve Cast.silent 1) ⟨{ limit := .int 2 }, []⟩ =
        .returned () t ∧
      t.history.entries = [5] ∧ t.history.position = 1 ∧
      t.calls = [(.undo, 3), (.redo, 3), (.undo, 3), (.undo, 2), (.redo, 2)] ∧
      t.answers.filterMap id = [.nothingToUndo] := by
  intro rs
  have hr : ∀ r ∈ rs, r.Proper := by simp [rs, Request.Proper, Value.room?]
  obtain ⟨t, ht, he, hp, hcalls, hans, -⟩ :=
    refines_two_stacks Cast.silent Cast.quiet_silent 0 (.int 2) 2 rfl rs hr
  exact ⟨t, ht, he, hp, hcalls, by rw [hans]; rfl⟩

end Rewind
