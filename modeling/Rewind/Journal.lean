import Rewind.Position
import Rewind.Value.Conversion

namespace Rewind

/-- A linear record of edits. Those before the position are in effect, those from it on have been
undone and can be redone. -/
structure Journal (ι : Type) where
  entries : List ι := []
  position : Int := 0
  limit : Value := .null
  enabled : Value := .bool true
  replaying : Bool := false

namespace Journal

variable {ι : Type} {j : Journal ι}

/-- The edits in effect, the oldest first. -/
def done (j : Journal ι) : List ι := Position.before j.entries j.position

/-- The edits that can be redone, the next one first. -/
def todo (j : Journal ι) : List ι := j.entries.drop j.done.length

def canUndo (j : Journal ι) : Bool := 0 < j.position

def canRedo (j : Journal ι) : Bool := j.position < j.entries.length

/-- The edit that undoing reverses. -/
def last? (j : Journal ι) : Option ι := Position.item? j.entries (j.position - 1)

/-- The edit that redoing applies again. -/
def next? (j : Journal ι) : Option ι := Position.item? j.entries j.position

/-- With one more edit, in place of those that could be redone. -/
def push (j : Journal ι) (x : ι) : Journal ι :=
  { j with entries := j.done ++ [x], position := j.done.length + 1 }

/-- Without the oldest `n` edits. -/
def forget (j : Journal ι) (n : Nat) : Journal ι :=
  { j with entries := j.entries.drop n, position := j.position - n }

/-- Without the oldest edits, as many as exceed the limit. -/
def trim (j : Journal ι) : Except Fault (Journal ι) := do
  match ← j.limit.excess j.entries.length with
  | none => return j
  | some n => return j.forget n

def empty (j : Journal ι) : Journal ι := { j with entries := [], position := 0 }

def move (j : Journal ι) (d : Int) : Journal ι := { j with position := j.position + d }

theorem done_append_todo (j : Journal ι) : j.done ++ j.todo = j.entries := by
  have h : j.done = j.entries.take j.done.length := Position.before_eq_take j.entries j.position
  calc j.done ++ j.todo = j.entries.take j.done.length ++ j.entries.drop j.done.length := by
        rw [← h, todo]
    _ = j.entries := List.take_append_drop _ _

/-- The position lies within the record. -/
def InRange (j : Journal ι) : Prop := 0 ≤ j.position ∧ j.position ≤ j.entries.length

theorem InRange.length_done (h : j.InRange) : (j.done.length : Int) = j.position :=
  Position.length_before h.1 h.2

theorem InRange.push (j : Journal ι) (x : ι) : (j.push x).InRange := by
  simp only [InRange, Journal.push, List.length_append, List.length_singleton]
  omega

theorem InRange.forget (h : j.InRange) {n : Nat} (hn : n ≤ j.position) :
    (j.forget n).InRange := by
  simp only [InRange, Journal.forget, List.length_drop]
  have := h.2
  omega

theorem done_push (j : Journal ι) (x : ι) : (j.push x).done = j.done ++ [x] := by
  have h : ((j.done.length : Int) + 1) = (j.done.length + 1 : Nat) := by omega
  unfold push done
  dsimp only
  rw [← done, h, Position.before_natCast, List.take_of_length_le (by simp)]

theorem todo_push (j : Journal ι) (x : ι) : (j.push x).todo = [] := by
  unfold todo
  rw [done_push]
  simp [push]

theorem mem_of_push {x y : ι} (h : y ∈ (j.push x).entries) : y ∈ j.entries ∨ y = x := by
  rcases List.mem_append.1 h with h | h
  · exact .inl (j.done_append_todo ▸ List.mem_append_left _ h)
  · exact .inr (List.mem_singleton.1 h)

theorem entries_of_trim {k : Journal ι} (h : j.trim = .ok k) : k.entries ⊆ j.entries := by
  unfold trim at h
  cases he : j.limit.excess j.entries.length with
  | error e =>
    rw [he] at h
    cases h
  | ok n =>
    rw [he] at h
    cases n with
    | none =>
      cases h
      exact List.Subset.refl _
    | some n =>
      cases h
      exact List.drop_subset _ _

/-- There is something to undo if an edit is in effect. -/
theorem InRange.canUndo_iff (h : j.InRange) : j.canUndo = true ↔ j.done ≠ [] := by
  rw [← List.length_pos_iff]
  have := h.length_done
  simp only [canUndo, decide_eq_true_eq]
  omega

/-- There is something to redo if an edit has been undone. -/
theorem InRange.canRedo_iff (h : j.InRange) : j.canRedo = true ↔ j.todo ≠ [] := by
  rw [← List.length_pos_iff, todo, List.length_drop]
  have := h.length_done
  simp only [canRedo, decide_eq_true_eq]
  omega

/-- Undoing reverses the newest edit in effect. -/
theorem InRange.last?_eq (h : j.InRange) (hu : j.canUndo = true) : j.last? = j.done.getLast? := by
  simp only [canUndo, decide_eq_true_eq] at hu
  have hl := h.length_done
  have hp : j.position - 1 = ((j.done.length - 1 : Nat) : Int) := by omega
  have he : j.done.length - 1 < j.done.length := by omega
  rw [last?, hp, Position.item?_natCast, List.getLast?_eq_getElem?, ← j.done_append_todo,
    List.getElem?_append_left he]

/-- Redoing applies the first edit that can be redone. -/
theorem InRange.next?_eq (h : j.InRange) : j.next? = j.todo.head? := by
  rw [next?, ← h.length_done, Position.item?_natCast, todo, List.head?_drop]

theorem InRange.done_eq (h : j.InRange) : j.done = j.entries.take j.position.toNat := by
  simp only [done, Position.before, if_pos h.1]

theorem InRange.todo_eq (h : j.InRange) : j.todo = j.entries.drop j.position.toNat := by
  have hl := h.length_done
  rw [todo, show j.position.toNat = j.done.length by omega]

/-- Undoing takes the newest edit from those in effect to those that can be redone. -/
theorem InRange.exists_undone (h : j.InRange) (hu : j.canUndo = true) :
    ∃ x, j.last? = some x ∧ j.done = (j.move (-1)).done ++ [x] ∧
      (j.move (-1)).todo = x :: j.todo ∧ (j.move (-1)).InRange := by
  simp only [canUndo, decide_eq_true_eq] at hu
  have hn := h.2
  obtain ⟨n, hp⟩ : ∃ n : Nat, j.position = n + 1 := ⟨(j.position - 1).toNat, by omega⟩
  have hl : n < j.entries.length := by omega
  have hm : (j.move (-1)).InRange := by
    simp only [InRange, move]
    omega
  have hpos : (j.move (-1)).position.toNat = n := by
    simp only [move]
    omega
  refine ⟨j.entries[n], ?_, ?_, ?_, hm⟩
  · rw [last?, hp, Int.add_sub_cancel, Position.item?_natCast, List.getElem?_eq_getElem hl]
  · rw [h.done_eq, hm.done_eq, hpos, hp]
    exact (List.take_append_getElem hl).symm
  · rw [h.todo_eq, hm.todo_eq, hpos, hp]
    exact List.drop_eq_getElem_cons hl

/-- Redoing takes the next edit back to those in effect. -/
theorem InRange.exists_redone (h : j.InRange) (hr : j.canRedo = true) :
    ∃ x, j.next? = some x ∧ (j.move 1).done = j.done ++ [x] ∧
      j.todo = x :: (j.move 1).todo ∧ (j.move 1).InRange := by
  simp only [canRedo, decide_eq_true_eq] at hr
  have h0 := h.1
  obtain ⟨n, hp⟩ : ∃ n : Nat, j.position = n := ⟨j.position.toNat, by omega⟩
  have hl : n < j.entries.length := by omega
  have hm : (j.move 1).InRange := by
    simp only [InRange, move]
    omega
  have hpos : (j.move 1).position.toNat = n + 1 := by
    simp only [move]
    omega
  refine ⟨j.entries[n], ?_, ?_, ?_, hm⟩
  · rw [next?, hp, Position.item?_natCast, List.getElem?_eq_getElem hl]
  · rw [h.done_eq, hm.done_eq, hpos, hp]
    exact (List.take_append_getElem hl).symm
  · rw [h.todo_eq, hm.todo_eq, hpos, hp]
    exact List.drop_eq_getElem_cons hl

end Journal

/-- What a journal announces. -/
inductive Journal.Notice (ι : Type) where
  | recorded (x : ι)
  | undone (x : ι)
  | redone (x : ι)
  | changed (canUndo canRedo : Bool)

/-- What a journal writes to the log; the values are descriptions of edits. -/
inductive Journal.Remark where
  | disabled (description : Value)
  | replaying (description : Value)
  | recorded (description : Value) (position : Int)
  | undone (description : Value) (position : Int)
  | redone (description : Value) (position : Int)
  | cleared

def Journal.Remark.text : Journal.Remark → Text
  | disabled d => "History disabled, ignoring command: " ++ d.display
  | replaying d => "Ignoring command added during undo/redo: " ++ d.display
  | recorded d i => "Command added: " ++ d.display ++ " (cursor=" ++ Text.ofInt i ++ ")"
  | undone d i => "Undo: " ++ d.display ++ " (cursor=" ++ Text.ofInt i ++ ")"
  | redone d i => "Redo: " ++ d.display ++ " (cursor=" ++ Text.ofInt i ++ ")"
  | cleared => "Command history cleared"

end Rewind
