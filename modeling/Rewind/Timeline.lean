import Rewind.Position
import Rewind.Value.Conversion

namespace Rewind

/-- A record of whole states. The pointer is at the one that is current, `-1` if there is none. -/
structure Timeline (ι : Type) where
  entries : List ι := []
  pointer : Int := -1
  limit : Value := .null
  enabled : Value := .bool true
  restoring : Bool := false

namespace Timeline

variable {ι : Type} {t : Timeline ι}

def isEmpty (t : Timeline ι) : Bool := t.entries.isEmpty

def canUndo (t : Timeline ι) : Bool := 0 < t.pointer

def canRedo (t : Timeline ι) : Bool := t.pointer < t.entries.length - 1

/-- The current state, none if there are no states. -/
def current (t : Timeline ι) : Except Fault (Option ι) :=
  if t.isEmpty then .ok none
  else match Position.item? t.entries t.pointer with
    | none => .error .outOfRange
    | some x => .ok (some x)

/-- The entries that stay when a new state comes. If there are later ones to drop, the entry at the
pointer stays only if it is not the first. -/
def past (t : Timeline ι) : List ι :=
  if t.canRedo then
    if 0 < t.pointer then t.entries.take (t.pointer + 1).toNat else []
  else t.entries

/-- The entries that stay before a new state, which takes the place of an equal one. -/
def kept (t : Timeline ι) (same : ι → ι → Bool) (x : ι) : List ι :=
  if t.past.getLast?.any (same · x) then t.past.dropLast else t.past

/-- With a new state at the end. The pointer stays where it is until the limit has been seen to. -/
def push (t : Timeline ι) (same : ι → ι → Bool) (x : ι) : Timeline ι :=
  { t with entries := t.kept same x ++ [x] }

/-- Without the oldest states, as many as exceed the limit, and the pointer at the newest one. -/
def trim (t : Timeline ι) : Except Fault (Timeline ι) := do
  let entries := t.entries.drop ((← t.limit.excess t.entries.length).getD 0)
  return { t with entries, pointer := entries.length - 1 }

def empty (t : Timeline ι) : Timeline ι := { t with entries := [], pointer := -1 }

theorem past_eq_take (h : 0 < t.pointer) : t.past = t.entries.take (t.pointer + 1).toNat := by
  unfold past
  split
  · rfl
  · rename_i hr
    simp only [canRedo, decide_eq_true_eq] at hr
    rw [List.take_of_length_le (by omega)]

/-- What comes after the pointer is dropped, and at the first of several entries that one too. -/
theorem past_of_first (h : t.pointer = 0) (hl : 1 < t.entries.length) : t.past = [] := by
  have hr : t.canRedo = true := by
    simp only [canRedo, decide_eq_true_eq]
    omega
  simp [past, hr, h]

theorem past_subset (t : Timeline ι) : t.past ⊆ t.entries := by
  unfold past
  split
  · split
    · exact List.take_subset _ _
    · exact List.nil_subset _
  · exact List.Subset.refl _

theorem kept_subset (t : Timeline ι) (same : ι → ι → Bool) (x : ι) : t.kept same x ⊆ t.entries := by
  unfold kept
  split
  · exact List.Subset.trans (List.dropLast_subset _) t.past_subset
  · exact t.past_subset

theorem mem_of_push {same : ι → ι → Bool} {x y : ι} (h : y ∈ (t.push same x).entries) :
    y ∈ t.entries ∨ y = x :=
  (List.mem_append.1 h).imp (fun hy ↦ t.kept_subset same x hy) List.mem_singleton.1

theorem entries_of_trim {u : Timeline ι} (h : t.trim = .ok u) : u.entries ⊆ t.entries := by
  unfold trim at h
  cases he : t.limit.excess t.entries.length with
  | error e =>
    rw [he] at h
    cases h
  | ok n =>
    rw [he] at h
    cases h
    exact List.drop_subset _ _

theorem limit_of_trim {u : Timeline ι} (h : t.trim = .ok u) : u.limit = t.limit := by
  unfold trim at h
  cases he : t.limit.excess t.entries.length with
  | error e =>
    rw [he] at h
    cases h
  | ok n =>
    rw [he] at h
    cases h
    rfl

theorem restoring_of_trim {u : Timeline ι} (h : t.trim = .ok u) : u.restoring = t.restoring := by
  unfold trim at h
  cases he : t.limit.excess t.entries.length with
  | error e =>
    rw [he] at h
    cases h
  | ok n =>
    rw [he] at h
    cases h
    rfl

theorem current_of_last {xs : List ι} {x : ι} (he : t.entries = xs ++ [x])
    (hp : t.pointer = t.entries.length - 1) : t.current = .ok (some x) := by
  have hl : t.pointer = xs.length := by
    rw [hp, he, List.length_append, List.length_singleton]
    omega
  unfold current isEmpty
  rw [hl, Position.item?_natCast, he]
  simp

theorem current_of_item {i : Int} {x : ι} (h : Position.item? t.entries i = some x)
    (hp : t.pointer = i) : t.current = .ok (some x) := by
  have hne : t.isEmpty = false := by
    rw [isEmpty, List.isEmpty_eq_false_iff]
    exact List.ne_nil_of_mem (Position.mem_of_item? h)
  rw [current, hne, hp, h]
  rfl

/-- The pointer is at an entry, or there is none. -/
def InRange (t : Timeline ι) : Prop :=
  if t.entries = [] then t.pointer = -1 else 0 ≤ t.pointer ∧ t.pointer < t.entries.length

theorem InRange.of_ne_nil (h : t.InRange) (hne : t.entries ≠ []) :
    0 ≤ t.pointer ∧ t.pointer < t.entries.length := by
  rwa [InRange, if_neg hne] at h

theorem InRange.pointer_eq_iff (h : t.InRange) : t.pointer = -1 ↔ t.entries = [] := by
  unfold InRange at h
  split at h
  · exact ⟨fun _ ↦ by assumption, fun _ ↦ h⟩
  · rename_i hne
    exact ⟨fun hp ↦ by omega, fun he ↦ absurd he hne⟩

theorem InRange.neg_one_le (h : t.InRange) : -1 ≤ t.pointer := by
  unfold InRange at h
  split at h
  · omega
  · omega

theorem InRange.empty (t : Timeline ι) : t.empty.InRange := by simp [InRange, Timeline.empty]

/-- Trimming puts the pointer at the newest entry. -/
theorem InRange.trim {u : Timeline ι} (h : t.trim = .ok u) : u.InRange := by
  unfold Timeline.trim at h
  cases he : t.limit.excess t.entries.length with
  | error e => rw [he] at h; cases h
  | ok n =>
    rw [he] at h
    cases h
    by_cases hd : t.entries.drop (n.getD 0) = []
    · simp [InRange, hd]
    · have := List.length_pos_iff.2 hd
      simp only [InRange, if_neg hd]
      omega

/-- There is a state to go back to if the pointer is not at the first one. -/
theorem InRange.exists_before (h : t.InRange) (hu : t.canUndo = true) :
    ∃ x ∈ t.entries, Position.item? t.entries (t.pointer - 1) = some x := by
  simp only [canUndo, decide_eq_true_eq] at hu
  unfold InRange at h
  split at h
  · omega
  · exact Position.exists_item? (by omega) (by omega)

/-- There is a state to go on to if the pointer is not at the last one. -/
theorem InRange.exists_after (h : t.InRange) (hr : t.canRedo = true) :
    ∃ x ∈ t.entries, Position.item? t.entries (t.pointer + 1) = some x := by
  simp only [canRedo, decide_eq_true_eq] at hr
  unfold InRange at h
  split at h
  · simp_all
  · exact Position.exists_item? (by omega) (by omega)

end Timeline

/-- What a timeline announces. -/
inductive Timeline.Notice (ι : Type) where
  | recorded (x : ι)
  | restored (x : ι)
  | changed (canUndo canRedo : Bool)

/-- What a timeline writes to the log; the values are descriptions of states. -/
inductive Timeline.Remark where
  | disabled (description : Value)
  | restoring (description : Value)
  | recorded (description : Value) (pointer : Int)
  | restored (description : Value) (pointer : Int)
  | cleared

def Timeline.Remark.text : Timeline.Remark → Text
  | disabled d => "History disabled, ignoring snapshot: " ++ d.display
  | restoring d => "Ignoring snapshot added during restore: " ++ d.display
  | recorded d i => "Snapshot added: " ++ d.display ++ " (pointer=" ++ Text.ofInt i ++ ")"
  | restored d i => "Restored snapshot: " ++ d.display ++ " (pointer=" ++ Text.ofInt i ++ ")"
  | cleared => "Snapshot history cleared"

end Rewind
