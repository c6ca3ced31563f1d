import Rewind.Proofs.Limit

namespace Rewind

/-- The steps of a way, each from where the one before it ends. -/
inductive Path {α : Type} : α → List (α × α) → α → Prop where
  | nil (a : α) : Path a [] a
  | cons {a b c : α} {ps : List (α × α)} (h : Path b ps c) : Path a ((a, b) :: ps) c

variable {α ι : Type}

namespace Path

variable {a b c : α} {p : α × α} {ps qs : List (α × α)}

theorem append_iff : Path a (ps ++ qs) c ↔ ∃ b, Path a ps b ∧ Path b qs c := by
  constructor
  · intro h
    induction ps generalizing a with
    | nil => exact ⟨a, .nil a, h⟩
    | cons p ps ih =>
      cases h with
      | cons h =>
        obtain ⟨b, hp, hq⟩ := ih h
        exact ⟨b, .cons hp, hq⟩
  · rintro ⟨b, hp, hq⟩
    induction hp with
    | nil => exact hq
    | cons _ ih => exact .cons (ih hq)

theorem singleton_iff : Path a [p] c ↔ p = (a, c) := by
  constructor
  · intro h
    cases h with
    | cons h =>
      cases h
      rfl
  · rintro rfl
    exact .cons (.nil c)

theorem end_eq (h : Path a ps c) (hp : ps.getLast? = some p) : p.2 = c := by
  obtain ⟨qs, rfl⟩ := List.getLast?_eq_some_iff.1 hp
  obtain ⟨b, -, hb⟩ := append_iff.1 h
  rw [singleton_iff.1 hb]

theorem start_eq (h : Path a ps c) (hp : ps.head? = some p) : p.1 = a := by
  cases h with
  | nil => cases hp
  | cons =>
    cases hp
    rfl

theorem joined (h : Path a ps c) {k : Nat} {q : α × α} (hp : ps[k]? = some p)
    (hq : ps[k + 1]? = some q) : p.2 = q.1 := by
  rw [← List.take_append_drop (k + 1) ps] at h
  obtain ⟨b, hl, hr⟩ := append_iff.1 h
  have hlast : (ps.take (k + 1)).getLast? = some p := by simp [List.getLast?_take, hp]
  exact (hl.end_eq hlast).trans (hr.start_eq (by rw [List.head?_drop, hq])).symm

theorem suffix (h : Path a ps c) (hs : qs <:+ ps) : ∃ b, Path b qs c := by
  obtain ⟨rs, rfl⟩ := hs
  obtain ⟨b, -, hq⟩ := append_iff.1 h
  exact ⟨b, hq⟩

end Path

namespace Journal

variable {j : Journal ι} {goals goals' : ι → α × α} {here there : α} {i : ι}

/-- Each edit has a goal that undoing it leads back to, and one that redoing it leads to. Those in
effect lead here, and from here those that have been undone lead on. -/
def Passes (j : Journal ι) (goals : ι → α × α) (here : α) : Prop :=
  ∃ start finish, Path start (j.done.map goals) here ∧ Path here (j.todo.map goals) finish

theorem passes_empty (j : Journal ι) : j.empty.Passes goals here := ⟨here, here, .nil _, .nil _⟩

namespace Passes

theorem congr {j' : Journal ι} (h : j.Passes goals here) (he : j'.entries = j.entries)
    (hp : j'.position = j.position) (hg : ∀ i ∈ j.entries, goals' i = goals i) :
    j'.Passes goals' here := by
  have hdone : j'.done = j.done := by rw [done, he, hp, done]
  have htodo : j'.todo = j.todo := by rw [todo, he, hdone, todo]
  obtain ⟨start, finish, hd, ht⟩ := h
  rw [← j.done_append_todo] at hg
  refine ⟨start, finish, ?_, ?_⟩
  · rwa [hdone, List.map_congr_left fun i hi ↦ hg i (List.mem_append_left _ hi)]
  · rwa [htodo, List.map_congr_left fun i hi ↦ hg i (List.mem_append_right _ hi)]

/-- Each edit leads to where the one after it leads back to. -/
theorem joined (h : j.Passes goals here) {k : Nat} {i' : ι} (hi : j.entries[k]? = some i)
    (hi' : j.entries[k + 1]? = some i') : (goals i).2 = (goals i').1 := by
  obtain ⟨start, finish, hd, ht⟩ := h
  have hway := Path.append_iff.2 ⟨_, hd, ht⟩
  rw [← List.map_append, j.done_append_todo] at hway
  exact hway.joined (by rw [List.getElem?_map, hi]; rfl) (by rw [List.getElem?_map, hi']; rfl)

theorem exists_undone (h : j.Passes goals here) (hr : j.InRange) (hu : j.canUndo = true) :
    ∃ i ∈ j.entries, j.last? = some i ∧ (j.move (-1)).InRange ∧
      ∃ back, goals i = (back, here) ∧ (j.move (-1)).Passes goals back := by
  obtain ⟨i, hi, hdone, htodo, hrange⟩ := hr.exists_undone hu
  obtain ⟨start, finish, hd, ht⟩ := h
  rw [hdone, List.map_append, Path.append_iff] at hd
  obtain ⟨back, hd, hback⟩ := hd
  have hg : goals i = (back, here) := Path.singleton_iff.1 hback
  refine ⟨i, ?_, hi, hrange, back, hg, start, finish, hd, ?_⟩
  · rw [← j.done_append_todo, hdone]
    simp
  · rw [htodo, List.map_cons, hg]
    exact .cons ht

theorem exists_redone (h : j.Passes goals here) (hr : j.InRange) (hu : j.canRedo = true) :
    ∃ i ∈ j.entries, j.next? = some i ∧ (j.move 1).InRange ∧
      ∃ forth, goals i = (here, forth) ∧ (j.move 1).Passes goals forth := by
  obtain ⟨i, hi, hdone, htodo, hrange⟩ := hr.exists_redone hu
  obtain ⟨start, finish, hd, ht⟩ := h
  rw [htodo, List.map_cons, ← List.singleton_append, Path.append_iff] at ht
  obtain ⟨forth, hforth, ht⟩ := ht
  have hg : goals i = (here, forth) := Path.singleton_iff.1 hforth
  refine ⟨i, ?_, hi, hrange, forth, hg, start, finish, ?_, ht⟩
  · rw [← j.done_append_todo, htodo]
    simp
  · rw [hdone, List.map_append]
    exact Path.append_iff.2 ⟨_, hd, Path.singleton_iff.2 hg⟩

/-- What has been recorded last leads on from here. The oldest edits may be left out. -/
theorem newest (h : j.Passes goals here) (hi : goals i = (here, there)) (room : Nat) :
    Passes { j with
      entries := newest room (j.done ++ [i])
      position := (Rewind.newest room (j.done ++ [i])).length } goals there := by
  obtain ⟨start, finish, hd, -⟩ := h
  have hway : Path start ((j.done ++ [i]).map goals) there := by
    rw [List.map_append]
    exact Path.append_iff.2 ⟨_, hd, Path.singleton_iff.2 hi⟩
  obtain ⟨middle, hway⟩ := hway.suffix ((newest_suffix room _).map goals)
  refine ⟨middle, there, ?_, ?_⟩
  · rwa [done, Position.before_natCast, List.take_length]
  · rw [todo, done, Position.before_natCast, List.take_length, List.drop_length]
    exact .nil _

/-- Where the edits lead is settled as soon as there is one. -/
theorem unique (h : j.Passes goals here) (h' : j.Passes goals there) (hne : j.entries ≠ []) :
    here = there := by
  obtain ⟨_, _, hd, ht⟩ := h
  obtain ⟨_, _, hd', ht'⟩ := h'
  cases hl : j.done.getLast? with
  | some i =>
    rw [← hd.end_eq (p := goals i) (by simp [hl]), ← hd'.end_eq (p := goals i) (by simp [hl])]
  | none =>
    have hnil := List.getLast?_eq_none_iff.1 hl
    cases hh : j.todo with
    | nil => exact absurd (by rw [← j.done_append_todo, hnil, hh, List.nil_append]) hne
    | cons i rest =>
      rw [← ht.start_eq (p := goals i) (by simp [hh]), ← ht'.start_eq (p := goals i) (by simp [hh])]

end Passes

end Journal

end Rewind
