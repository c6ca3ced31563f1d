import Rewind.Journal
import Rewind.Timeline

namespace Rewind

variable {α ι : Type}

/-- How many entries a limit leaves room for, zero if any number of them. A negative number is no
proper limit, nor is what is no integer. -/
def Value.room? : Value → Option Nat
  | null => some 0
  | bool b => some b.toNat
  | int n => if 0 ≤ n then some n.toNat else none
  | _ => none

theorem Value.excess_of_room {v : Value} {room : Nat} (h : v.room? = some room) (size : Nat) :
    v.excess size = .ok (if room = 0 ∨ size ≤ room then none else some (size - room)) := by
  cases v with
  | null =>
    cases h
    rfl
  | bool b =>
    cases h
    cases b
    · rfl
    · by_cases hs : size ≤ 1
      · simp [excess, truth, hs]
      · simp [excess, truth, hs, show 1 < size by omega]
  | int n =>
    simp only [room?] at h
    split at h
    · cases h
      by_cases hn : n = 0
      · simp [excess, truth, hn]
      · by_cases hs : size ≤ n.toNat
        · simp [excess, truth, hn, show ¬ n < size by omega, hs]
        · have he : ((size : Int) - n).toNat = size - n.toNat := by omega
          simp [excess, truth, hn, show n < size by omega, he, hs, show ¬ n ≤ 0 by omega]
    · cases h
  | float x | text t | list vs | dict fs => cases h

/-- The newest entries, as many as there is room for. -/
def newest (room : Nat) (xs : List α) : List α :=
  if room = 0 then xs else xs.drop (xs.length - room)

@[simp]
theorem newest_zero (xs : List α) : newest 0 xs = xs := if_pos rfl

theorem newest_suffix (room : Nat) (xs : List α) : newest room xs <:+ xs := by
  unfold newest
  split
  · exact List.suffix_refl xs
  · exact List.drop_suffix _ xs

theorem map_newest {β : Type} (f : α → β) (room : Nat) (xs : List α) :
    newest room (xs.map f) = (newest room xs).map f := by
  unfold newest
  split
  · rfl
  · rw [List.length_map, List.map_drop]

theorem exists_newest_append (room : Nat) (xs : List α) (x : α) :
    ∃ ys, newest room (xs ++ [x]) = ys ++ [x] ∧ ys <:+ xs := by
  unfold newest
  split
  · exact ⟨xs, rfl, List.suffix_refl xs⟩
  · have hl : (xs ++ [x]).length - room ≤ xs.length := by simp; omega
    exact ⟨xs.drop _, List.drop_append_of_le_length hl, List.drop_suffix _ xs⟩

theorem Journal.trim_eq {j : Journal ι} {room : Nat} (h : j.limit.room? = some room)
    (hp : j.position = j.entries.length) :
    j.trim = .ok { j with
      entries := newest room j.entries
      position := (newest room j.entries).length } := by
  simp only [trim, Value.excess_of_room h, newest]
  by_cases h0 : room = 0
  · simp [h0, ← hp, bind, Except.bind, pure, Except.pure]
  · by_cases hs : j.entries.length ≤ room
    · have hd : j.entries.length - room = 0 := by omega
      simp [h0, hs, hd, ← hp, bind, Except.bind, pure, Except.pure]
    · have hl : j.position - (j.entries.length - room : Nat) =
          (j.entries.drop (j.entries.length - room)).length := by
        rw [List.length_drop]
        omega
      simp [h0, hs, bind, Except.bind, pure, Except.pure, forget, hl]

theorem Journal.trim_push {j : Journal ι} {room : Nat} (h : j.limit.room? = some room) (x : ι) :
    (j.push x).trim = .ok { j with
      entries := newest room (j.done ++ [x])
      position := (newest room (j.done ++ [x])).length } :=
  trim_eq (j := j.push x) h (by simp [push])

theorem Timeline.trim_eq {t : Timeline ι} {room : Nat} (h : t.limit.room? = some room) :
    t.trim = .ok { t with
      entries := newest room t.entries
      pointer := (newest room t.entries).length - 1 } := by
  simp only [trim, Value.excess_of_room h, newest]
  by_cases h0 : room = 0
  · simp [h0, bind, Except.bind, pure, Except.pure]
  · by_cases hs : t.entries.length ≤ room
    · have hd : t.entries.length - room = 0 := by omega
      simp [h0, hs, hd, bind, Except.bind, pure, Except.pure]
    · simp [h0, hs, bind, Except.bind, pure, Except.pure]

/-- The number that a limit is, zero if it is none. What is no integer is no such number. -/
def Value.bound? : Value → Option Int
  | null => some 0
  | bool b => some b.toNat
  | int n => some n
  | _ => none

theorem Value.room_of_bound {v : Value} {n : Int} (h : v.bound? = some n) (hn : 0 ≤ n) :
    v.room? = some n.toNat := by
  cases v with
  | null => cases h; rfl
  | bool b => cases h; rfl
  | int m =>
    cases h
    exact if_pos hn
  | float x | text t | list vs | dict fs => cases h

theorem Value.bound_of_room {v : Value} {room : Nat} (h : v.room? = some room) :
    v.bound? = some (room : Int) := by
  cases v with
  | null => cases h; rfl
  | bool b => cases h; rfl
  | int n =>
    simp only [room?] at h
    split at h
    · cases h
      rw [bound?, Int.toNat_of_nonneg (by assumption)]
    · cases h
  | float x | text t | list vs | dict fs => cases h

/-- A negative limit is exceeded by all entries and more. -/
theorem Value.excess_of_neg {v : Value} {n : Int} (h : v.bound? = some n) (hn : n < 0)
    (size : Nat) : v.excess size = .ok (some ((size : Int) - n).toNat) := by
  cases v with
  | null => cases h; omega
  | bool b => cases h; omega
  | int m =>
    cases h
    simp [excess, truth, show n < size by omega, show n ≠ 0 by omega]
  | float x | text t | list vs | dict fs => cases h

theorem Value.exists_excess_of_neg {v : Value} {n : Int} (h : v.bound? = some n) (hn : n < 0)
    (size : Nat) : ∃ k, v.excess size = .ok (some k) ∧ size ≤ k :=
  ⟨_, excess_of_neg h hn size, by omega⟩

/-- With a negative limit nothing that is recorded stays, and the position falls to the limit. -/
theorem Journal.trim_push_of_neg {j : Journal ι} {n : Int} (h : j.limit.bound? = some n)
    (hn : n < 0) (x : ι) : (j.push x).trim = .ok { j with entries := [], position := n } := by
  have hexcess := Value.excess_of_neg h hn (j.done ++ [x]).length
  have hle : (j.done ++ [x]).length ≤ (((j.done ++ [x]).length : Int) - n).toNat := by omega
  have hpos : (j.done.length : Int) + 1 - (((j.done ++ [x]).length : Int) - n).toNat = n := by
    rw [List.length_append, List.length_singleton]
    omega
  simp only [trim, push, hexcess, forget, List.drop_eq_nil_of_le hle, hpos, bind, Except.bind,
    pure, Except.pure]

theorem Journal.exists_trim {j : Journal ι} (h : j.limit.bound?.isSome = true) :
    ∃ t, j.trim = .ok t ∧ t.limit = j.limit := by
  obtain ⟨n, hn⟩ := Option.isSome_iff_exists.1 h
  obtain ⟨e, he⟩ : ∃ e, j.limit.excess j.entries.length = .ok e := by
    by_cases h0 : n < 0
    · obtain ⟨e, he, -⟩ := Value.exists_excess_of_neg hn h0 j.entries.length
      exact ⟨_, he⟩
    · exact ⟨_, Value.excess_of_room (Value.room_of_bound hn (by omega)) _⟩
  cases e with
  | none => exact ⟨j, by simp [trim, he, bind, Except.bind, pure, Except.pure], rfl⟩
  | some n => exact ⟨j.forget n, by simp [trim, he, bind, Except.bind, pure, Except.pure], rfl⟩

/-- The newest entries, as many as a limit leaves room for: all of them if it is zero, none if it is
negative. -/
def latest (limit : Int) (xs : List α) : List α :=
  if limit < 0 then [] else newest limit.toNat xs

theorem exists_latest_append {limit : Int} (h : 0 ≤ limit) (xs : List α) (x : α) :
    ∃ ys, latest limit (xs ++ [x]) = ys ++ [x] ∧ ys <:+ xs := by
  rw [latest, if_neg (by omega)]
  exact exists_newest_append _ xs x

/-- Whatever integer the limit is, a timeline keeps what it leaves room for. -/
theorem Timeline.trim_of_bound {t : Timeline ι} {limit : Int} (h : t.limit.bound? = some limit) :
    t.trim = .ok { t with
      entries := latest limit t.entries
      pointer := (latest limit t.entries).length - 1 } := by
  by_cases hn : limit < 0
  · obtain ⟨k, hk, hle⟩ := Value.exists_excess_of_neg h hn t.entries.length
    have hd : t.entries.drop k = [] := List.drop_eq_nil_of_le hle
    rw [latest, if_pos hn]
    simp [trim, hk, hd, bind, Except.bind, pure, Except.pure]
  · rw [latest, if_neg hn]
    exact trim_eq (Value.room_of_bound h (by omega))

/-- Only what is no integer fails as a limit. -/
theorem Timeline.unbound_of_trim {t : Timeline ι} {e : Fault} (h : t.trim = .error e) :
    t.limit.bound? = none := by
  cases hl : t.limit.bound? with
  | none => rfl
  | some limit => cases (trim_of_bound hl).symm.trans h

/-- With a new state, a timeline keeps some of its entries and ends in that state. -/
theorem Timeline.exists_trim_push {t : Timeline ι} {room : Nat} (h : t.limit.room? = some room)
    (same : ι → ι → Bool) (x : ι) :
    ∃ ys, ys ⊆ t.entries ∧ (t.push same x).trim = .ok { t with
      entries := ys ++ [x]
      pointer := (ys ++ [x]).length - 1 } := by
  obtain ⟨ys, hys, hsuffix⟩ := exists_newest_append room (t.kept same x) x
  refine ⟨ys, fun y hy ↦ t.kept_subset same x (hsuffix.subset hy), ?_⟩
  have htrim := trim_eq (t := t.push same x) h
  rw [htrim, push, hys]

end Rewind
