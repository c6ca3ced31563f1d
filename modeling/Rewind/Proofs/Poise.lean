import Rewind.Proofs.Plain
import Rewind.Proofs.Reel

namespace Rewind

open Session (Way)

variable {ι : Type} {ends : List (Way × ι) → Way → ι → Option Fault} {r : Request ι}

/-- A timeline with its pointer at an entry, or at none if there are none. -/
structure Timeline.Poised (t : Timeline ι) : Prop where
  bound : t.limit.bound?.isSome
  idle : t.restoring = false
  inRange : t.InRange

namespace Timeline.Poised

variable {m : Tally (Timeline ι) ι} {t : Timeline ι} {same : ι → ι → Bool}

theorem exists_back (h : t.Poised) (hc : t.canUndo = true) :
    ∃ x, Position.item? t.entries (t.pointer + -1) = some x ∧
      t.upshot same .undo = t.replayed x (t.pointer + -1) := by
  obtain ⟨x, hx, hi⟩ := h.inRange.exists_before hc
  have hne : (t.isEmpty || t.pointer == 0) = false := by
    simp only [canUndo, decide_eq_true_eq] at hc
    simp only [isEmpty, List.isEmpty_eq_false_iff.2 (List.ne_nil_of_mem hx), Bool.false_or,
      beq_eq_false_iff_ne]
    omega
  refine ⟨x, hi, ?_⟩
  simp only [upshot, hne, Bool.false_eq_true, if_false, Timeline.restored, hi]
  rfl

theorem exists_forth (h : t.Poised) (hc : t.canRedo = true) :
    ∃ x, Position.item? t.entries (t.pointer + 1) = some x ∧
      t.upshot same .redo = t.replayed x (t.pointer + 1) := by
  obtain ⟨x, -, hi⟩ := h.inRange.exists_after hc
  have hne : (t.pointer == t.entries.length - 1) = false := by
    simp only [canRedo, decide_eq_true_eq] at hc
    simp only [beq_eq_false_iff_ne]
    omega
  refine ⟨x, hi, ?_⟩
  simp only [upshot, hne, Bool.false_eq_true, if_false, Timeline.restored, hi]

theorem restored (h : m.history.Poised) {i : Int} (h0 : 0 ≤ i) (hi : i < m.history.entries.length) :
    (m.after ends (m.history.restored i)).history.Poised := by
  obtain ⟨x, hx, hitem⟩ := Position.exists_item? h0 hi
  have hidle : ({ m.history with restoring := false } : Timeline ι) = m.history := by
    rw [← h.idle]
  simp only [Timeline.restored, hitem, replayed, Tally.after]
  cases ends m.calls .restore x with
  | some e =>
    show ({ m.history with restoring := false } : Timeline ι).Poised
    rwa [hidle]
  | none =>
    refine ⟨h.bound, rfl, ?_⟩
    unfold InRange
    rw [if_neg (List.ne_nil_of_mem hx)]
    exact ⟨h0, hi⟩

theorem meet (h : m.history.Poised) (hr : r.Whole) :
    (Timeline.meet ends same m r).history.Poised := by
  unfold Timeline.meet
  cases r with
  | add x =>
    simp only [upshot]
    split
    · obtain ⟨l, hl⟩ := Option.isSome_iff_exists.1 h.bound
      have htrim := trim_of_bound (t := m.history.push same x) hl
      rw [htrim]
      exact ⟨h.bound, h.idle, InRange.trim htrim⟩
    · exact h
  | undo =>
    simp only [upshot]
    split
    · exact h
    · rename_i hn
      simp only [isEmpty, Bool.or_eq_true, List.isEmpty_iff, beq_iff_eq, not_or] at hn
      have hp := h.inRange.of_ne_nil hn.1
      exact h.restored (by omega) (by omega)
  | redo =>
    simp only [upshot]
    split
    · exact h
    · rename_i hn
      have hp := h.inRange
      simp only [beq_iff_eq] at hn
      unfold InRange at hp
      split at hp
      · rename_i he
        rw [he, hp] at hn
        exact absurd rfl hn
      · exact h.restored (by omega) (by omega)
  | clear => exact ⟨h.bound, h.idle, InRange.empty _⟩
  | setEnabled v => exact ⟨h.bound, h.idle, h.inRange⟩
  | setLimit v => exact ⟨hr, h.idle, h.inRange⟩

theorem visited {rs : List (Request ι)} (h : m.history.Poised)
    (hr : ∀ r ∈ rs, r.Whole) :
    (rs.foldl (Timeline.meet ends same) m).history.Poised := by
  induction rs generalizing m with
  | nil => exact h
  | cons r rs ih =>
    have hrs : ∀ r ∈ rs, r.Whole := fun r hm ↦ hr r (List.mem_cons_of_mem _ hm)
    exact ih (h.meet (hr r List.mem_cons_self)) hrs

end Timeline.Poised

end Rewind
