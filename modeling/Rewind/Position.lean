namespace Rewind.Position

variable {α : Type}

/-- The entry at a position. Negative positions count from the end of the list. -/
def item? (entries : List α) (i : Int) : Option α :=
  if 0 ≤ i then entries[i.toNat]?
  else if 0 ≤ i + entries.length then entries[(i + entries.length).toNat]?
  else none

theorem item?_natCast (entries : List α) (n : Nat) : item? entries n = entries[n]? := by
  simp [item?]

/-- There is an entry at every position within the list. -/
theorem exists_item? {entries : List α} {i : Int} (h : 0 ≤ i) (hi : i < entries.length) :
    ∃ x ∈ entries, item? entries i = some x := by
  have hn : i.toNat < entries.length := by omega
  refine ⟨entries[i.toNat], List.getElem_mem hn, ?_⟩
  simp only [item?, if_pos h, List.getElem?_eq_getElem hn]

theorem mem_of_item? {entries : List α} {i : Int} {x : α} (h : item? entries i = some x) :
    x ∈ entries := by
  unfold item? at h
  split at h
  · exact List.mem_of_getElem? h
  · split at h
    · exact List.mem_of_getElem? h
    · cases h

/-- The entries before a position. -/
def before (entries : List α) (i : Int) : List α :=
  if 0 ≤ i then entries.take i.toNat else entries.take (i + entries.length).toNat

/-- What stands before a position starts the list. -/
theorem before_eq_take (entries : List α) (i : Int) :
    before entries i = entries.take (before entries i).length := by
  have h (n : Nat) : entries.take n = entries.take (entries.take n).length := by
    rcases Nat.le_total n entries.length with hn | hn
    · rw [List.length_take_of_le hn]
    · rw [List.take_of_length_le hn, List.take_length]
  unfold before
  split
  · exact h _
  · exact h _

theorem before_natCast (entries : List α) (n : Nat) : before entries n = entries.take n := by
  simp [before]

theorem length_before {entries : List α} {i : Int} (h : 0 ≤ i) (hi : i ≤ entries.length) :
    ((before entries i).length : Int) = i := by
  simp only [before, if_pos h, List.length_take]
  omega

end Rewind.Position
