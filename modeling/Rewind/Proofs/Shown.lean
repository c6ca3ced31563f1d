import Rewind.Proofs.Refreshing

namespace Rewind

theorem Binary64.one_pos : 0 < one := by decide +kernel

namespace Number

theorem lt_ofInt (a b : Int) : (ofInt a).lt (ofInt b) = decide (a < b) := by
  have h : (a * Binary64.one < b * Binary64.one) ↔ a < b :=
    Int.mul_lt_mul_right (Int.natCast_pos.2 Binary64.one_pos)
  simp only [ofInt, lt, h]

theorem le_ofInt (a b : Int) : (ofInt a).le (ofInt b) = decide (a ≤ b) := by
  have h : (a * Binary64.one = b * Binary64.one) ↔ a = b :=
    Int.mul_eq_mul_right_iff (Int.natCast_ne_zero.2 (Nat.ne_of_gt Binary64.one_pos))
  have hs : (ofInt a).same (ofInt b) = decide (a = b) := decide_eq_decide.2 h
  rw [le, lt_ofInt, hs, ← Bool.decide_or]
  exact decide_eq_decide.2 Int.le_iff_lt_or_eq.symm

end Number

theorem Value.position_int (n : Int) (size : Nat) :
    (int n).position size = .ok (if 0 ≤ n ∧ n < size then some n.toNat else none) := by
  simp only [position, number?, Number.le_ofInt, Number.lt_ofInt, Bool.and_eq_true,
    decide_eq_true_eq]
  split
  · rfl
  · rfl

namespace Listing

variable {ι : Type} {l : Listing ι} {x : ι}

theorem row?_natCast {row : Nat} (h : l.rows[row]? = some x) :
    l.row? (.int row) = .ok (some x) := by
  obtain ⟨hlt, -⟩ := List.getElem?_eq_some_iff.1 h
  have hin : 0 ≤ (row : Int) ∧ (row : Int) < l.rows.length := by omega
  simp only [row?, Value.position_int, if_pos hin]
  exact congrArg Except.ok h

theorem row?_outside {row : Int} (h : row < 0 ∨ l.rows.length ≤ row) :
    l.row? (.int row) = .ok none := by
  have hout : ¬ (0 ≤ row ∧ row < l.rows.length) := by omega
  simp only [row?, Value.position_int, if_neg hout]
  rfl

end Listing

namespace Session

/-- A listing looks like the journal. -/
structure World.Mirrored (w : World) (k j : Nat) : Prop where
  rows : (w.listing k).1.rows = (w.journal j).entries
  view : ∀ brief, w.view brief (.listing k) = .listing {
    rows := (w.journal j).entries.length
    currentRow := .int ((w.journal j).position - 1)
    data := if brief then none else some ((w.journal j).entries.mapIdx fun row i ↦
      ⟨seen ((w.describe i).map .value), (w.label i).toValue,
        .bool (row < (w.journal j).position)⟩) }

/-- What is asked of a listing, by its name, is answered by the journal. -/
structure World.Answers (w : World) (b : Inner) (name : Text) (j : Nat) : Prop where
  countRows : perform b (.countRows name none) w =
    .returned (.int (w.journal j).entries.length) w
  editAt : ∀ (row : Nat) i, (w.journal j).entries[row]? = some i →
    perform b (.editAt name (.int row)) w = .returned (.item (w.label i)) w
  editAt_outside : ∀ row : Int, row < 0 ∨ (w.journal j).entries.length ≤ row →
    perform b (.editAt name (.int row)) w = .returned .nothing w
  cell : ∀ index (row : Nat) i, w.rowOf index = .ok (some row) →
    (w.journal j).entries[row]? = some i →
    perform b (.cell name index (some .edit)) w = .returned (.item (w.label i)) w ∧
    perform b (.cell name index (some .applied)) w =
      .returned (.bool (row < (w.journal j).position)) w
  cell_outside : ∀ index role, w.rowOf index = .ok none ∨
      (∃ row, w.rowOf index = .ok (some row) ∧ (w.journal j).entries.length ≤ row) →
    perform b (.cell name index role) w = .returned .nothing w

variable {b : Inner} {w : World} {name : Text} {j k : Nat}

theorem bind_listingOf {α : Type} {f : Nat → Run World α} (ho : w.object name = .ok (.listing k))
    (operation : Text) : (listingOf name operation >>= f) w = f k w := by
  have hk : listingOf name operation w = .returned k w := bind_object ho
  exact Run.bind_returned hk

theorem perform_editAt (ho : w.object name = .ok (.listing k)) {row : Value} {i : Option Nat}
    (hi : (w.listing k).1.row? row = .ok i) :
    perform b (.editAt name row) w =
      .returned ((i.map fun i ↦ .item (w.label i)).getD .nothing) w := by
  show (listingOf name "command_at" >>= _) w = _
  rw [bind_listingOf ho]
  show (Run.lift ((w.listing k).1.row? row) >>= _) w = _
  rw [hi]
  cases i with
  | none => rfl
  | some i => rfl

theorem perform_cell (ho : w.object name = .ok (.listing k)) {index : Option Text} {row : Nat}
    (hi : w.rowOf index = .ok (some row)) {role : Listing.Role} {a : Answer}
    (ha : w.cell k row role = .ok a) :
    perform b (.cell name index (some role)) w = .returned a w := by
  show (listingOf name "data" >>= _) w = _
  rw [bind_listingOf ho]
  show (Run.lift (w.rowOf index) >>= _) w = _
  rw [hi]
  show Run.lift (w.cell k row role) w = _
  rw [ha]
  rfl

/-- A row is not shown of an index that is outside, nor to those who ask for anything else. -/
theorem perform_cell_nothing (ho : w.object name = .ok (.listing k)) {index : Option Text}
    {row : Option Nat} (hi : w.rowOf index = .ok row) {role : Option Listing.Role}
    (h : row = none ∨ role = none) :
    perform b (.cell name index role) w = .returned .nothing w := by
  show (listingOf name "data" >>= _) w = _
  rw [bind_listingOf ho]
  show (Run.lift (w.rowOf index) >>= _) w = _
  rw [hi]
  rcases h with rfl | rfl
  · rfl
  · cases row <;> rfl

section Rows

variable (hj : (w.listing k).2 = .journal j) (hr : (w.listing k).1.rows = (w.journal j).entries)

include hj hr

theorem World.cell_eq {row i : Nat} (hi : (w.journal j).entries[row]? = some i) :
    w.cell k row .display = (w.describe i).map .value ∧
      w.cell k row .edit = .ok (.item (w.label i)) ∧
      w.cell k row .applied = .ok (.bool (row < (w.journal j).position)) := by
  unfold cell
  simp only [hr, hi, hj]
  exact ⟨trivial, trivial, rfl⟩

theorem World.view_eq (brief : Bool) : w.view brief (.listing k) = .listing {
    rows := (w.journal j).entries.length
    currentRow := .int ((w.journal j).position - 1)
    data := if brief then none else some ((w.journal j).entries.mapIdx fun row i ↦
      ⟨seen ((w.describe i).map .value), (w.label i).toValue,
        .bool (row < (w.journal j).position)⟩) } := by
  have hdata : ((List.range (w.journal j).entries.length).map fun row ↦
      (⟨seen (w.cell k row .display), seen (w.cell k row .edit),
        seen (w.cell k row .applied)⟩ : RowView)) =
      (w.journal j).entries.mapIdx fun row i ↦ ⟨seen ((w.describe i).map .value),
        (w.label i).toValue, .bool (row < (w.journal j).position)⟩ := by
    refine List.ext_getElem (by simp) fun row hrow _ ↦ ?_
    rw [List.length_map, List.length_range] at hrow
    obtain ⟨hdisplay, hedit, happlied⟩ := cell_eq hj hr (List.getElem?_eq_getElem hrow)
    simp only [List.getElem_map, List.getElem_range, List.getElem_mapIdx, hdisplay, hedit, happlied]
    rfl
  rw [← hdata, ← hr]
  simp only [view, hj]
  rfl

theorem World.answers (ho : w.object name = .ok (.listing k)) (b : Inner) :
    w.Answers b name j where
  countRows := by
    show (listingOf name "rowCount" >>= _) w = _
    rw [bind_listingOf ho, ← hr]
    rfl
  editAt row i hi := perform_editAt ho (Listing.row?_natCast (hr ▸ hi))
  editAt_outside row h := perform_editAt ho (Listing.row?_outside (hr ▸ h))
  cell index row i hindex hi := by
    obtain ⟨-, hedit, happlied⟩ := cell_eq hj hr hi
    exact ⟨perform_cell ho hindex hedit, perform_cell ho hindex happlied⟩
  cell_outside index role h := by
    rcases h with h | ⟨row, h, hrow⟩
    · exact perform_cell_nothing ho h (.inl rfl)
    · cases role with
      | none => exact perform_cell_nothing ho h (.inr rfl)
      | some role =>
        refine perform_cell ho h ?_
        unfold World.cell
        simp only [hr, List.getElem?_eq_none hrow]

end Rows

/-- Listings show their journals as long as all items can be described, whatever the code of items
and those who listen do: they may change the journal again before a listing has read its rows, or
while it does so, and may fail. -/
theorem listings_mirror (h : ReachedTamely w) (hd : w.Described) (hk : w.Shows k j) :
    w.Mirrored k j ∧ ∀ name, w.object name = .ok (.listing k) → ∀ b, w.Answers b name j := by
  have hr := ((h.mirroring j).mirrors hd).fresh k hk List.not_mem_nil
  have hj : (w.listing k).2 = .journal j := by
    obtain ⟨l, hl⟩ := hk.1
    rw [World.listing, List.getD_eq_getElem?_getD, hl]
    rfl
  exact ⟨⟨hr, World.view_eq hj hr⟩, fun name ho b ↦ World.answers hj hr ho b⟩

/-- A journal with a listing. When that is first to read its rows again, another edit is recorded,
and undoing that edit makes another listing. Those who listen fail in the end. -/
def World.gallery : World :=
  (World.after {} 9 [.newJournal "edits" (.int 2), .newListing "rows" "edits",
    .edit "first" (.text "First") none [] [] none,
    .edit "second" (.text "Second") none [.newListing "more" "edits"] [] none,
    .listen "rows" "modelAboutToBeReset" [.add "edits" "second", .fail .null] (some 1),
    .listen "edits" "history_changed" [.fail .null] none,
    .add "edits" "first", .index "rows" "last" 1 0, .undo "edits"]).get (by decide +kernel)

theorem World.reached_gallery : ReachedTamely gallery :=
  .after (.start false) (by decide +kernel) (Option.some_get _).symm

theorem listings_mirror_reentered :
    (World.gallery.listing 0).1.rows = [0, 1] ∧ (World.gallery.listing 1).1.rows = [0, 1] ∧
      (∀ b, World.gallery.Answers b "rows" 0) ∧ (∀ b, World.gallery.Answers b "more" 0) ∧
      ∀ b, perform b (.cell "more" (some "last") (some .applied)) World.gallery =
        .returned (.bool false) World.gallery := by
  have hdescribed : World.gallery.Described := by decide +kernel
  have hnames : World.gallery.objects.lookup ("rows" : Text) = some (.listing 0) ∧
      World.gallery.objects.lookup ("more" : Text) = some (.listing 1) ∧
      World.gallery.indexes.lookup ("last" : Text) = some (some 1) := by decide +kernel
  have hobjects : World.gallery.object "rows" = .ok (.listing 0) ∧
      World.gallery.object "more" = .ok (.listing 1) := by
    simp only [World.object, World.resolve, hnames, and_self]
  have hindex : World.gallery.rowOf (some "last") = .ok (some 1) := by
    simp only [World.rowOf, World.resolve, hnames]
  have hjournal : (World.gallery.journal 0).entries = [0, 1] ∧
      (World.gallery.journal 0).position = 1 := by decide +kernel
  have hshows (k : Nat) (hk : World.gallery.listings[k]?.map (·.2) = some (.journal 0))
      (hf : World.gallery.isFollowing k = true) : World.gallery.Shows k 0 := by
    obtain ⟨⟨l, _⟩, hl, rfl⟩ := Option.map_eq_some_iff.1 hk
    exact ⟨⟨l, hl⟩, hf⟩
  obtain ⟨hrows, hanswers⟩ := listings_mirror World.reached_gallery hdescribed
    (hshows 0 (by decide +kernel) (by decide +kernel))
  obtain ⟨hrows', hanswers'⟩ := listings_mirror World.reached_gallery hdescribed
    (hshows 1 (by decide +kernel) (by decide +kernel))
  refine ⟨hrows.rows.trans hjournal.1, hrows'.rows.trans hjournal.1, hanswers _ hobjects.1,
    hanswers' _ hobjects.2, fun b ↦ ?_⟩
  have hcell := ((hanswers' _ hobjects.2 b).cell (some "last") 1 1 hindex
    (by rw [hjournal.1]; rfl)).2
  rwa [hjournal.2] at hcell

end Session

end Rewind
