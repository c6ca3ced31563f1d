import Rewind.Proofs.Selecting

namespace Rewind

namespace Value

variable {vs ws us : List Value}

theorem sameItems_refl (h : ∀ v ∈ vs, Keyed v) : sameItems vs vs = true :=
  sameItems_iff_alike.2 (keyed_list.2 h).alike_refl

theorem sameItems_symm (hv : ∀ v ∈ vs, Keyed v) (hw : ∀ w ∈ ws, Keyed w)
    (h : sameItems vs ws = true) : sameItems ws vs = true :=
  sameItems_iff_alike.2 ((keyed_list.2 hv).alike_symm (keyed_list.2 hw) (sameItems_iff_alike.1 h))

theorem sameItems_trans (hv : ∀ v ∈ vs, Keyed v) (hw : ∀ w ∈ ws, Keyed w) (hu : ∀ u ∈ us, Keyed u)
    (h : sameItems vs ws = true) (h' : sameItems ws us = true) : sameItems vs us = true :=
  sameItems_iff_alike.2 ((keyed_list.2 hv).alike_trans (keyed_list.2 hw) (keyed_list.2 hu)
    (sameItems_iff_alike.1 h) (sameItems_iff_alike.1 h'))

end Value

namespace Selection

variable {vs ws : List Value}

/-- The residue of one node. -/
def residue (v : Value) : Except Fault Value.Residue :=
  match v.residue? with
  | some r => .ok r
  | none => .error (.notMember v.kind)

theorem residues_cons (v : Value) (vs : List Value) :
    residues (v :: vs) = do return (← residue v) :: (← residues vs) := List.mapM_cons

theorem residue_congr {v w : Value} (h : Value.Alike v w) : residue v = residue w := by
  obtain ⟨hr, hk⟩ := Value.residue?_of_alike h
  rw [residue, residue, ← hr]
  cases hn : v.residue? with
  | some r => rfl
  | none => rw [hk hn]

/-- Equal nodes have equal residues, or fail to have them in the same way. -/
theorem residues_congr (h : Value.sameItems vs ws = true) : residues vs = residues ws := by
  induction Value.sameItems_iff_forall₂.1 h with
  | nil => rfl
  | @cons v w vs ws hv hvs ih =>
    rw [residues_cons, residues_cons, residue_congr hv, ih (Value.sameItems_iff_forall₂.2 hvs)]

theorem kind_of_residues {e : Fault} (h : residues vs = .error e) : e.kind = .type := by
  induction vs with
  | nil => cases h
  | cons v vs ih =>
    rw [residues_cons, residue] at h
    cases hn : v.residue? with
    | none =>
      rw [hn] at h
      cases h
      rfl
    | some r =>
      rw [hn] at h
      cases hrest : residues vs with
      | error e' =>
        rw [hrest] at h
        cases h
        exact ih hrest
      | ok rs =>
        rw [hrest] at h
        cases h

/-- Selecting equal nodes fails for both, or leads to equal nodes. -/
theorem select?_congr (h : Value.sameItems vs ws = true) (s : Selection) :
    (∃ e e', s.select? vs = .error e ∧ s.select? ws = .error e') ∨
      ∃ t t', s.select? vs = .ok t ∧ s.select? ws = .ok t' ∧
        Value.sameItems (t.getD s).nodes (t'.getD s).nodes = true := by
  by_cases ha : Value.AllHashable vs
  · have ha' : Value.AllHashable ws := ha.of_sameItems h
    have hfirsts : Value.AllHashable (Value.firsts vs) :=
      (Value.settled_of_distinct (Value.distinct_eq_firsts ha)).hashable
    have hsame : Value.sameItems (Value.firsts vs) (Value.firsts ws) = true :=
      Value.sameItems_firsts ha h
    have hback := hfirsts.sameItems_symm hsame
    right
    refine ⟨_, _, Session.select?_eq_firsts ha, Session.select?_eq_firsts ha', ?_⟩
    cases hs : Value.sameItems (Value.firsts vs) s.nodes with
    | true =>
      have hs' : Value.sameItems (Value.firsts ws) s.nodes = true :=
        (hfirsts.of_sameItems hsame).sameItems_trans hback hs
      rw [hs']
      exact (hfirsts.of_sameItems hs).sameItems_refl
    | false =>
      have hs' : Value.sameItems (Value.firsts ws) s.nodes = false := by
        refine Bool.eq_false_iff.2 fun hs' ↦ ?_
        cases hs.symm.trans (hfirsts.sameItems_trans hsame hs')
      rw [hs']
      exact hsame
  · have ha' : ¬ Value.AllHashable ws := fun ha' ↦ ha ((Value.allHashable_congr h).2 ha')
    left
    obtain ⟨e, he⟩ := Session.exists_select?_error (s := s) ha
    obtain ⟨e', he'⟩ := Session.exists_select?_error (s := s) ha'
    exact ⟨e, e', he, he'⟩

end Selection

namespace Session

/-- A selection is as it was. -/
def World.SameSelection (x : Nat) (w w' : World) : Prop := w'.selection x = w.selection x

theorem sameSelection_tolerant (x : Nat) :
    Tolerant (fun _ ↦ False) (World.SameSelection x) where
  refl _ := rfl
  trans h h' := h'.trans h
  event _ _ _ := rfl
  reading _ _ := rfl
  listing _ _ _ := rfl
  timeline _ _ _ _ := rfl
  left _ _ _ _ := rfl
  item _ _ := rfl

section Restoring

variable {m n j x : Nat} {Calm : World → Prop} {w : World} {vs ws : List Value}

theorem select_raised {b : Inner} {nodes : List Value} {e : Fault}
    (he : (w.selection x).select? nodes = .error e) : select b x nodes w = .raised e w := by
  have hl : (select b x nodes).Leads w (fun _ _ ↦ False) (fun e' w' ↦ e' = e ∧ w' = w) False := by
    refine leads_select.2 ⟨fun e' he' ↦ ⟨?_, rfl⟩, fun he' ↦ ?_, fun s he' ↦ ?_⟩
    · exact Except.error.inj (he'.symm.trans he)
    · cases he'.symm.trans he
    · cases he'.symm.trans he
  obtain ⟨_, _, hrun, rfl, rfl⟩ := hl.exists_raised
  exact hrun

/-- Where listeners leave a selection alone, selecting nodes makes of it what it is to make. -/
theorem exists_select_returned (hb : Bystanders m j x (World.SameSelection x) Calm) (hn : m + 4 ≤ n)
    (hw : w.Sound) (hc : Calm w) (hx : x < w.selections.length) {nodes : List Value}
    {t : Option Selection} (ht : (w.selection x).select? nodes = .ok t) :
    ∃ u, select (inner n) x nodes w = .returned () u ∧
      u.selection x = t.getD (w.selection x) := by
  have hl : (select (inner n) x nodes).Leads w (fun _ u ↦ u.selection x = t.getD (w.selection x))
      (fun _ _ ↦ False) False := by
    refine leads_select.2 ⟨fun e he ↦ ?_, fun he ↦ ?_, fun s he ↦ ?_⟩
    · cases he.symm.trans ht
    · cases Except.ok.inj (he.symm.trans ht)
      rfl
    · cases Except.ok.inj (he.symm.trans ht)
      have hset := hw.grown_selection x (Value.settled_of_distinct (distinct_of_select he))
      refine ((hb.aside (sameSelection_tolerant x) _).leads_announce_selection hn
        ⟨rfl, hset.sound.refl, hb.stable hc (World.beside_selection s)⟩
        fun _ _ _ _ _ _ h ↦ h).mono (fun _ u hu ↦ ?_) (fun _ _ h ↦ h.elim)
      exact hu.1.trans (World.selection_set hx s)
  obtain ⟨_, u, hrun, hu⟩ := hl.exists_returned
  exact ⟨u, hrun, hu⟩

/-- Selecting equal nodes fails for both and changes nothing, or leads to equal nodes. -/
theorem select_congr (hb : Bystanders m j x (World.SameSelection x) Calm) (hn : m + 4 ≤ n)
    (hw : w.Sound) (hc : Calm w) (hx : x < w.selections.length)
    (h : Value.sameItems vs ws = true) :
    (∃ e e', select (inner n) x vs w = .raised e w ∧ select (inner n) x ws w = .raised e' w) ∨
      ∃ u u', select (inner n) x vs w = .returned () u ∧ select (inner n) x ws w = .returned () u' ∧
        Value.sameItems (u.selection x).nodes (u'.selection x).nodes = true := by
  obtain ⟨e, e', he, he'⟩ | ⟨t, t', ht, ht', hsame⟩ := (w.selection x).select?_congr h
  · exact .inl ⟨e, e', select_raised he, select_raised he'⟩
  · obtain ⟨u, hrun, hu⟩ := exists_select_returned hb hn hw hc hx ht
    obtain ⟨u', hrun', hu'⟩ := exists_select_returned hb hn hw hc hx ht'
    refine .inr ⟨u, u', hrun, hrun', ?_⟩
    rw [hu, hu']
    exact hsame

end Restoring

/-- An item is a capture of nodes in which the keys of every dictionary differ. -/
def World.HasCapture (w : World) (i : Nat) (c : Capture) : Prop :=
  w.items[i]? = some (.capture c) ∧ ∀ v ∈ c.nodes, v.Keyed

/-- Captures are equal if their nodes are, whatever selection they are of. Equal captures have equal
residues, and what is restored from them is equal. -/
structure World.Compares (w : World) : Prop where
  refl : ∀ i c, w.HasCapture i c → w.sameItem i i = true
  symm : ∀ i j c d, w.HasCapture i c → w.HasCapture j d → w.sameItem i j = true →
    w.sameItem j i = true
  trans : ∀ i j k c d e, w.HasCapture i c → w.HasCapture j d → w.HasCapture k e →
    w.sameItem i j = true → w.sameItem j k = true → w.sameItem i k = true
  elsewhere : ∀ (v : World) i j c d o o', w.HasCapture i c → w.HasCapture j d →
    v.items[i]? = some (.capture { c with selection := o }) →
    v.items[j]? = some (.capture { d with selection := o' }) → v.sameItem i j = w.sameItem i j
  other : ∀ i j c item, w.HasCapture i c → w.items[j]? = some item → (∀ d, item ≠ .capture d) →
    w.sameItem i j = false ∧ w.sameItem j i = false
  compared : ∀ b left right i j, w.item left = .ok i → w.item right = .ok j →
    perform b (.compare left right) w = .returned (.value (.list
      [.bool (w.sameItem i j), .bool (!w.sameItem i j), .bool (w.sameItem j i)])) w
  tuple : ∀ b name nodes i vs, w.item name = .ok i → nodes.members = .ok vs →
    perform b (.compareTuple name nodes) w =
      .returned (.value (.list [.bool false, .bool true, .bool false])) w
  residues : ∀ i j c d, w.HasCapture i c → w.HasCapture j d → w.sameItem i j = true →
    (∃ r, w.residues i = .ok (some r) ∧ w.residues j = .ok (some r)) ∨
      ∃ e, w.residues i = .error e ∧ w.residues j = .error e ∧ e.kind = .type
  selected : ∀ i j c d, w.HasCapture i c → w.HasCapture j d → w.sameItem i j = true →
    ∀ s : Selection, (∃ e e', s.select? c.nodes = .error e ∧ s.select? d.nodes = .error e') ∨
      ∃ t t', s.select? c.nodes = .ok t ∧ s.select? d.nodes = .ok t' ∧
        Value.sameItems (t.getD s).nodes (t'.getD s).nodes = true
  restored : ∀ i j c d, w.HasCapture i c → w.HasCapture j d → w.sameItem i j = true →
    ∀ {m n k x Calm}, Bystanders m k x (World.SameSelection x) Calm → m + 4 ≤ n → w.Sound → Calm w →
      x < w.selections.length → c.selection = .selection x →
      (∃ e e', (inner (n + 1)).call .restore i w = .raised e w ∧
        select (inner n) x d.nodes w = .raised e' w) ∨
      ∃ u u', (inner (n + 1)).call .restore i w = .returned () u ∧
        select (inner n) x d.nodes w = .returned () u' ∧
        Value.sameItems (u.selection x).nodes (u'.selection x).nodes = true

theorem World.sameItem_capture {w : World} {i j : Nat} {c d : Capture}
    (hi : w.items[i]? = some (.capture c)) (hj : w.items[j]? = some (.capture d)) :
    w.sameItem i j = Value.sameItems c.nodes d.nodes := by
  simp [sameItem, equal, answersEqual, hi, hj, Item.answersEqual]

namespace World.HasCapture

variable {w : World} {i j : Nat} {c d : Capture}

theorem sameItem (hi : w.HasCapture i c) (hj : w.HasCapture j d) :
    w.sameItem i j = Value.sameItems c.nodes d.nodes := World.sameItem_capture hi.1 hj.1

theorem residues (hi : w.HasCapture i c) : w.residues i = some <$> Selection.residues c.nodes := by
  rw [World.residues, hi.1]

theorem sameItem_other (hi : w.HasCapture i c) {item : Item} (hj : w.items[j]? = some item)
    (ho : ∀ d, item ≠ .capture d) : w.sameItem i j = false ∧ w.sameItem j i = false := by
  have hne : i ≠ j := by
    rintro rfl
    exact ho c (Option.some.inj (hj.symm.trans hi.1))
  -- Neither knows of the other, and they are not the same.
  have hn : w.answersEqual (.item i) (.item j) = none ∧
      w.answersEqual (.item j) (.item i) = none := by
    cases item with
    | capture d => exact absurd rfl (ho d)
    | edit _ | group _ | change _ | state _ =>
      simp [World.answersEqual, hi.1, hj, Item.answersEqual]
  rw [World.sameItem, World.sameItem, World.equal, World.equal, hn.1, hn.2]
  exact ⟨beq_false_of_ne hne, beq_false_of_ne hne.symm⟩

theorem residues_congr (hi : w.HasCapture i c) (hj : w.HasCapture j d) (h : w.sameItem i j = true) :
    (∃ r, w.residues i = .ok (some r) ∧ w.residues j = .ok (some r)) ∨
      ∃ e, w.residues i = .error e ∧ w.residues j = .error e ∧ e.kind = .type := by
  rw [hi.sameItem hj] at h
  rw [hi.residues, hj.residues, Selection.residues_congr h]
  cases hr : Selection.residues d.nodes with
  | ok r => exact .inl ⟨r, rfl, rfl⟩
  | error e => exact .inr ⟨e, rfl, rfl, Selection.kind_of_residues hr⟩

theorem call_restore (hi : w.HasCapture i c) {n x : Nat} (hc : c.selection = .selection x) :
    (inner (n + 1)).call .restore i w = select (inner n) x c.nodes w := by
  show callItem (inner n) .restore i w = _
  unfold callItem
  have hget : Run.get w = .returned w w := rfl
  rw [Run.bind_returned hget]
  simp only [hi.1, hc, selectIn]

end World.HasCapture

theorem captures_compare (w : World) : w.Compares where
  refl i c hi := by
    rw [hi.sameItem hi]
    exact Value.sameItems_refl hi.2
  symm i j c d hi hj h := by
    rw [hi.sameItem hj] at h
    rw [hj.sameItem hi]
    exact Value.sameItems_symm hi.2 hj.2 h
  trans i j k c d e hi hj hk h h' := by
    rw [hi.sameItem hj] at h
    rw [hj.sameItem hk] at h'
    rw [hi.sameItem hk]
    exact Value.sameItems_trans hi.2 hj.2 hk.2 h h'
  elsewhere v i j c d o o' hi hj hi' hj' := by
    rw [hi.sameItem hj, World.sameItem_capture hi' hj']
  other i j c item hi hj ho := hi.sameItem_other hj ho
  compared b left right i j hi hj := by
    show (item left >>= _) w = _
    rw [bind_item hi]
    show (item right >>= _) w = _
    rw [bind_item hj]
    rfl
  tuple b name nodes i vs hi hn := by
    have hm : Run.lift nodes.members w = .returned vs w := by
      rw [hn]
      rfl
    show (item name >>= _) w = _
    rw [bind_item hi, Run.bind_returned hm]
    rfl
  residues i j c d hi hj h := hi.residues_congr hj h
  selected i j c d hi hj h s := by
    rw [hi.sameItem hj] at h
    exact s.select?_congr h
  restored i j c d hi hj h := by
    intro m n k x Calm hb hn hw hc hx hsel
    rw [hi.sameItem hj] at h
    rw [hi.call_restore hsel]
    exact select_congr hb hn hw hc hx h

/-- The shelf with two captures that are equal: one and a truth value differ only as values. -/
def World.twins : World :=
  (World.shelf.nameItem "c" (.capture ⟨some "c", .selection 0, [.int 1, .int 3]⟩)).nameItem "d"
    (.capture ⟨some "d", .selection 1, [.bool true, .int 3]⟩)

theorem sound_twins : World.twins.Sound := by
  have hset : Value.Settled [.bool true, .int 2] := by decide +kernel
  have hmade := (World.sound_new false).grown_addSelection (s := ⟨_⟩) hset
  have hnamed := hmade.sound.grown_present "s" (o := .selection 0) (by simp [World.Has])
  have hplain (k : Nat) : Slot.listen [.fail .null] none ≠ .capture k := by
    intro h
    cases h
  have hshelf := hnamed.sound.grown_connect (.selection 0) .selectionChanged
    (.listen [.fail .null] none) trivial fun k hk ↦ absurd hk (hplain k)
  exact ((hshelf.sound.grown_nameItem _ _).sound.grown_nameItem _ _).sound

theorem captures_compare_crossed :
    World.twins.sameItem 0 1 = true ∧
      ∃ u u', (inner 5).call .restore 0 World.twins = .returned () u ∧
        select (inner 4) 0 [.bool true, .int 3] World.twins = .returned () u' ∧
        Value.sameItems (u.selection 0).nodes (u'.selection 0).nodes = true := by
  have hplain : Value.AllHashable [.int 1, .int 3] ∧ Value.AllHashable [.bool true, .int 3] := by
    decide
  have hc : World.twins.HasCapture 0 ⟨some "c", .selection 0, [.int 1, .int 3]⟩ :=
    ⟨rfl, fun v hv ↦ .scalar (hplain.1 v hv)⟩
  have hd : World.twins.HasCapture 1 ⟨some "d", .selection 1, [.bool true, .int 3]⟩ :=
    ⟨rfl, fun v hv ↦ .scalar (hplain.2 v hv)⟩
  have h : World.twins.sameItem 0 1 = true := by decide +kernel
  have hreturned : ((inner 5).call .restore 0 World.twins).fault? = none := by decide +kernel
  refine ⟨h, ?_⟩
  obtain ⟨e, -, he, -⟩ | hu := (captures_compare World.twins).restored 0 1 _ _ hc hd h
    (bystanders_failing 0 0 fun _ ↦ rfl) (Nat.le_refl 4) sound_twins (by decide +kernel)
    (by decide +kernel) rfl
  · rw [he] at hreturned
    cases hreturned
  · exact hu

end Session

end Rewind
