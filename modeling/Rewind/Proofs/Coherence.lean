import Rewind.Proofs.Bystanders
import Rewind.Proofs.Passage

namespace Rewind

namespace Session

/-- What is selected once the given nodes have been, up to equality. -/
def selected (nodes : List Value) : List (Option Scalar) :=
  ((Value.distinct nodes).toOption.getD []).map Value.scalar?

theorem selected_eq {nodes us : List Value} (h : Value.distinct nodes = .ok us) :
    selected nodes = us.map Value.scalar? := by
  rw [selected, h]
  rfl

namespace World

def live (w : World) (x : Nat) : List (Option Scalar) := (w.selection x).nodes.map Value.scalar?

def goals (w : World) (i : Nat) : List (Option Scalar) × List (Option Scalar) :=
  match w.items[i]? with
  | some (.change c) => (selected c.before, selected c.after)
  | _ => ([], [])

/-- An item changes a selection, to nodes that can be selected. -/
def Changes (w : World) (x i : Nat) : Prop :=
  ∃ c, w.items[i]? = some (.change c) ∧ c.selection = .selection x ∧
    Value.AllHashable c.before ∧ Value.AllHashable c.after

variable {w w' : World} {j x i : Nat}

theorem Changes.grown (h : w.Changes x i) (hg : w.Grown w') :
    w'.Changes x i ∧ w'.goals i = w.goals i := by
  obtain ⟨c, hi, hc⟩ := h
  obtain ⟨text, hi'⟩ := hg.change hi
  exact ⟨⟨_, hi', hc⟩, by simp [goals, hi, hi']⟩

/-- A journal is as it was, but for its limit. -/
structure SameJournal (j : Nat) (w w' : World) : Prop where
  journal : ∃ limit, w'.journal j = { w.journal j with limit }
  room : (w.journal j).limit.room?.isSome → (w'.journal j).limit.room?.isSome

theorem SameJournal.of_eq (h : w'.journals = w.journals) : w.SameJournal j w' := by
  have hj : w'.journal j = w.journal j := by rw [World.journal, h, World.journal]
  exact ⟨⟨_, hj⟩, fun hr ↦ hj ▸ hr⟩

theorem SameJournal.trans {w'' : World} (h : w.SameJournal j w') (h' : w'.SameJournal j w'') :
    w.SameJournal j w'' := by
  obtain ⟨l, hl⟩ := h.journal
  obtain ⟨l', hl'⟩ := h'.journal
  exact ⟨⟨l', by rw [hl', hl]⟩, fun hr ↦ h'.room (h.room hr)⟩

/-- A journal and a selection are as they were, but for the limit of the journal. -/
structure Spares (j x : Nat) (w w' : World) : Prop where
  same : w.SameJournal j w'
  selection : w'.selection x = w.selection x

theorem spares_tolerant : Tolerant (fun _ ↦ False) (Spares j x) where
  refl _ := ⟨.of_eq rfl, rfl⟩
  trans h h' := ⟨h.same.trans h'.same, h'.selection.trans h.selection⟩
  event _ _ _ := ⟨.of_eq rfl, rfl⟩
  reading _ _ := ⟨.of_eq rfl, rfl⟩
  listing _ _ _ := ⟨.of_eq rfl, rfl⟩
  item _ _ := ⟨.of_eq rfl, rfl⟩
  timeline _ _ _ _ := ⟨.of_eq rfl, rfl⟩
  left _ _ _ _ := ⟨.of_eq rfl, rfl⟩

end World

variable {w : World} {m n j x : Nat} {Calm : World → Prop}

/-- Selecting nodes has just the effect on a selection and a journal that they are selected. -/
theorem leads_select_selected (hb : Bystanders m j x (World.Spares j x) Calm) (hn : m + 4 ≤ n)
    (hw : w.Sound) (hc : Calm w) (hx : x < w.selections.length) {nodes : List Value}
    (hs : Value.AllHashable nodes) :
    (select (inner n) x nodes).Leads w
      (fun _ w' ↦ w.SameJournal j w' ∧ w'.live x = selected nodes ∧ w.Grown w' ∧ Calm w')
      (fun _ _ ↦ False) False := by
  obtain ⟨us, hd⟩ := Value.exists_distinct_iff.2 hs
  have hu := Value.settled_of_distinct hd
  have hsel := select?_of_distinct (s := w.selection x) hd
  refine leads_select.2 ⟨fun e he ↦ ?_, fun he ↦ ?_, fun s he ↦ ?_⟩
  · rw [hsel] at he
    cases he
  · have hsame : Value.sameItems us (w.selection x).nodes = true := by
      rw [hsel] at he
      split at he
      · assumption
      · cases he
    refine ⟨.of_eq rfl, ?_, hw.refl, hc⟩
    rw [selected_eq hd, World.live, (Value.sameItems_iff hu.hashable _).1 hsame]
  · have hsu : s = ⟨us⟩ := by
      rw [hsel] at he
      split at he
      · cases he
      · cases he
        rfl
    subst hsu
    have hset := hw.grown_selection x (s := ⟨us⟩) hu
    refine ((hb.aside World.spares_tolerant _).leads_announce_selection hn
      ⟨World.spares_tolerant.refl _, hset.sound.refl, hb.stable hc (World.beside_selection _)⟩
      fun _ _ _ _ _ _ h ↦ h).mono (fun _ w' hw' ↦ ?_) (fun _ _ h ↦ h)
    obtain ⟨hs, hg, hc⟩ := hw'
    have hj : w.SameJournal j { w with selections := w.selections.set x ⟨us⟩ } := .of_eq rfl
    refine ⟨hj.trans hs.same, ?_, hset.trans hg, hc⟩
    rw [selected_eq hd, World.live, hs.selection, World.selection_set hx]

theorem leads_call_change (hb : Bystanders m j x (World.Spares j x) Calm) (hn : m + 5 ≤ n)
    (hw : w.Sound) (hc : Calm w) (hx : x < w.selections.length) {i : Nat} (hi : w.Changes x i) :
    ((inner n).call .undo i).Leads w
      (fun _ w' ↦ w.SameJournal j w' ∧ w'.live x = (w.goals i).1 ∧ w.Grown w' ∧ Calm w')
      (fun _ _ ↦ False) False ∧
    ((inner n).call .redo i).Leads w
      (fun _ w' ↦ w.SameJournal j w' ∧ w'.live x = (w.goals i).2 ∧ w.Grown w' ∧ Calm w')
      (fun _ _ ↦ False) False := by
  obtain ⟨n, rfl⟩ : ∃ k, n = k + 1 := ⟨n - 1, by omega⟩
  obtain ⟨c, hi, hsel, hbefore, hafter⟩ := hi
  have hgoals : w.goals i = (selected c.before, selected c.after) := by simp [World.goals, hi]
  rw [hgoals]
  show (callItem (inner n) .undo i).Leads w _ _ _ ∧ (callItem (inner n) .redo i).Leads w _ _ _
  unfold callItem
  simp only [Run.leads_bind, Run.leads_get, hi, hsel, selectIn]
  exact ⟨leads_select_selected hb (by omega) hw hc hx hbefore,
    leads_select_selected hb (by omega) hw hc hx hafter⟩

/-- The edits in effect lead to what is selected, and from there those that have been undone lead
on. -/
structure Coherent (j x : Nat) (w : World) : Prop where
  sound : w.Sound
  selection : x < w.selections.length
  journal : j < w.journals.length
  enabled : (w.journal j).enabled.truth = true
  idle : (w.journal j).replaying = false
  room : (w.journal j).limit.room?.isSome
  inRange : (w.journal j).InRange
  changes : ∀ i ∈ (w.journal j).entries, w.Changes x i
  passes : (w.journal j).Passes w.goals (w.live x)

namespace Coherent

variable {w' : World} {j' : Journal Nat}

theorem of_grown (hg : w.Grown w') (hx : x < w.selections.length) (hj : j < w.journals.length)
    (hj' : w'.journal j = j') (henabled : j'.enabled.truth = true) (hidle : j'.replaying = false)
    (hroom : j'.limit.room?.isSome) (hrange : j'.InRange)
    (hchanges : ∀ i ∈ j'.entries, w.Changes x i) (hpasses : j'.Passes w.goals (w'.live x)) :
    Coherent j x w' := by
  subst hj'
  refine ⟨hg.sound, Nat.lt_of_lt_of_le hx (hg.count (.selection x)),
    Nat.lt_of_lt_of_le hj (hg.count (.journal j)), henabled, hidle, hroom, hrange, ?_, ?_⟩
  · exact fun i hi ↦ ((hchanges i hi).grown hg).1
  · exact hpasses.congr rfl rfl fun i hi ↦ ((hchanges i hi).grown hg).2

theorem of_spares (h : Coherent j x w) (hs : w.Spares j x w') (hg : w.Grown w') :
    Coherent j x w' := by
  obtain ⟨limit, hlimit⟩ := hs.same.journal
  have hroom := hs.same.room h.room
  rw [hlimit] at hroom
  apply of_grown hg h.selection h.journal hlimit h.enabled h.idle hroom h.inRange h.changes
  rw [World.live, hs.selection]
  exact h.passes.congr rfl rfl fun _ _ ↦ rfl

end Coherent

section Operations

variable {b : Inner} {i : Nat}

theorem World.Changes.exists_describe (h : w.Changes x i) : ∃ d, w.describe i = .ok d := by
  obtain ⟨c, hi, -⟩ := h
  exact ⟨c.text, by simp [describe, hi, Item.describe]⟩

/-- The position has moved, and all else is in order. -/
structure Moved (j x : Nat) (Calm : World → Prop) (d : Int) (w w' : World) : Prop where
  coherent : Coherent j x w'
  grown : w.Grown w'
  calm : Calm w'
  entries : (w'.journal j).entries = (w.journal j).entries
  position : (w'.journal j).position = (w.journal j).position + d

theorem allows_change (hi : w.Changes x i) :
    w.allows i .undo = .ok () ∧ w.allows i .redo = .ok () := by
  obtain ⟨c, hi, -⟩ := hi
  simp [World.allows, hi, Item.allows]

/-- The code of a change runs and the position moves to where the change then leads. -/
theorem Coherent.leads_shift (h : Coherent j x w) (hc : Calm w)
    (hb : Bystanders m j x (World.Spares j x) Calm) (hn : m + 5 ≤ n) (hi : w.Changes x i)
    {d : Int} {code : Run World Unit} {goal : List (Option Scalar)}
    {r : Value → Int → Journal.Remark} {notice : Journal.Notice Nat}
    (hcode : ∀ v : World, v.Sound → Calm v → x < v.selections.length → v.Changes x i →
      v.goals i = w.goals i → code.Leads v
        (fun _ v' ↦ v.SameJournal j v' ∧ v'.live x = goal ∧ v.Grown v' ∧ Calm v')
        (fun _ _ ↦ False) False)
    (hrange : ((w.journal j).move d).InRange)
    (hpasses : ((w.journal j).move d).Passes w.goals goal) :
    ((journalHost (inner n) j).replay code).Leads w
      (fun _ t ↦ ((journalHost (inner n) j).settle d r notice i).Leads t
        (fun _ ↦ Moved j x Calm d w) (fun _ _ ↦ False) False) (fun _ _ ↦ False) False := by
  let v : World := { w with journals := w.journals.modify j ({ · with replaying := true }) }
  have hv : w.Grown v := h.sound.grown_journal j _
  have hvj : v.journal j = { w.journal j with replaying := true } :=
    World.journal_modify h.journal _
  have hvi := hi.grown hv
  apply Journal.Host.leads_replay.2
  have hrun := hcode v hv.sound (hb.stable hc (World.beside_journal _)) h.selection hvi.1 hvi.2
  refine hrun.mono (fun _ t ht ↦ ?_) (fun _ _ h ↦ h)
  obtain ⟨hsame, hlive, hgrown, hct⟩ := ht
  obtain ⟨limit, hlimit⟩ := hsame.journal
  have hroom := hsame.room (hvj ▸ h.room)
  rw [hlimit] at hroom
  let settled (j : Journal Nat) : Journal Nat := Journal.move { j with replaying := false } d
  let z : World := { t with journals := t.journals.modify j settled }
  have hwt : w.Grown t := hv.trans hgrown
  have hwz : w.Grown z := hwt.trans (hwt.sound.grown_journal j _)
  have hzj : z.journal j = { (w.journal j).move d with limit } := by
    rw [World.journal_modify (Nat.lt_of_lt_of_le h.journal (hwt.count (.journal j))), hlimit, hvj]
    simp [settled, Journal.move, h.idle]
  have hz : Coherent j x z := by
    refine .of_grown hwz h.selection h.journal hzj h.enabled h.idle hroom hrange h.changes ?_
    show Journal.Passes _ _ (t.live x)
    rw [hlive]
    exact hpasses.congr rfl rfl fun _ _ ↦ rfl
  have hcz : Calm z := hb.stable hct (World.beside_journal _)
  simp only [Journal.Host.settle, Run.leads_bind, Journal.Host.leads_change,
    Journal.Host.leads_look, update_journalHost]
  obtain ⟨description, hdescription⟩ := (hi.grown hwz).1.exists_describe
  refine (hb.aside World.spares_tolerant z).leads_reportJournal (by omega)
    ⟨World.spares_tolerant.refl z, hz.sound.refl, hcz⟩ hdescription fun w' hw' ↦ ?_
  obtain ⟨hs, hg, hc'⟩ := hw'
  obtain ⟨limit', hlimit'⟩ := hs.same.journal
  rw [hzj] at hlimit'
  refine ⟨hz.of_spares hs hg, hwz.trans hg, hc', ?_, ?_⟩
  · rw [hlimit']
    rfl
  · rw [hlimit']
    rfl

theorem Coherent.leads_undo (h : Coherent j x w) (hc : Calm w)
    (hb : Bystanders m j x (World.Spares j x) Calm) (hn : m + 5 ≤ n) :
    (journalHost (inner n) j).undo.Leads w
      (fun _ w' ↦ (w.journal j).canUndo = true ∧ Moved j x Calm (-1) w w')
      (fun _ w' ↦ (w.journal j).canUndo = false ∧ w' = w) False := by
  refine Journal.Host.leads_undo (fun hu ↦ ⟨hu, rfl⟩) (fun hu hl ↦ ?_) (fun i hu hl ↦ ?_)
  · obtain ⟨i, hi, -⟩ := h.inRange.exists_undone hu
    cases hi.symm.trans hl
  · obtain ⟨k, hmem, hk, hrange, back, hg, hpasses⟩ := h.passes.exists_undone h.inRange hu
    obtain rfl : k = i := Option.some.inj (hk.symm.trans hl)
    have hi := h.changes k hmem
    have hcode : (journalHost (inner n) j).revert w k = .ok ((inner n).call .undo k) :=
      congrArg (Functor.map _) (allows_change hi).1
    refine (Run.leads_ask_ok (f := fun s ↦ (journalHost (inner n) j).revert s k) hcode).2 ?_
    refine (h.leads_shift hc hb hn hi (fun v hv hcv hx hvi hvg ↦ ?_) hrange hpasses).mono
      (fun _ t ht ↦ ht.mono (fun _ _ hw' ↦ ⟨hu, hw'⟩) fun _ _ h ↦ h.elim) (fun _ _ h ↦ h.elim)
    have hcall := (leads_call_change hb hn hv hcv hx hvi).1
    rwa [hvg, hg] at hcall

theorem Coherent.leads_redo (h : Coherent j x w) (hc : Calm w)
    (hb : Bystanders m j x (World.Spares j x) Calm) (hn : m + 5 ≤ n) :
    (journalHost (inner n) j).redo.Leads w
      (fun _ w' ↦ (w.journal j).canRedo = true ∧ Moved j x Calm 1 w w')
      (fun _ w' ↦ (w.journal j).canRedo = false ∧ w' = w) False := by
  refine Journal.Host.leads_redo (fun hr ↦ ⟨hr, rfl⟩) (fun hr hl ↦ ?_) (fun i hr hl ↦ ?_)
  · obtain ⟨i, hi, -⟩ := h.inRange.exists_redone hr
    cases hi.symm.trans hl
  · obtain ⟨k, hmem, hk, hrange, forth, hg, hpasses⟩ := h.passes.exists_redone h.inRange hr
    obtain rfl : k = i := Option.some.inj (hk.symm.trans hl)
    have hi := h.changes k hmem
    have hcode : (journalHost (inner n) j).reapply w k = .ok ((inner n).call .redo k) :=
      congrArg (Functor.map _) (allows_change hi).2
    refine (Run.leads_ask_ok (f := fun s ↦ (journalHost (inner n) j).reapply s k) hcode).2 ?_
    refine (h.leads_shift hc hb hn hi (fun v hv hcv hx hvi hvg ↦ ?_) hrange hpasses).mono
      (fun _ t ht ↦ ht.mono (fun _ _ hw' ↦ ⟨hr, hw'⟩) fun _ _ h ↦ h.elim) (fun _ _ h ↦ h.elim)
    have hcall := (leads_call_change hb hn hv hcv hx hvi).2
    rwa [hvg, hg] at hcall

theorem Coherent.leads_clear (h : Coherent j x w) (hc : Calm w)
    (hb : Bystanders m j x (World.Spares j x) Calm) (hn : m + 3 ≤ n) :
    (journalHost (inner n) j).clear.Leads w
      (fun _ w' ↦ Coherent j x w' ∧ w.Grown w' ∧ Calm w') (fun _ _ ↦ False) False := by
  let v : World := { w with journals := w.journals.modify j (·.empty) }
  have hv : w.Grown v := h.sound.grown_journal j _
  have hvj : v.journal j = (w.journal j).empty := World.journal_modify h.journal _
  have hcoh : Coherent j x v := .of_grown hv h.selection h.journal hvj h.enabled h.idle h.room
    ⟨Int.le_refl 0, Int.le_refl 0⟩ nofun (Journal.passes_empty _)
  have ha := hb.aside World.spares_tolerant v
  apply Journal.Host.leads_clear.2
  have hlog := ha.leads_log Journal.Remark.cleared.text
    ⟨World.spares_tolerant.refl v, hv.sound.refl, hb.stable hc (World.beside_journal _)⟩
  refine hlog.mono (fun _ t ht ↦ ?_) (fun _ _ h ↦ h)
  rw [Journal.Host.leads_announceChange, announce_journalHost]
  refine (ha.leads_announceJournal hn j _ ht).mono (fun _ w' hw' ↦ ?_) (fun _ _ h ↦ h)
  obtain ⟨hs, hg, hc'⟩ := hw'
  exact ⟨hcoh.of_spares hs hg, hv.trans hg, hc'⟩

theorem Coherent.setLimit (h : Coherent j x w) {limit : Value} (hl : limit.room?.isSome) :
    Coherent j x { w with journals := w.journals.modify j ({ · with limit }) } := by
  have hj : World.journal { w with journals := w.journals.modify j ({ · with limit }) } j =
      { w.journal j with limit } := World.journal_modify h.journal _
  refine h.of_spares ⟨⟨⟨limit, hj⟩, fun _ ↦ ?_⟩, rfl⟩ (h.sound.grown_journal j _)
  rw [hj]
  exact hl

/-- Changes a selection and records that. -/
def change (b : Inner) (j x : Nat) (name : Text) (nodes : List Value) : Run World Unit := do
  let w ← Run.get
  Run.modify (·.nameItem name (.change
    ⟨name, .text (Selection.changeText nodes), .selection x, (w.selection x).nodes, nodes⟩))
  select b x nodes
  (journalHost b j).add w.items.length

theorem live_eq_selected (hw : w.Sound) (hx : x < w.selections.length) :
    w.live x = selected (w.selection x).nodes := by
  have hmem : w.selection x ∈ w.selections := by
    simp [World.selection, hx]
  rw [selected_eq (hw.settled _ hmem).distinct_eq, World.live]

theorem Coherent.leads_add (h : Coherent j x w)
    (hb : Bystanders m j x (World.Spares j x) Calm) (hn : m + 3 ≤ n) {v : World}
    (hv : w.SameJournal j v) (hg : w.Grown v) (hcv : Calm v) (hi : v.Changes x i)
    (hgoals : v.goals i = (w.live x, v.live x)) :
    ((journalHost (inner n) j).add i).Leads v
      (fun _ w' ↦ Coherent j x w' ∧ w.Grown w' ∧ Calm w') (fun _ _ ↦ False) False := by
  obtain ⟨limit, hlimit⟩ := hv.journal
  obtain ⟨room, hroom⟩ := Option.isSome_iff_exists.1 (hv.room h.room)
  have hvj : j < v.journals.length := Nat.lt_of_lt_of_le h.journal (hg.count (.journal j))
  have henabled : (v.journal j).enabled.truth = true := by rw [hlimit]; exact h.enabled
  have hidle : (v.journal j).replaying = false := by rw [hlimit]; exact h.idle
  have hchanges {k : Nat} (hk : k ∈ (w.journal j).entries) := (h.changes k hk).grown hg
  have hpasses : (v.journal j).Passes v.goals (w.live x) := by
    rw [hlimit]
    exact h.passes.congr rfl rfl fun k hk ↦ (hchanges hk).2
  let j' : Journal Nat := { v.journal j with
    entries := newest room ((v.journal j).done ++ [i])
    position := (newest room ((v.journal j).done ++ [i])).length }
  have htrim : ((v.journal j).push i).trim = .ok j' := Journal.trim_push hroom i
  let z : World := { v with journals := v.journals.modify j fun _ ↦ j' }
  have hzj : z.journal j = j' := World.journal_modify hvj _
  have hvz : v.Grown z := hg.sound.grown_journal j _
  have hcz : Calm z := hb.stable hcv (World.beside_journal _)
  have hz : Coherent j x z := by
    refine .of_grown hvz (Nat.lt_of_lt_of_le h.selection (hg.count (.selection x))) hvj hzj henabled
      hidle (hv.room h.room) ⟨Int.natCast_nonneg _, Int.le_refl _⟩ (fun k hk ↦ ?_)
      (hpasses.newest hgoals room)
    obtain hk | rfl := Journal.mem_of_push (Journal.entries_of_trim htrim hk)
    · rw [hlimit] at hk
      exact (hchanges hk).1
    · exact hi
  apply (Journal.Host.leads_add_recorded henabled hidle).2
  have hpush : ((journalHost (inner n) j).update (·.push i) v).journal j = (v.journal j).push i :=
    World.journal_modify hvj _
  apply (Run.leads_lift_ok (by rw [← htrim, ← hpush]; rfl)).2
  rw [update_journalHost]
  obtain ⟨description, hdescription⟩ := (hi.grown hvz).1.exists_describe
  refine (hb.aside World.spares_tolerant z).leads_reportJournal hn
    ⟨World.spares_tolerant.refl z, hz.sound.refl, hcz⟩ hdescription fun w' hw' ↦ ?_
  obtain ⟨hs, hg', hc'⟩ := hw'
  exact ⟨hz.of_spares hs hg', (hg.trans hvz).trans hg', hc'⟩

theorem Coherent.leads_change (h : Coherent j x w) (hc : Calm w)
    (hb : Bystanders m j x (World.Spares j x) Calm) (hn : m + 4 ≤ n) (name : Text)
    {nodes : List Value} (hs : Value.AllHashable nodes) :
    (change (inner n) j x name nodes).Leads w
      (fun _ w' ↦ Coherent j x w' ∧ w.Grown w' ∧ Calm w') (fun _ _ ↦ False) False := by
  let c : Change :=
    ⟨name, .text (Selection.changeText nodes), .selection x, (w.selection x).nodes, nodes⟩
  let v := w.nameItem name (.change c)
  have hv : w.Grown v := h.sound.grown_nameItem name _
  have hcv : Calm v := hb.stable hc (World.beside_of_eq rfl rfl rfl rfl (List.prefix_append _ _))
  have hbefore := h.sound.settled (w.selection x) (by simp [World.selection, h.selection])
  have hi : v.items[w.items.length]? = some (.change c) := by
    simp [v, World.nameItem, World.addItem]
  have hchange : v.Changes x w.items.length := ⟨c, hi, rfl, hbefore.hashable, hs⟩
  unfold change
  rw [Run.leads_bind, Run.leads_get, Run.leads_bind, Run.leads_modify, Run.leads_bind]
  refine (leads_select_selected hb hn hv.sound hcv h.selection hs).mono (fun _ u hu ↦ ?_)
    (fun _ _ h ↦ h)
  obtain ⟨hsame, hlive, hg, hcu⟩ := hu
  have hwv : w.SameJournal j v := .of_eq rfl
  apply h.leads_add hb (by omega) (hwv.trans hsame) (hv.trans hg) hcu (hchange.grown hg).1
  rw [(hchange.grown hg).2, hlive, live_eq_selected h.sound h.selection]
  simp [World.goals, hi, c]

end Operations

section Moves

theorem Coherent.moved_zero (h : Coherent j x w) (hc : Calm w) : Moved j x Calm 0 w w :=
  ⟨h, h.sound.refl, hc, rfl, (Int.add_zero _).symm⟩

theorem Moved.trans {d e : Int} {u v : World} (h : Moved j x Calm d u v)
    (h' : Moved j x Calm e v w) : Moved j x Calm (d + e) u w := by
  refine ⟨h'.coherent, h.grown.trans h'.grown, h'.calm, h'.entries.trans h.entries, ?_⟩
  rw [h'.position, h.position, Int.add_assoc]

/-- The position in the journal tells what is selected. -/
theorem Moved.live_eq {w' : World} (h : Coherent j x w) (hm : Moved j x Calm 0 w w')
    (hne : (w.journal j).entries ≠ []) : w'.live x = w.live x := by
  have hpasses := h.passes.congr hm.entries (hm.position.trans (Int.add_zero _)) fun i hi ↦
    ((h.changes i hi).grown hm.grown).2
  exact hm.coherent.passes.unique hpasses (by rwa [hm.entries])

def again (k : Nat) (code : Run World Unit) : Run World Unit :=
  Run.each (List.replicate k ()) fun _ ↦ code

theorem leads_again {code : Run World Unit} {d : Int} (hd : d = 1 ∨ d = -1)
    (hcode : ∀ w, Coherent j x w → Calm w → 0 ≤ (w.journal j).position + d →
      (w.journal j).position + d ≤ (w.journal j).entries.length →
      code.Leads w (fun _ ↦ Moved j x Calm d w) (fun _ _ ↦ False) False)
    (h : Coherent j x w) (hc : Calm w) (k : Nat) (h0 : 0 ≤ (w.journal j).position + k * d)
    (hl : (w.journal j).position + k * d ≤ (w.journal j).entries.length) :
    (again k code).Leads w (fun _ ↦ Moved j x Calm (k * d) w) (fun _ _ ↦ False) False := by
  induction k generalizing w with
  | zero =>
    have hz : ((0 : Nat) : Int) * d = 0 := Int.zero_mul d
    rw [hz]
    exact h.moved_zero hc
  | succ k ih =>
    have hk : ((k + 1 : Nat) : Int) * d = d + k * d := by
      rw [Int.natCast_add, Int.add_mul, Int.add_comm]
      simp
    rw [hk] at h0 hl ⊢
    obtain ⟨hr0, hrl⟩ := h.inRange
    have hkd : (d = 1 ∧ (k : Int) * d = k) ∨ (d = -1 ∧ (k : Int) * d = -k) := by
      rcases hd with rfl | rfl
      · exact .inl ⟨rfl, Int.mul_one _⟩
      · exact .inr ⟨rfl, by simp⟩
    show (code >>= fun _ ↦ again k code).Leads w _ _ _
    rw [Run.leads_bind]
    refine (hcode w h hc (by omega) (by omega)).mono (fun _ v hv ↦ ?_) (fun _ _ h ↦ h)
    have hp : (v.journal j).position + k * d = (w.journal j).position + (d + k * d) := by
      rw [hv.position, Int.add_assoc]
    have hrest := ih hv.coherent hv.calm (hp ▸ h0) (by rw [hp, hv.entries]; exact hl)
    exact hrest.mono (fun _ _ hw ↦ hv.trans hw) (fun _ _ h ↦ h)

/-- What moves the position one way and then as often the other way leaves all in place. -/
theorem leads_forth_and_back {forth back : Run World Unit} {d : Int} (hd : d = 1 ∨ d = -1)
    (hforth : ∀ w, Coherent j x w → Calm w → 0 ≤ (w.journal j).position + d →
      (w.journal j).position + d ≤ (w.journal j).entries.length →
      forth.Leads w (fun _ ↦ Moved j x Calm d w) (fun _ _ ↦ False) False)
    (hback : ∀ w, Coherent j x w → Calm w → 0 ≤ (w.journal j).position + -d →
      (w.journal j).position + -d ≤ (w.journal j).entries.length →
      back.Leads w (fun _ ↦ Moved j x Calm (-d) w) (fun _ _ ↦ False) False)
    (h : Coherent j x w) (hc : Calm w) (k : Nat) (h0 : 0 ≤ (w.journal j).position + k * d)
    (hl : (w.journal j).position + k * d ≤ (w.journal j).entries.length) :
    (again k forth >>= fun _ ↦ again k back).Leads w (fun _ ↦ Moved j x Calm 0 w)
      (fun _ _ ↦ False) False := by
  have hr := h.inRange
  rw [Run.leads_bind]
  refine (leads_again hd hforth h hc k h0 hl).mono (fun _ v hv ↦ ?_) (fun _ _ h ↦ h)
  have hp : (v.journal j).position + k * -d = (w.journal j).position := by
    rw [hv.position, Int.mul_neg, Int.add_neg_cancel_right]
  refine (leads_again (by omega) hback hv.coherent hv.calm k (hp ▸ hr.1)
    (by rw [hp, hv.entries]; exact hr.2)).mono (fun _ u hu ↦ ?_) (fun _ _ h ↦ h)
  have ht := hv.trans hu
  rwa [Int.mul_neg, Int.add_right_neg] at ht

theorem Coherent.leads_undo_permitted (h : Coherent j x w) (hc : Calm w)
    (hb : Bystanders m j x (World.Spares j x) Calm) (hn : m + 5 ≤ n)
    (h0 : 0 ≤ (w.journal j).position + -1) :
    (journalHost (inner n) j).undo.Leads w (fun _ ↦ Moved j x Calm (-1) w) (fun _ _ ↦ False)
      False := by
  refine (h.leads_undo hc hb hn).mono (fun _ _ h ↦ h.2) (fun _ _ h ↦ ?_)
  have hu : (w.journal j).canUndo = true := by
    rw [Journal.canUndo, decide_eq_true_eq]
    omega
  cases hu.symm.trans h.1

theorem Coherent.leads_redo_permitted (h : Coherent j x w) (hc : Calm w)
    (hb : Bystanders m j x (World.Spares j x) Calm) (hn : m + 5 ≤ n)
    (hl : (w.journal j).position + 1 ≤ (w.journal j).entries.length) :
    (journalHost (inner n) j).redo.Leads w (fun _ ↦ Moved j x Calm 1 w) (fun _ _ ↦ False)
      False := by
  refine (h.leads_redo hc hb hn).mono (fun _ _ h ↦ h.2) (fun _ _ h ↦ ?_)
  have hr : (w.journal j).canRedo = true := by
    rw [Journal.canRedo, decide_eq_true_eq]
    omega
  cases hr.symm.trans h.1

theorem sameItems_of_live {v : World} (hw : w.Sound) (hx : x < w.selections.length)
    (h : w.live x = v.live x) :
    Value.sameItems (w.selection x).nodes (v.selection x).nodes = true := by
  have hs := hw.settled (w.selection x) (by simp [World.selection, hx])
  exact (Value.sameItems_iff hs.hashable _).2 h

end Moves

section Play

/-- What is done to a journal and a selection, or aside from them. -/
inductive Move where
  | change (name : Text) (nodes : List Value)
  | undo
  | redo
  | clear
  | setLimit (limit : Value)
  | aside (step : Step)

def Move.run (b : Inner) (j x : Nat) : Move → Run World Unit
  | change name nodes => Session.change b j x name nodes
  | undo => (journalHost b j).undo
  | redo => (journalHost b j).redo
  | clear => (journalHost b j).clear
  | setLimit limit => (journalHost b j).change ({ · with limit })
  | aside step => do let _ ← perform b step

/-- Changes are to nodes that can be selected, limits are proper, and what is done aside of the
journal and the selection spares them. -/
def Move.Proper (n j x : Nat) (Calm : World → Prop) : Move → Prop
  | change _ nodes => Value.AllHashable nodes
  | undo | redo | clear => True
  | setLimit limit => limit.room?.isSome
  | aside step => ∀ w : World, w.Sound → Calm w → (perform (inner n) step).Leads w
      (fun _ w' ↦ w.Spares j x w' ∧ Calm w') (fun _ w' ↦ w.Spares j x w' ∧ Calm w') False

/-- Makes moves one after the other. Those that fail do not stop the others. -/
def moves (b : Inner) (j x : Nat) (as : List Move) : Run World Unit :=
  Run.each as fun a ↦ (a.run b j x).recover fun _ ↦ Pure.pure ()

/-- What an item has selected when it is called in a way. -/
def Establishes (n x : Nat) (w : World) (way : Way) (i : Nat) (nodes : List Value) : Prop :=
  ∃ u, (inner n).call way i w = .returned () u ∧ (u.selection x).nodes = nodes

theorem Coherent.leads_move (h : Coherent j x w) (hc : Calm w)
    (hb : Bystanders m j x (World.Spares j x) Calm) (hn : m + 5 ≤ n) {a : Move}
    (ha : a.Proper n j x Calm) :
    (a.run (inner n) j x).Leads w (fun _ w' ↦ Coherent j x w' ∧ Calm w')
      (fun _ w' ↦ Coherent j x w' ∧ Calm w') False := by
  cases a with
  | change name nodes =>
    exact (h.leads_change hc hb (by omega) name ha).mono (fun _ _ h ↦ ⟨h.1, h.2.2⟩)
      (fun _ _ h ↦ h.elim)
  | undo =>
    refine (h.leads_undo hc hb hn).mono (fun _ _ h ↦ ⟨h.2.coherent, h.2.calm⟩) (fun _ t ht ↦ ?_)
    rw [ht.2]
    exact ⟨h, hc⟩
  | redo =>
    refine (h.leads_redo hc hb hn).mono (fun _ _ h ↦ ⟨h.2.coherent, h.2.calm⟩) (fun _ t ht ↦ ?_)
    rw [ht.2]
    exact ⟨h, hc⟩
  | clear =>
    exact (h.leads_clear hc hb (by omega)).mono (fun _ _ h ↦ ⟨h.1, h.2.2⟩) (fun _ _ h ↦ h.elim)
  | setLimit limit => exact ⟨h.setLimit ha, hb.stable hc (World.beside_journal _)⟩
  | aside step =>
    have hg := perform_grows (inner_grows w n) step w h.sound.refl
    show (perform (inner n) step >>= fun _ ↦ Pure.pure ()).Leads w _ _ _
    rw [Run.leads_bind]
    refine (hg.and (ha w h.sound hc)).mono (fun _ t ht ↦ ?_) (fun _ t ht ↦ ?_)
    all_goals
      obtain ⟨hg, hs, hc⟩ := ht
      exact ⟨h.of_spares hs hg, hc⟩

theorem Coherent.leads_moves (h : Coherent j x w) (hc : Calm w)
    (hb : Bystanders m j x (World.Spares j x) Calm) (hn : m + 5 ≤ n) {as : List Move}
    (ha : ∀ a ∈ as, a.Proper n j x Calm) :
    (moves (inner n) j x as).Leads w (fun _ w' ↦ Coherent j x w' ∧ Calm w') (fun _ _ ↦ False)
      False := by
  refine Run.leads_each ⟨h, hc⟩ fun a hm w hw ↦ ?_
  rw [Run.leads_recover]
  exact (hw.1.leads_move hw.2 hb hn (ha a hm)).mono (fun _ _ h ↦ h) (fun _ _ h ↦ h)

theorem Coherent.exists_establishes (h : Coherent j x w) (hc : Calm w)
    (hb : Bystanders m j x (World.Spares j x) Calm) (hn : m + 5 ≤ n) {i : Nat}
    (hi : i ∈ (w.journal j).entries) :
    (∃ nodes, Establishes n x w .undo i nodes ∧ Value.AllHashable nodes ∧
      nodes.map Value.scalar? = (w.goals i).1) ∧
    (∃ nodes, Establishes n x w .redo i nodes ∧ Value.AllHashable nodes ∧
      nodes.map Value.scalar? = (w.goals i).2) := by
  have hcall := leads_call_change hb hn h.sound hc h.selection (h.changes i hi)
  have hhash {u : World} (hg : w.Grown u) : Value.AllHashable (u.selection x).nodes := by
    have hx : x < u.selections.length := Nat.lt_of_lt_of_le h.selection (hg.count (.selection x))
    exact (hg.sound.settled (u.selection x) (by simp [World.selection, hx])).hashable
  constructor
  · obtain ⟨_, u, hu, -, hl, hg, -⟩ := hcall.1.exists_returned
    exact ⟨_, ⟨u, hu, rfl⟩, hhash hg, hl⟩
  · obtain ⟨_, u, hu, -, hl, hg, -⟩ := hcall.2.exists_returned
    exact ⟨_, ⟨u, hu, rfl⟩, hhash hg, hl⟩

/-- While only a new journal's own changes touch a selection, each change leads to where the next
one leads back to, the one that undoing reverses has led to what is selected, and the one that
redoing applies again leads back to it. So whatever is undone and redone again, or the other way
round, ends where it began. -/
theorem changes_coherent (h : Reached w) (hj : j < w.journals.length)
    (hx : x < w.selections.length) {limit : Value} (hl : limit.room?.isSome)
    (hnew : w.journal j = { limit }) (hc : Calm w)
    (hb : Bystanders m j x (World.Spares j x) Calm) (hn : m + 5 ≤ n) (as : List Move)
    (ha : ∀ a ∈ as, a.Proper n j x Calm) :
    ∃ w', moves (inner n) j x as w = .returned () w' ∧ (w'.journal j).InRange ∧
      (∀ k i i', (w'.journal j).entries[k]? = some i → (w'.journal j).entries[k + 1]? = some i' →
        ∃ reached left, Establishes n x w' .redo i reached ∧ Establishes n x w' .undo i' left ∧
          Value.sameItems reached left = true) ∧
      ((w'.journal j).canUndo = true →
        ∃ i reached, (w'.journal j).last? = some i ∧ Establishes n x w' .redo i reached ∧
          Value.sameItems reached (w'.selection x).nodes = true) ∧
      ((w'.journal j).canRedo = true →
        ∃ i left, (w'.journal j).next? = some i ∧ Establishes n x w' .undo i left ∧
          Value.sameItems left (w'.selection x).nodes = true) ∧
      (∀ k : Nat, k ≤ (w'.journal j).position →
        ∃ u, (again k (journalHost (inner n) j).undo >>= fun _ ↦
            again k (journalHost (inner n) j).redo) w' = .returned () u ∧
          Value.sameItems (u.selection x).nodes (w'.selection x).nodes = true) ∧
      (∀ k : Nat, (w'.journal j).position + k ≤ (w'.journal j).entries.length →
        ∃ u, (again k (journalHost (inner n) j).redo >>= fun _ ↦
            again k (journalHost (inner n) j).undo) w' = .returned () u ∧
          Value.sameItems (u.selection x).nodes (w'.selection x).nodes = true) := by
  have hstart : Coherent j x w := by
    refine ⟨h.sound, hx, hj, ?_, ?_, ?_, ?_, ?_, ?_⟩
    all_goals rw [hnew]
    · rfl
    · exact hl
    · exact ⟨Int.le_refl 0, Int.le_refl 0⟩
    · nofun
    · exact Journal.passes_empty { limit }
  obtain ⟨_, w', hw', h, hc⟩ := (hstart.leads_moves hc hb hn ha).exists_returned
  have hsettled := h.sound.settled (w'.selection x) (by simp [World.selection, h.selection])
  have hlive {nodes : List Value} (hs : Value.AllHashable nodes)
      (hl : nodes.map Value.scalar? = w'.live x) :
      Value.sameItems nodes (w'.selection x).nodes = true := (Value.sameItems_iff hs _).2 hl
  have hback {k : Nat} (hk : k ≤ (w'.journal j).entries.length) {forth back : Run World Unit}
      (hcode : (again k forth >>= fun _ ↦ again k back).Leads w' (fun _ ↦ Moved j x Calm 0 w')
        (fun _ _ ↦ False) False) :
      ∃ u, (again k forth >>= fun _ ↦ again k back) w' = .returned () u ∧
        Value.sameItems (u.selection x).nodes (w'.selection x).nodes = true := by
    obtain rfl | hk0 := Nat.eq_zero_or_pos k
    · exact ⟨w', rfl, hlive hsettled.hashable rfl⟩
    · obtain ⟨_, u, hu, hm⟩ := hcode.exists_returned
      have hne : (w'.journal j).entries ≠ [] := List.ne_nil_of_length_pos (by omega)
      exact ⟨u, hu, sameItems_of_live hm.coherent.sound hm.coherent.selection (hm.live_eq h hne)⟩
  obtain ⟨h0, hlen⟩ := h.inRange
  refine ⟨w', hw', h.inRange, fun k i i' hi hi' ↦ ?_, fun hu ↦ ?_, fun hr ↦ ?_, fun k hk ↦ ?_,
    fun k hk ↦ ?_⟩
  · obtain ⟨-, reached, hr, hsr, hgr⟩ := h.exists_establishes hc hb hn (List.mem_of_getElem? hi)
    obtain ⟨⟨left, hl, -, hgl⟩, -⟩ := h.exists_establishes hc hb hn (List.mem_of_getElem? hi')
    refine ⟨reached, left, hr, hl, (Value.sameItems_iff hsr _).2 ?_⟩
    rw [hgr, hgl, h.passes.joined hi hi']
  · obtain ⟨i, hi, hlast, -, _, hg, -⟩ := h.passes.exists_undone h.inRange hu
    obtain ⟨-, reached, hr, hsr, hgr⟩ := h.exists_establishes hc hb hn hi
    exact ⟨i, reached, hlast, hr, hlive hsr (by rw [hgr, hg])⟩
  · obtain ⟨i, hi, hnext, -, _, hg, -⟩ := h.passes.exists_redone h.inRange hr
    obtain ⟨⟨left, hl, hsl, hgl⟩, -⟩ := h.exists_establishes hc hb hn hi
    exact ⟨i, left, hnext, hl, hlive hsl (by rw [hgl, hg])⟩
  · refine hback (by omega) (leads_forth_and_back (.inr rfl) ?_ ?_ h hc k (by omega) (by omega))
    · exact fun v hv hcv h0 _ ↦ hv.leads_undo_permitted hcv hb hn h0
    · exact fun v hv hcv _ hl ↦ hv.leads_redo_permitted hcv hb hn hl
  · refine hback (by omega) (leads_forth_and_back (.inl rfl) ?_ ?_ h hc k (by omega) (by omega))
    · exact fun v hv hcv _ hl ↦ hv.leads_redo_permitted hcv hb hn hl
    · exact fun v hv hcv h0 _ ↦ hv.leads_undo_permitted hcv hb hn h0

/-- A selection, with a journal of its changes and a listener that always fails. -/
def World.rehearsal : World :=
  (World.after {} 1 [.newJournal "edits" .null, .newSelection "nodes" (.list []),
    .listen "nodes" "selection_changed" [.fail .null] none]).get (by decide +kernel)

theorem World.reached_rehearsal : Reached rehearsal :=
  .after (.start false) (Option.some_get _).symm

/-- Half of what has been undone is redone. -/
theorem changes_coherent_halfway :
    let as : List Move := [.change "first" [.int 1, .bool true], .change "second" [.int 2], .undo,
      .aside (.fail .null), .undo, .undo, .setLimit (.int 1), .redo]
    ∃ w', moves (inner 5) 0 0 as World.rehearsal = .returned () w' ∧
      (w'.selection 0).nodes = [.int 1] ∧
      (∃ i reached, (w'.journal 0).last? = some i ∧ Establishes 5 0 w' .redo i reached ∧
        Value.sameItems reached (w'.selection 0).nodes = true) ∧
      ∃ i left, (w'.journal 0).next? = some i ∧ Establishes 5 0 w' .undo i left ∧
        Value.sameItems left (w'.selection 0).nodes = true := by
  intro as
  have ha : ∀ a ∈ as, a.Proper 5 0 0 fun w ↦ w.links.all fun l ↦ l.slot.failing := by
    have hone : Value.AllHashable [.int 1, .bool true] := by decide
    have htwo : Value.AllHashable [.int 2] := by decide
    simp only [as, List.forall_mem_cons]
    exact ⟨hone, htwo, trivial, fun w _ hc ↦ ⟨World.spares_tolerant.refl w, hc⟩, trivial, trivial,
      rfl, trivial, nofun⟩
  have hnew : World.rehearsal.journal 0 = { limit := .null } := rfl
  obtain ⟨w', hw', -, -, hu, hr, -⟩ := changes_coherent World.reached_rehearsal (by decide +kernel)
    (by decide +kernel) rfl hnew (by decide +kernel)
    (bystanders_failing 0 0 World.spares_tolerant.refl) (Nat.le_refl 5) as ha
  have hseen : (moves (inner 5) 0 0 as World.rehearsal).state?.map (fun w ↦
      ((w.selection 0).nodes, (w.journal 0).canUndo, (w.journal 0).canRedo)) =
      some ([.int 1], true, true) := by decide +kernel
  rw [hw'] at hseen
  simp only [Outcome.state?, Option.map_some, Option.some.injEq, Prod.mk.injEq] at hseen
  exact ⟨w', hw', hseen.1, hu hseen.2.1, hr hseen.2.2⟩

end Play

end Session

end Rewind
