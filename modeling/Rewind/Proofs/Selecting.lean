import Mathlib.Logic.Relation
import Rewind.Proofs.Likeness
import Rewind.Proofs.Recording
import Rewind.Proofs.Relaying

namespace Rewind.Session

/-- Nodes have been selected. Up to equality it is the first of each that is selected then, and a
change is recorded if there is one. Where there is none, nothing happens at all. -/
structure World.Chosen (x : Nat) (name : Text) (nodes : List Value) (w w' : World) : Prop where
  nodes : Value.sameItems (w'.selection x).nodes (Value.firsts nodes) = true
  heard : w'.heard name = w.heard name +
    if Value.sameItems (w'.selection x).nodes (w.selection x).nodes then 0 else 1
  still : Value.sameItems (w'.selection x).nodes (w.selection x).nodes = true → w' = w
  recorded : w.SameRecords x w'

variable {m n j x : Nat} {name : Text} {Calm : World → Prop} {w u : World} {nodes last : List Value}

theorem World.Sound.settled_selection (hw : w.Sound) : Value.Settled (w.selection x).nodes :=
  holds_getD hw.settled Value.settled_nil x

theorem select?_eq_firsts {s : Selection} (h : Value.AllHashable nodes) :
    s.select? nodes =
      .ok (if Value.sameItems (Value.firsts nodes) s.nodes then none
        else some ⟨Value.firsts nodes⟩) :=
  select?_of_distinct (Value.distinct_eq_firsts h)

/-- Nodes that do not fit into a set cannot be selected. -/
theorem exists_select?_error {s : Selection} (h : ¬ Value.AllHashable nodes) :
    ∃ e, s.select? nodes = .error e := by
  unfold Selection.select? Selection.ofNodes
  cases hd : Value.distinct nodes with
  | error e => exact ⟨e, rfl⟩
  | ok us => exact absurd (Value.exists_distinct_iff.1 ⟨us, hd⟩) h

theorem leads_select_firsts {b : Inner} {Q : Unit → World → Prop} {E : Fault → World → Prop}
    {X : Prop} (hrefused : ¬ Value.AllHashable nodes → ∀ e, E e w)
    (hsame : Value.AllHashable nodes →
      Value.sameItems (Value.firsts nodes) (w.selection x).nodes = true → Q () w)
    (hchanged : Value.AllHashable nodes →
      Value.sameItems (Value.firsts nodes) (w.selection x).nodes = false →
      (announce b (.selection x) .selectionChanged []).Leads
        { w with selections := w.selections.set x ⟨Value.firsts nodes⟩ } Q E X) :
    (select b x nodes).Leads w Q E X := by
  refine leads_select.2 ?_
  by_cases ha : Value.AllHashable nodes
  · rw [select?_eq_firsts ha]
    cases hs : Value.sameItems (Value.firsts nodes) (w.selection x).nodes with
    | true => exact ⟨nofun, fun _ ↦ hsame ha hs, nofun⟩
    | false =>
      refine ⟨nofun, nofun, fun s he ↦ ?_⟩
      cases he
      exact hchanged ha hs
  · obtain ⟨e, he⟩ := exists_select?_error (s := w.selection x) ha
    rw [he]
    exact ⟨fun e' _ ↦ hrefused ha e', nofun, nofun⟩

/-- Selecting nodes fails only if they do not fit into a set. -/
theorem leads_select_exact (hb : Bystanders m j x (World.Unheard x name) Calm) (hn : m + 4 ≤ n)
    (hw : w.Sound) (hc : Calm w) (hx : x < w.selections.length) (hr : w.RecordedAs x name)
    (nodes : List Value) :
    (select (inner n) x nodes).Leads w
      (fun _ w' ↦ Value.AllHashable nodes ∧ w.Chosen x name nodes w' ∧ Calm w')
      (fun _ w' ↦ ¬ Value.AllHashable nodes ∧ w' = w) False := by
  have hold : Value.Settled (w.selection x).nodes := hw.settled_selection
  have hset (ha : Value.AllHashable nodes) : Value.Settled (Value.firsts nodes) :=
    Value.settled_of_distinct (Value.distinct_eq_firsts ha)
  apply leads_select_firsts
  · exact fun ha _ ↦ ⟨ha, rfl⟩
  · intro ha hs
    refine ⟨ha, ⟨(hset ha).hashable.sameItems_symm hs, ?_, fun _ ↦ rfl, .refl hw hx⟩, hc⟩
    rw [if_pos hold.hashable.sameItems_refl]
    rfl
  · intro ha hs
    let v : World := { w with selections := w.selections.set x ⟨Value.firsts nodes⟩ }
    have hg : w.Grown v := hw.grown_selection x (hset ha)
    have hrecorded : w.SameRecords x v := ⟨hg, hx, World.records_congr rfl⟩
    have hcv : Calm v := hb.stable hc (World.beside_selection _)
    refine (leads_announce_once hb hn hg.sound hcv (by simpa [v] using hx) hr).mono
      (fun _ w' ht ↦ ?_) (fun _ _ h ↦ h.elim)
    have hsel : (w'.selection x).nodes = Value.firsts nodes := by
      rw [ht.selection, World.selection_set hx]
    refine ⟨ha, ⟨?_, ?_, fun hs' ↦ ?_, hrecorded.trans ht.recorded⟩, ht.calm⟩
    · rw [hsel]
      exact (hset ha).hashable.sameItems_refl
    · rw [hsel, hs]
      exact ht.heard
    · rw [hsel, hs] at hs'
      cases hs'

/-- What is done with a selection. -/
inductive Pick where
  | select (nodes : Value)
  | clear
  | restore (i : Nat)

namespace Pick

def run (b : Inner) (x : Nat) : Pick → Run World Unit
  | select nodes => do Session.select b x (← Run.lift nodes.members)
  | clear => Session.select b x []
  | restore i => b.call .restore i

/-- The nodes that are asked for. -/
def asked (w : World) : Pick → Except Fault (List Value)
  | select nodes => nodes.members
  | clear => .ok []
  | restore i => w.capturedNodes i

/-- What is restored has to be a capture of the selection. -/
def Fits (x : Nat) (w : World) : Pick → Prop
  | select _ | clear => True
  | restore i => ∃ c, w.items[i]? = some (.capture c) ∧ c.selection = .selection x

/-- The nodes that were asked for last, leaving aside those that cannot be selected. -/
def latest (w : World) (before : List Value) (p : Pick) : List Value :=
  match p.asked w with
  | .ok nodes => if Value.AllHashable nodes then nodes else before
  | .error _ => before

/-- A pick in a world either fails and changes nothing, or selects what it asks for. -/
structure Exact (n x : Nat) (name : Text) (w : World) (p : Pick) : Prop where
  refused : (∀ nodes, p.asked w = .ok nodes → ¬ Value.AllHashable nodes) →
    ∃ e, p.run (inner n) x w = .raised e w
  taken : ∀ nodes, p.asked w = .ok nodes → Value.AllHashable nodes →
    ∃ w', p.run (inner n) x w = .returned () w' ∧ w.Chosen x name nodes w'

end Pick

theorem bind_selectionOf {α : Type} {f : Nat → Run World α} {sel : Text}
    (hs : w.object sel = .ok (.selection x)) (operation : Text) :
    (selectionOf sel operation >>= f) w = f x w := by
  have ho : selectionOf sel operation w = .returned x w := bind_object hs
  exact Run.bind_returned ho

/-- What a step does with a selection. -/
inductive Picks (x : Nat) (w : World) : Step → Pick → Prop where
  | select {sel : Text} {nodes : Value} :
      w.object sel = .ok (.selection x) → Picks x w (.select sel nodes) (.select nodes)
  | clear {sel : Text} : w.object sel = .ok (.selection x) → Picks x w (.clear sel) .clear
  | restore {label : Text} {i : Nat} :
      w.item label = .ok i → Picks x w (.restore label) (.restore i)

/-- A step that picks does nothing else. -/
theorem Picks.perform_eq {b : Inner} {step : Step} {p : Pick} (h : Picks x w step p) :
    perform b step w = (p.run b x >>= fun _ ↦ Pure.pure Answer.nothing) w := by
  cases h with
  | @select sel nodes hs =>
    show (selectionOf sel "select" >>= _) w = _
    rw [bind_selectionOf hs]
    show _ = ((Run.lift nodes.members >>= Session.select b x) >>= _) w
    rw [bind_assoc]
  | @clear sel hs =>
    show (object sel >>= _) w = _
    rw [bind_object hs]
    rfl
  | @restore label i hi =>
    show (item label >>= _) w = _
    rw [bind_item hi]
    rfl

/-- What happens from one world to the next, and which nodes have been asked for last: a pick, or
a step that leaves the selection as it is. -/
inductive Handling (n x : Nat) (Calm : World → Prop) :
    World × List Value → World × List Value → Prop where
  | pick {w w' : World} {nodes : List Value} (p : Pick) : p.Fits x w →
      (p.run (inner n) x w).state? = some w' → Handling n x Calm (w, nodes) (w', p.latest w nodes)
  | aside {w w' : World} {nodes : List Value} (step : Step) :
      (perform (inner n) step w).state? = some w' → w'.selection x = w.selection x → Calm w' →
      Handling n x Calm (w, nodes) (w', nodes)

theorem Handling.of_step {step : Step} {p : Pick} (h : Picks x w step p) (hp : p.Fits x w)
    (hs : (perform (inner n) step w).state? = some u) :
    Handling n x Calm (w, last) (u, p.latest w last) := by
  refine .pick p hp ?_
  rw [h.perform_eq] at hs
  cases hrun : p.run (inner n) x w with
  | returned a v => rwa [Run.bind_returned hrun] at hs
  | raised e v => rwa [Run.bind_raised hrun] at hs
  | exhausted => rwa [Run.bind_exhausted hrun] at hs

/-- A selection that is recorded under a name holds what has been asked for last. -/
structure Handled (x : Nat) (name : Text) (Calm : World → Prop) (s : World × List Value) :
    Prop where
  sound : s.1.Sound
  present : x < s.1.selections.length
  recorded : s.1.RecordedAs x name
  calm : Calm s.1
  hashable : Value.AllHashable s.2
  nodes : Value.sameItems (s.1.selection x).nodes (Value.firsts s.2) = true

namespace Handled

theorem later (h : Handled x name Calm (w, last)) (hr : w.SameRecords x u) (hc : Calm u)
    (ha : Value.AllHashable nodes)
    (hn : Value.sameItems (u.selection x).nodes (Value.firsts nodes) = true) :
    Handled x name Calm (u, nodes) := by
  refine ⟨hr.sound, Nat.lt_of_lt_of_le h.present (hr.grown.count (.selection x)), ?_, hc, ha, hn⟩
  obtain ⟨k, hk⟩ := h.recorded
  exact ⟨k, hr.records.trans hk⟩

theorem recorded_nameItem (h : Handled x name Calm (w, last)) (label : Text) (item : Item) :
    w.SameRecords x (w.nameItem label item) :=
  ⟨h.sound.grown_nameItem label item, h.present, rfl⟩

theorem leads_select (h : Handled x name Calm (w, last))
    (hb : Bystanders m j x (World.Unheard x name) Calm) (hn : m + 4 ≤ n) (nodes : List Value) :
    (select (inner n) x nodes).Leads w
      (fun _ w' ↦ Value.AllHashable nodes ∧ w.Chosen x name nodes w' ∧ Calm w')
      (fun _ w' ↦ ¬ Value.AllHashable nodes ∧ w' = w) False :=
  leads_select_exact hb hn h.sound h.calm h.present h.recorded nodes

/-- A pick leads where it is to lead. -/
theorem leads_pick (h : Handled x name Calm (w, last))
    (hb : Bystanders m j x (World.Unheard x name) Calm) (hn : m + 5 ≤ n) {p : Pick}
    (hp : p.Fits x w) :
    (p.run (inner n) x).Leads w
      (fun _ w' ↦ ∃ nodes, p.asked w = .ok nodes ∧ Value.AllHashable nodes ∧
        w.Chosen x name nodes w' ∧ Calm w')
      (fun _ w' ↦ (∀ nodes, p.asked w = .ok nodes → ¬ Value.AllHashable nodes) ∧ w' = w) False := by
  have hselect {n : Nat} {nodes : List Value} (hn : m + 4 ≤ n) (ha : p.asked w = .ok nodes) :
      (select (inner n) x nodes).Leads w
        (fun _ w' ↦ ∃ nodes, p.asked w = .ok nodes ∧ Value.AllHashable nodes ∧
          w.Chosen x name nodes w' ∧ Calm w')
        (fun _ w' ↦ (∀ nodes, p.asked w = .ok nodes → ¬ Value.AllHashable nodes) ∧ w' = w)
        False := by
    refine (h.leads_select hb hn nodes).mono (fun _ w' hw' ↦ ⟨nodes, ha, hw'⟩) (fun _ w' hw' ↦ ?_)
    refine ⟨fun nodes' ha' ↦ ?_, hw'.2⟩
    cases ha.symm.trans ha'
    exact hw'.1
  cases p with
  | select v =>
    unfold Pick.run
    rw [Run.leads_bind, Run.leads_lift]
    refine ⟨fun nodes hv ↦ hselect (by omega) hv, fun e hv ↦ ⟨fun nodes ha ↦ ?_, rfl⟩⟩
    cases hv.symm.trans ha
  | clear => exact hselect (by omega) rfl
  | restore i =>
    obtain ⟨n, rfl⟩ : ∃ k, n = k + 1 := ⟨n - 1, by omega⟩
    obtain ⟨c, hi, hc⟩ := hp
    have ha : w.capturedNodes i = .ok c.nodes := by rw [World.capturedNodes, hi]
    show (callItem (inner n) .restore i).Leads w _ _ _
    unfold callItem
    simp only [Run.leads_bind, Run.leads_get, hi, hc, selectIn]
    exact hselect (by omega) ha

theorem exact (h : Handled x name Calm (w, last))
    (hb : Bystanders m j x (World.Unheard x name) Calm) (hn : m + 5 ≤ n) {p : Pick}
    (hp : p.Fits x w) : p.Exact n x name w := by
  have hl := h.leads_pick hb hn hp
  constructor
  · intro hno
    have hraised : (p.run (inner n) x).Leads w (fun _ _ ↦ False) (fun _ u ↦ u = w) False := by
      refine hl.mono (fun _ u hu ↦ ?_) fun _ u hu ↦ hu.2
      obtain ⟨nodes, ha, hall, -⟩ := hu
      exact hno nodes ha hall
    obtain ⟨e, u, hrun, rfl⟩ := hraised.exists_raised
    exact ⟨e, hrun⟩
  · intro nodes ha hall
    have hreturned : (p.run (inner n) x).Leads w (fun _ u ↦ w.Chosen x name nodes u)
        (fun _ _ ↦ False) False := by
      refine hl.mono (fun _ u hu ↦ ?_) fun _ u hu ↦ hu.1 nodes ha hall
      obtain ⟨nodes', ha', -, hchosen, -⟩ := hu
      cases ha.symm.trans ha'
      exact hchosen
    obtain ⟨_, u, hrun, hchosen⟩ := hreturned.exists_returned
    exact ⟨u, hrun, hchosen⟩

/-- What has been asked for last is held after a pick, whether it fails or not. -/
theorem leads_handled (h : Handled x name Calm (w, last))
    (hb : Bystanders m j x (World.Unheard x name) Calm) (hn : m + 5 ≤ n) {p : Pick}
    (hp : p.Fits x w) :
    (p.run (inner n) x).Leads w
      (fun _ u ↦ Handled x name Calm (u, p.latest w last) ∧ w.Grown u)
      (fun _ u ↦ Handled x name Calm (u, p.latest w last) ∧ w.Grown u) False := by
  refine (h.leads_pick hb hn hp).mono (fun _ u hu ↦ ?_) fun _ u hu ↦ ?_
  · obtain ⟨nodes, ha, hall, hchosen, hc⟩ := hu
    have hlast : p.latest w last = nodes := by simp [Pick.latest, ha, hall]
    rw [hlast]
    exact ⟨h.later hchosen.recorded hc hall hchosen.nodes, hchosen.recorded.grown⟩
  · obtain ⟨hno, rfl⟩ := hu
    have hlast : p.latest u last = last := by
      unfold Pick.latest
      split
      · rename_i nodes ha
        exact if_neg (hno nodes ha)
      · rfl
    rw [hlast]
    exact ⟨h, h.sound.refl⟩

theorem step {s s' : World × List Value} (h : Handled x name Calm s)
    (hb : Bystanders m j x (World.Unheard x name) Calm) (hn : m + 5 ≤ n)
    (hs : Handling n x Calm s s') : Handled x name Calm s' ∧ s.1.Grown s'.1 := by
  cases hs with
  | @pick w w' last p hp hrun => exact (h.leads_handled hb hn hp).ended hrun
  | @aside w w' last step hrun hsel hc =>
    have hr := (perform_recorded x w n step w (.refl h.sound h.present)).ended hrun
    refine ⟨h.later hr hc h.hashable ?_, hr.grown⟩
    rw [hsel]
    exact h.nodes

theorem run {s s' : World × List Value} (h : Handled x name Calm s)
    (hb : Bystanders m j x (World.Unheard x name) Calm) (hn : m + 5 ≤ n)
    (hs : Relation.ReflTransGen (Handling n x Calm) s s') :
    Handled x name Calm s' ∧ s.1.Grown s'.1 := by
  induction hs with
  | refl => exact ⟨h, h.sound.refl⟩
  | tail _ hstep ih =>
    obtain ⟨h, hg⟩ := ih
    obtain ⟨h', hg'⟩ := h.step hb hn hstep
    exact ⟨h', hg.trans hg'⟩

end Handled

/-- With a new selection of nodes that are settled. -/
def World.withSelection (w : World) (name : Text) (us : List Value) : World :=
  ({ w with selections := w.selections ++ [⟨us⟩] } : World).present name
    (.selection w.selections.length)

theorem perform_newSelection {b : Inner} {v : Value} (hv : v.members = .ok nodes) :
    perform b (.newSelection name v) w = match Value.distinct nodes with
      | .ok us => .returned .nothing (w.withSelection name us)
      | .error e => .raised e w := by
  show Run.bind (newSelection name v) (fun _ ↦ Run.pure Answer.nothing) w = _
  unfold newSelection
  rw [hv]
  show Run.bind (Run.bind (Run.lift (Selection.ofNodes nodes)) _) _ w = _
  unfold Selection.ofNodes
  cases Value.distinct nodes with
  | ok us => rfl
  | error e => rfl

/-- No link leads from a selection that has not been there yet. -/
theorem World.Wired.records_new (hw : w.Wired) : w.records w.selections.length = [] := by
  refine List.filter_eq_nil_iff.2 fun l hl hs ↦ ?_
  rw [decide_eq_true_eq] at hs
  have hsource := hw.sources l hl
  rw [hs.1] at hsource
  exact Nat.lt_irrefl _ hsource

theorem selections_withSelection {us : List Value} :
    (w.withSelection name us).selections = w.selections ++ [⟨us⟩] := rfl

/-- One record is kept of a new selection. -/
theorem recordedAs_withSelection (hw : w.Wired) {us : List Value} :
    (w.withSelection name us).RecordedAs w.selections.length name := by
  refine ⟨w.linkCount, ?_⟩
  show World.records _ (World.connect _ _ _ _) = _
  rw [World.records_connect_record]
  exact congrArg (· ++ _) hw.records_new

theorem handled_withSelection {us : List Value} (hw : InPlace w)
    (hd : Value.distinct nodes = .ok us) (hc : Calm (w.withSelection name us)) :
    Handled w.selections.length name Calm (w.withSelection name us, nodes) := by
  have hset := Value.settled_of_distinct hd
  have ha : Value.AllHashable nodes := Value.exists_distinct_iff.1 ⟨us, hd⟩
  have hg := hw.sound.grown_addSelection (s := ⟨us⟩) hset
  have hp := hg.sound.grown_present name (o := .selection w.selections.length)
    (by simp [World.Has])
  have hselection : ((w.withSelection name us).selection w.selections.length).nodes = us := by
    simp [World.selection, selections_withSelection]
  refine ⟨hp.sound, ?_, recordedAs_withSelection hw.wired, hc, ha, ?_⟩
  · rw [selections_withSelection]
    simp
  · show Value.sameItems ((w.withSelection name us).selection _).nodes (Value.firsts nodes) = true
    rw [hselection, ← Except.ok.inj (hd.symm.trans (Value.distinct_eq_firsts ha))]
    exact hset.hashable.sameItems_refl

/-- A new selection holds the nodes that it is made with, and there is one record of it. -/
theorem handled_new {b : Inner} {v : Value} {a : Answer} (hw : InPlace w)
    (hv : v.members = .ok nodes) (hmade : perform b (.newSelection name v) w = .returned a u)
    (hc : Calm u) : Handled w.selections.length name Calm (u, nodes) := by
  rw [perform_newSelection hv] at hmade
  split at hmade
  next us hd =>
    cases hmade
    exact handled_withSelection hw hd hc
  next => cases hmade

/-- What is captured is the nodes as they are. -/
theorem perform_capture {b : Inner} {label sel : Text} (hs : w.object sel = .ok (.selection x)) :
    perform b (.capture label sel) w = .returned .nothing
      (w.nameItem label (.capture ⟨some label, .selection x, (w.selection x).nodes⟩)) := by
  show (selectionOf sel "capture" >>= _) w = _
  rw [bind_selectionOf hs]
  rfl

section

variable {z : World} {i : Nat}

theorem World.Chosen.nodes_of_settled (h : w.Chosen x name nodes u) (hs : Value.Settled nodes) :
    Value.sameItems (u.selection x).nodes nodes = true := by
  have hn := h.nodes
  rwa [Value.firsts_eq_of_settled hs] at hn

/-- A capture whose nodes are settled can be restored. -/
theorem Handled.exists_restored (h : Handled x name Calm (w, last))
    (hb : Bystanders m j x (World.Unheard x name) Calm) (hn : m + 5 ≤ n) {c : Capture}
    (hi : w.items[i]? = some (.capture c)) (hx : c.selection = .selection x)
    (hs : Value.Settled c.nodes) :
    ∃ w', (Pick.restore i).run (inner n) x w = .returned () w' ∧ w.Chosen x name c.nodes w' ∧
      Handled x name Calm (w', c.nodes) ∧ w.Grown w' := by
  have hfits : (Pick.restore i).Fits x w := ⟨c, hi, hx⟩
  have hasked : (Pick.restore i).asked w = .ok c.nodes := by
    show w.capturedNodes i = _
    rw [World.capturedNodes, hi]
  have hlast : (Pick.restore i).latest w last = c.nodes := by
    simp [Pick.latest, hasked, hs.hashable]
  obtain ⟨w', hw', hchosen⟩ := (h.exact hb hn hfits).taken c.nodes hasked hs.hashable
  obtain ⟨hlater, hgrown⟩ := (h.leads_handled hb hn hfits).returned hw'
  rw [hlast] at hlater
  exact ⟨w', hw', hchosen, hlater, hgrown⟩

/-- A capture whose nodes are settled is restored, and once restored it stays so. -/
theorem Handled.restore (h : Handled x name Calm (w, last))
    (hb : Bystanders m j x (World.Unheard x name) Calm) (hn : m + 5 ≤ n) {c : Capture}
    (hi : w.items[i]? = some (.capture c)) (hx : c.selection = .selection x)
    (hs : Value.Settled c.nodes) :
    ∃ w', (Pick.restore i).run (inner n) x w = .returned () w' ∧ w.Chosen x name c.nodes w' ∧
      w'.heard name = w.heard name +
        (if Value.sameItems c.nodes (w.selection x).nodes then 0 else 1) ∧
      Value.sameItems (w'.selection x).nodes c.nodes = true ∧
      (Pick.restore i).run (inner n) x w' = .returned () w' := by
  obtain ⟨w', hw', hchosen, h', hgrown⟩ := h.exists_restored hb hn hi hx hs
  have hsame := hchosen.nodes_of_settled hs
  have hback := h'.sound.settled_selection.hashable.sameItems_symm hsame
  have hheard : w'.heard name = w.heard name +
      if Value.sameItems c.nodes (w.selection x).nodes then 0 else 1 := by
    rw [hchosen.heard]
    congr 2
    refine propext ⟨hs.hashable.sameItems_trans hback, ?_⟩
    exact h'.sound.settled_selection.hashable.sameItems_trans hsame
  -- The second time there is nothing left to change.
  obtain ⟨w'', hw'', hagain, h'', -⟩ := h'.exists_restored hb hn (hgrown.capture hi) hx hs
  have hstill := hagain.still (h''.sound.settled_selection.hashable.sameItems_trans
    (hagain.nodes_of_settled hs) hback)
  rw [hstill] at hw''
  exact ⟨w', hw', hchosen, hheard, hsame, hw''⟩

/-- Whatever has been picked in a selection, it has no node twice and, up to equality, the first of
each node that was asked for last. A pick fails without a trace or selects what it asks for, and
that is recorded if it makes a difference, once. What has been captured at any time can be restored
at any later time. -/
theorem selection_exact {v : Value} {a : Answer} {t : World} (hw : Reached w)
    (hv : v.members = .ok nodes)
    (hmade : perform (inner n) (.newSelection name v) w = .returned a t) (hc : Calm t)
    (hb : Bystanders m j w.selections.length (World.Unheard w.selections.length name) Calm)
    (hn : m + 5 ≤ n)
    (hrun : Relation.ReflTransGen (Handling n w.selections.length Calm) (t, nodes) (u, last)) :
    let x := w.selections.length
    Value.Settled (u.selection x).nodes ∧
      Value.sameItems (u.selection x).nodes (Value.firsts last) = true ∧
      (∀ p : Pick, p.Fits x u → p.Exact n x name u) ∧
      ∀ label sel u' z later, u.object sel = .ok (.selection x) →
        perform (inner n) (.capture label sel) u = .returned .nothing u' →
        Relation.ReflTransGen (Handling n x Calm) (u', last) (z, later) →
        ∃ z', (Pick.restore u.items.length).run (inner n) x z = .returned () z' ∧
          z.Chosen x name (u.selection x).nodes z' ∧
          z'.heard name = z.heard name +
            (if Value.sameItems (u.selection x).nodes (z.selection x).nodes then 0 else 1) ∧
          Value.sameItems (z'.selection x).nodes (u.selection x).nodes = true ∧
          (Pick.restore u.items.length).run (inner n) x z' = .returned () z' := by
  intro x
  obtain ⟨h, -⟩ := (handled_new hw.inPlace hv hmade hc).run hb hn hrun
  have hs : Value.Settled (u.selection x).nodes := h.sound.settled_selection
  refine ⟨hs, h.nodes, fun p hp ↦ h.exact hb hn hp, ?_⟩
  intro label sel u' z later hsel hcapture hlater
  rw [perform_capture hsel] at hcapture
  cases hcapture
  let c : Capture := ⟨some label, .selection x, (u.selection x).nodes⟩
  have hcaptured : Handled x name Calm (u.nameItem label (.capture c), last) :=
    h.later (h.recorded_nameItem _ _)
      (hb.stable h.calm (World.beside_of_eq rfl rfl rfl rfl (List.prefix_append _ _)))
      h.hashable h.nodes
  obtain ⟨hz, hg⟩ := hcaptured.run hb hn hlater
  have hi : (u.nameItem label (.capture c)).items[u.items.length]? = some (.capture c) := by
    simp [World.nameItem, World.addItem]
  exact hz.restore hb hn (hg.capture hi) rfl hs

/-- A selection that has been made with three nodes, two of them equal, and a listener to it that
always fails. -/
def World.shelf : World :=
  (World.withSelection {} "s" [.bool true, .int 2]).connect (.selection 0) .selectionChanged
    (.listen [.fail .null] none)

/-- The selection once a text has been selected in it. -/
def World.spelled : World :=
  (perform (inner 5) (.select "s" (.text "aba")) shelf).state?.get (by decide +kernel)

/-- What has been captured is restored after the selection has been cleared. -/
theorem selection_exact_cleared :
    let Calm : World → Prop := fun w ↦ w.links.all fun l ↦ l.slot.failing
    let spelled : List Value := [.text "a", .text "b"]
    ∃ t z z' : World, perform (inner 5) (.capture "c" "s") World.spelled = .returned .nothing t ∧
      Relation.ReflTransGen (Handling 5 0 Calm) (t, [.text "a", .text "b", .text "a"]) (z, []) ∧
      (z.selection 0).nodes = [] ∧ z.heard "s" = 2 ∧
      (Pick.restore World.spelled.items.length).run (inner 5) 0 z = .returned () z' ∧
      Value.sameItems (z'.selection 0).nodes spelled = true ∧ z'.heard "s" = 3 ∧
      (Pick.restore World.spelled.items.length).run (inner 5) 0 z' = .returned () z' := by
  intro Calm spelled
  let nodes : List Value := [.bool true, .int 1, .int 2]
  have hd : Value.distinct nodes = .ok [.bool true, .int 2] := by decide +kernel
  have hmade : perform (inner 5) (.newSelection "s" (.list nodes)) {} =
      .returned .nothing (World.withSelection {} "s" [.bool true, .int 2]) := by
    rw [perform_newSelection (v := .list nodes) rfl, hd]
  have hlisten : Handling 5 0 Calm (World.withSelection {} "s" [.bool true, .int 2], nodes)
      (World.shelf, nodes) := by
    apply Handling.aside (.listen "s" "selection_changed" [.fail .null] none)
    · rfl
    · rfl
    · decide +kernel
  have hlatest : Pick.latest World.shelf nodes (.select (.text "aba")) =
      [.text "a", .text "b", .text "a"] := by decide +kernel
  have hspell : Handling 5 0 Calm (World.shelf, nodes)
      (World.spelled, [.text "a", .text "b", .text "a"]) := by
    rw [← hlatest]
    exact .of_step (.select rfl) trivial (Option.some_get _).symm
  have hobject : World.spelled.object "s" = .ok (.selection 0) := by decide +kernel
  have hnodes : (World.spelled.selection 0).nodes = spelled := by decide +kernel
  obtain ⟨-, -, -, hall⟩ := selection_exact (j := 0) (m := 0) (.start false) rfl hmade
    (by decide +kernel) (bystanders_failing 0 0 fun _ ↦ ⟨rfl, rfl⟩) (Nat.le_refl 5)
    (.tail (.single hlisten) hspell)
  let captured : World := World.spelled.nameItem "c"
    (.capture ⟨some "c", .selection 0, (World.spelled.selection 0).nodes⟩)
  have hcapture : perform (inner 5) (.capture "c" "s") World.spelled =
      .returned .nothing captured := perform_capture hobject
  have hcleared : ((perform (inner 5) (.clear "s") captured).state?.map fun z ↦
      ((z.selection 0).nodes, z.heard "s")) = some ([], 2) := by decide +kernel
  obtain ⟨z, hz, hseen⟩ := Option.map_eq_some_iff.1 hcleared
  obtain ⟨hempty, htwice⟩ := Prod.mk.inj hseen
  have hstill : captured.object "s" = .ok (.selection 0) := hobject
  have hclear : Handling 5 0 Calm (captured, [.text "a", .text "b", .text "a"]) (z, []) :=
    .of_step (.clear hstill) trivial hz
  obtain ⟨z', hz', -, hheard, hsame, hagain⟩ :=
    hall "c" "s" _ z [] hobject hcapture (.single hclear)
  refine ⟨_, z, z', hcapture, .single hclear, hempty, htwice, hz', ?_, ?_, hagain⟩
  · rw [← hnodes]
    exact hsame
  · rw [hheard, htwice]
    show 2 + (if Value.sameItems (World.spelled.selection 0).nodes (z.selection 0).nodes then 0
      else 1) = 3
    rw [hnodes, hempty]
    rfl

end

end Rewind.Session
