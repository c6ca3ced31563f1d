import Rewind.Proofs.Bystanders
import Rewind.Proofs.Limit

namespace Rewind.Session

/-- A dispatcher with its histories, and a selection for it to watch. -/
structure Rig where
  dispatcher : Nat
  journal : Nat
  timeline : Nat
  selection : Nat

namespace World

variable {w w' : World} {i j k t x : Nat}

def Alters (w : World) (x i : Nat) : Prop :=
  ∃ c, w.items[i]? = some (.change c) ∧ c.selection = .selection x

/-- An item captures nodes of a selection that can be selected again. -/
def Captures (w : World) (x i : Nat) (nodes : List Value) : Prop :=
  ∃ name, w.items[i]? = some (.capture ⟨name, .selection x, nodes⟩) ∧ Value.Settled nodes

theorem Alters.grown (h : w.Alters x i) (hg : w.Grown w') : w'.Alters x i := by
  obtain ⟨c, hi, hc⟩ := h
  obtain ⟨text, hi'⟩ := hg.change hi
  exact ⟨_, hi', hc⟩

theorem Captures.grown {nodes : List Value} (h : w.Captures x i nodes) (hg : w.Grown w') :
    w'.Captures x i nodes := by
  obtain ⟨name, hi, hs⟩ := h
  exact ⟨name, hg.capture hi, hs⟩

theorem Captures.capturedNodes {nodes : List Value} (h : w.Captures x i nodes) :
    w.capturedNodes i = .ok nodes := by
  obtain ⟨name, hi, -⟩ := h
  simp [World.capturedNodes, hi]

theorem Sound.timeline_ne (h : w.Sound) (hk : w.histories[k]? = some (j, t)) {l : Nat}
    (hl : l < w.dispatchers.length) (hne : l ≠ k) : (w.dispatcher l).timeline ≠ t := by
  obtain ⟨hkl, hk⟩ := List.getElem?_eq_some_iff.1 hk
  obtain ⟨hll, hl⟩ := List.getElem?_eq_some_iff.1 (histories_of_lt hl)
  have hp := List.pairwise_iff_getElem.1 h.own
  rcases Nat.lt_or_gt_of_ne hne with hlt | hlt
  · have hn := (hp l k hll hkl hlt).2
    rwa [hl, hk] at hn
  · have hn := (hp k l hkl hll hlt).2
    rw [hl, hk] at hn
    exact Ne.symm hn

/-- A timeline is as it was, but for its limit. -/
structure SameTimeline (t : Nat) (w w' : World) : Prop where
  timeline : ∃ limit, w'.timeline t = { w.timeline t with limit }
  room : (w.timeline t).limit.room?.isSome → (w'.timeline t).limit.room?.isSome

theorem SameTimeline.of_eq (h : w'.timeline t = w.timeline t) : w.SameTimeline t w' :=
  ⟨⟨_, h⟩, fun hr ↦ h ▸ hr⟩

theorem SameTimeline.trans {w'' : World} (h : w.SameTimeline t w') (h' : w'.SameTimeline t w'') :
    w.SameTimeline t w'' := by
  obtain ⟨l, hl⟩ := h.timeline
  obtain ⟨l', hl'⟩ := h'.timeline
  exact ⟨⟨l', by rw [hl', hl]⟩, fun hr ↦ h'.room (h.room hr)⟩

end World

namespace Rig

variable {r : Rig} {w w' : World}

/-- A rig is as it was, but for the limit of its timeline, and for what its journal makes of the
changes of its selection. -/
structure Spares (r : Rig) (w w' : World) : Prop where
  same : w.SameTimeline r.timeline w'
  selection : w'.selection r.selection = w.selection r.selection
  watched : (w'.dispatcher r.dispatcher).watched = (w.dispatcher r.dispatcher).watched
  links : ∀ l ∈ w.links, l.slot = .capture r.dispatcher → l ∈ w'.links
  changes : (∀ i ∈ (w.journal r.journal).entries, w.Alters r.selection i) →
    ∀ i ∈ (w'.journal r.journal).entries, w'.Alters r.selection i

theorem spares_of_eq (ht : w'.timeline r.timeline = w.timeline r.timeline)
    (hs : w'.selections = w.selections) (hd : w'.dispatchers = w.dispatchers)
    (hl : w'.links = w.links) (hj : w'.journals = w.journals) (hi : w.items <+: w'.items) :
    r.Spares w w' := by
  refine ⟨.of_eq ht, ?_, ?_, fun l hm _ ↦ hl ▸ hm, fun hc i hm ↦ ?_⟩
  · rw [World.selection, hs, World.selection]
  · rw [World.dispatcher, hd, World.dispatcher]
  · have hm : i ∈ (w.journal r.journal).entries := by
      rwa [World.journal, hj, ← World.journal] at hm
    obtain ⟨c, hi', hc⟩ := hc i hm
    obtain ⟨rest, hr⟩ := hi
    exact ⟨c, hr ▸ List.getElem?_append_left (List.getElem?_eq_some_iff.1 hi').1 ▸ hi', hc⟩

theorem spares_tolerant : Tolerant (fun t ↦ t = r.timeline) r.Spares where
  refl _ := spares_of_eq rfl rfl rfl rfl rfl List.prefix_rfl
  trans h h' := ⟨h.same.trans h'.same, h'.selection.trans h.selection,
    h'.watched.trans h.watched, fun l hl hs ↦ h'.links l (h.links l hl hs) hs,
    fun hc ↦ h'.changes (h.changes hc)⟩
  event _ _ _ := spares_of_eq rfl rfl rfl rfl rfl List.prefix_rfl
  reading _ _ := spares_of_eq rfl rfl rfl rfl rfl List.prefix_rfl
  listing _ _ _ := spares_of_eq rfl rfl rfl rfl rfl List.prefix_rfl
  item _ _ := spares_of_eq rfl rfl rfl rfl rfl (List.prefix_append _ _)
  timeline w t f ht := spares_of_eq (by simp [World.timeline, ht]) rfl rfl rfl
    rfl List.prefix_rfl
  left {w l steps was} left hw hl hs := by
    refine ⟨.of_eq rfl, rfl, rfl, fun m hm hc ↦ List.mem_map.2 ⟨m, hm, ?_⟩, fun hc ↦ hc⟩
    have hn : m.number ≠ l.number := by
      intro hn
      rw [hw.eq_of_number hm hl hn, hs] at hc
      cases hc
    rw [if_neg hn]

/-- A rig whose timeline has only captures of the selection, and its journal only changes of it. -/
structure Ready (r : Rig) (w : World) : Prop where
  sound : w.Sound
  histories : w.histories[r.dispatcher]? = some (r.journal, r.timeline)
  selection : r.selection < w.selections.length
  changes : ∀ i ∈ (w.journal r.journal).entries, w.Alters r.selection i
  captures : ∀ i ∈ (w.timeline r.timeline).entries, ∃ nodes, w.Captures r.selection i nodes
  enabled : (w.timeline r.timeline).enabled.truth = true
  room : (w.timeline r.timeline).limit.room?.isSome
  inRange : (w.timeline r.timeline).InRange

/-- A rig whose dispatcher watches the selection. -/
structure Follows (r : Rig) (w : World) : Prop extends r.Ready w where
  watched : (w.dispatcher r.dispatcher).watched = some (.selection r.selection)
  linked : ∃ l ∈ w.links, l.slot = .capture r.dispatcher

/-- What the timeline holds to be current is what is selected. -/
def InStep (r : Rig) (w : World) : Prop :=
  (w.timeline r.timeline).restoring = false ∧ ∃ i nodes,
    (w.timeline r.timeline).current = .ok (some i) ∧ w.Captures r.selection i nodes ∧
      Value.sameItems nodes (w.selection r.selection).nodes = true

theorem Ready.timeline_lt (h : r.Ready w) : r.timeline < w.timelines.length :=
  (h.sound.histories _ (List.mem_of_getElem? h.histories)).2

theorem Ready.journal_lt (h : r.Ready w) : r.journal < w.journals.length :=
  (h.sound.histories _ (List.mem_of_getElem? h.histories)).1

theorem Ready.settled (h : r.Ready w) : Value.Settled (w.selection r.selection).nodes :=
  h.sound.settled (w.selection r.selection) (by simp [World.selection, h.selection])

theorem Ready.of_spares (h : r.Ready w) (hs : r.Spares w w') (hg : w.Grown w') : r.Ready w' := by
  obtain ⟨limit, hlimit⟩ := hs.same.timeline
  refine ⟨hg.sound, hg.histories_eq h.histories,
    Nat.lt_of_lt_of_le h.selection (hg.count (.selection r.selection)), hs.changes h.changes, ?_,
    ?_, hs.same.room h.room, ?_⟩
  · intro i hi
    rw [hlimit] at hi
    obtain ⟨nodes, hn⟩ := h.captures i hi
    exact ⟨nodes, hn.grown hg⟩
  · rw [hlimit]
    exact h.enabled
  · rw [hlimit]
    exact h.inRange

theorem Follows.of_spares (h : r.Follows w) (hs : r.Spares w w') (hg : w.Grown w') :
    r.Follows w' := by
  obtain ⟨l, hl, hc⟩ := h.linked
  exact ⟨h.toReady.of_spares hs hg, hs.watched.trans h.watched, l, hs.links l hl hc, hc⟩

theorem InStep.of_spares (h : r.InStep w) (hs : r.Spares w w') (hg : w.Grown w') :
    r.InStep w' := by
  obtain ⟨hr, i, nodes, hi, hc, hn⟩ := h
  obtain ⟨limit, hlimit⟩ := hs.same.timeline
  refine ⟨?_, i, nodes, ?_, hc.grown hg, ?_⟩
  · rw [hlimit]
    exact hr
  · rw [hlimit]
    exact hi
  · rw [hs.selection]
    exact hn

theorem Follows.of_timeline (h : r.Follows w) (hg : w.Grown w') (hj : w'.journals = w.journals)
    (hd : w'.dispatchers = w.dispatchers) (hl : w'.links = w.links) {t : Timeline Nat}
    (ht : w'.timeline r.timeline = t)
    (hc : ∀ i ∈ t.entries, ∃ nodes, w'.Captures r.selection i nodes)
    (he : t.enabled.truth = true) (hr : t.limit.room?.isSome) (hi : t.InRange) : r.Follows w' := by
  subst ht
  refine ⟨⟨hg.sound, hg.histories_eq h.histories,
    Nat.lt_of_lt_of_le h.selection (hg.count (.selection r.selection)), fun i hm ↦ ?_, hc, he, hr,
    hi⟩, ?_, ?_⟩
  · rw [World.journal, hj] at hm
    exact (h.changes i hm).grown hg
  · rw [World.dispatcher, hd]
    exact h.watched
  · rw [hl]
    exact h.linked

theorem Follows.select (h : r.Follows w) {s : Selection} (hs : Value.Settled s.nodes) :
    r.Follows { w with selections := w.selections.set r.selection s } := by
  have hg := h.sound.grown_selection r.selection hs
  exact ⟨⟨hg.sound, h.histories, by simpa using h.selection, h.changes, h.captures, h.enabled,
    h.room, h.inRange⟩, h.watched, h.linked⟩

theorem Ready.elsewhere (h : r.Ready w) {l : Link} (hl : l ∈ w.links)
    (hr : l.slot ≠ .capture r.dispatcher) {k : Nat} (hk : l.slot = .capture k) {w' : World}
    (hg : w.Grown w') : (w'.dispatcher k).timeline ≠ r.timeline := by
  have hk' : k < w'.dispatchers.length :=
    Nat.lt_of_lt_of_le (h.sound.capture hl hk).1 (hg.count (.dispatcher k))
  apply hg.sound.timeline_ne (hg.histories_eq h.histories) hk'
  rintro rfl
  exact hr hk

end Rig

end Rewind.Session
