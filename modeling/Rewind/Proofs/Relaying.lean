import Rewind.Proofs.Growth

namespace Rewind.Session

/-- Whether a slot tells others what a dispatcher can do. -/
def Slot.tells : Slot → Signal → Bool
  | .relay _ _, _ => true
  | .record _, signal => signal = .stateChanged
  | .listen _ _, _ | .refresh _, _ | .capture _, _ => false

def Link.tells (l : Link) : Bool := l.slot.tells l.signal

/-- The one of two histories that goes with a mode. -/
def Object.history (p : Nat × Nat) : Mode → Object
  | .commands => .journal p.1
  | .snapshots => .timeline p.2

namespace World

/-- The history that a dispatcher drives. -/
def driven (w : World) (k : Nat) : Object :=
  let d := w.dispatcher k
  if d.usesTimeline then .timeline d.timeline else .journal d.journal

/-- Only objects that there are have links. What a history announces is relayed by the dispatcher
that it belongs to, and what tells of a dispatcher comes before whatever else is connected to the
same signal. -/
structure Wired (w : World) : Prop where
  sources : ∀ l ∈ w.links, w.Has l.source
  relayed : ∀ l ∈ w.links, ∀ k mode, l.slot = .relay k mode →
    l.signal = .historyChanged ∧ ∃ p, w.histories[k]? = some p ∧ l.source = Object.history p mode
  recorded : ∀ l ∈ w.links, ∀ name, l.slot = .record name → l.signal = .stateChanged →
    ∃ k, l.source = .dispatcher k
  first : w.links.Pairwise fun l m ↦ l.source = m.source → l.signal = m.signal → m.tells = false

theorem wired_new (logging : Bool) : ({ logging } : World).Wired where
  sources _ h := absurd h List.not_mem_nil
  relayed _ h := absurd h List.not_mem_nil
  recorded _ h := absurd h List.not_mem_nil
  first := .nil

namespace Wired

variable {w w' : World}

theorem frame (h : w.Wired) (hl : w'.links.Sublist w.links) (hc : ∀ o, w.count o ≤ w'.count o)
    (hh : ∀ (k : Nat) p, w.histories[k]? = some p → w'.histories[k]? = some p) : w'.Wired where
  sources l hm := Nat.lt_of_lt_of_le (h.sources l (hl.subset hm)) (hc l.source)
  relayed l hm k mode hs := by
    obtain ⟨hsignal, p, hp, hsource⟩ := h.relayed l (hl.subset hm) k mode hs
    exact ⟨hsignal, p, hh k p hp, hsource⟩
  recorded l hm := h.recorded l (hl.subset hm)
  first := h.first.sublist hl

theorem grown (h : w.Wired) (hg : w.Grown w') (hl : w'.links.Sublist w.links) : w'.Wired :=
  h.frame hl hg.count fun _ _ ↦ hg.histories_eq

theorem setSlot (h : w.Wired) (number : Nat) (steps : List Step) (left : Option Int) :
    (w.setSlot number (.listen steps left)).Wired := by
  have hof {l : Link} (hl : l ∈ (w.setSlot number (.listen steps left)).links) :
      ∃ m ∈ w.links, l.source = m.source ∧ (l = m ∨ l.slot = .listen steps left) := by
    obtain ⟨m, hm, rfl⟩ := List.mem_map.1 hl
    refine ⟨m, hm, ?_⟩
    split
    · exact ⟨rfl, .inr rfl⟩
    · exact ⟨rfl, .inl rfl⟩
  refine ⟨fun l hl ↦ ?_, fun l hl k mode hs ↦ ?_, fun l hl name hs ↦ ?_, ?_⟩
  · obtain ⟨m, hm, hsource, -⟩ := hof hl
    rw [hsource]
    exact h.sources m hm
  · obtain ⟨m, hm, -, rfl | he⟩ := hof hl
    · exact h.relayed l hm k mode hs
    · cases he.symm.trans hs
  · obtain ⟨m, hm, -, rfl | he⟩ := hof hl
    · exact h.recorded l hm name hs
    · cases he.symm.trans hs
  · have hat (m : Link) (hm : m.tells = false) : (if m.number = number then
        { m with slot := .listen steps left } else m).tells = false := by
      split
      · rfl
      · exact hm
    have hfrom (l : Link) : (if l.number = number then { l with slot := .listen steps left }
        else l).source = l.source ∧ (if l.number = number then
          { l with slot := .listen steps left } else l).signal = l.signal := by
      split <;> exact ⟨rfl, rfl⟩
    refine List.pairwise_map.2 (h.first.imp fun {l m} hf hsource hsignal ↦ hat m (hf ?_ ?_))
    · exact (hfrom l).1.symm.trans (hsource.trans (hfrom m).1)
    · exact (hfrom l).2.symm.trans (hsignal.trans (hfrom m).2)

section Connect

variable {o : Object} {signal : Signal} {slot : Slot}

/-- What tells of a dispatcher has to be the first that is connected to a signal. -/
theorem connect (h : w.Wired) (ho : w.Has o)
    (hrelay : ∀ k mode, slot = .relay k mode →
      signal = .historyChanged ∧ ∃ p, w.histories[k]? = some p ∧ o = Object.history p mode)
    (hrecord : ∀ name, slot = .record name → signal = .stateChanged → ∃ k, o = .dispatcher k)
    (hfirst : slot.tells signal = true → ∀ l ∈ w.links, l.source = o → l.signal ≠ signal) :
    (w.connect o signal slot).Wired := by
  have hlast {l : Link} (hl : l ∈ (w.connect o signal slot).links) :
      l ∈ w.links ∨ l = ⟨w.linkCount, o, signal, slot⟩ := by
    rcases List.mem_append.1 hl with hl | hl
    · exact .inl hl
    · exact .inr (List.mem_singleton.1 hl)
  refine ⟨fun l hl ↦ ?_, fun l hl ↦ ?_, fun l hl ↦ ?_, ?_⟩
  · rcases hlast hl with hl | rfl
    · exact h.sources l hl
    · exact ho
  · rcases hlast hl with hl | rfl
    · exact h.relayed l hl
    · exact hrelay
  · rcases hlast hl with hl | rfl
    · exact h.recorded l hl
    · exact hrecord
  · refine List.pairwise_append.2 ⟨h.first, List.pairwise_singleton _ _, fun l hl m hm hs hg ↦ ?_⟩
    obtain rfl := List.mem_singleton.1 hm
    cases ht : slot.tells signal with
    | false => exact ht
    | true => exact absurd hg (hfirst ht l hl hs)

theorem connect_other (h : w.Wired) (ho : w.Has o) (ht : slot.tells signal = false) :
    (w.connect o signal slot).Wired := by
  refine h.connect ho (fun k mode hs ↦ ?_) (fun name hs hg ↦ ?_) fun hn ↦ ?_
  · subst hs
    cases ht
  · subst hs hg
    cases ht
  · cases ht.symm.trans hn

end Connect

theorem nameObject (h : w.Wired) (name : Text) (o : Object) : (w.nameObject name o).Wired :=
  h.frame (List.Sublist.refl _) (fun _ ↦ Nat.le_refl _) fun _ _ hp ↦ hp

theorem records (h : w.Wired) (name : Text) {o : Object} (ho : w.Has o) {signals : List Signal}
    (hs : .stateChanged ∉ signals) :
    (signals.foldl (fun w signal ↦ w.connect o signal (.record name)) w).Wired := by
  induction signals generalizing w with
  | nil => exact h
  | cons signal signals ih =>
    rw [List.mem_cons, not_or] at hs
    exact ih (h.connect_other ho (decide_eq_false (Ne.symm hs.1))) ho hs.2

theorem present (h : w.Wired) (name : Text) {o : Object} (ho : w.Has o)
    (hk : ∀ k, o ≠ .dispatcher k) : (w.present name o).Wired := by
  refine (h.nameObject name o).records name ho ?_
  cases o with
  | dispatcher k => exact absurd rfl (hk k)
  | journal | timeline | selection | listing => simp [Object.signals]

end Wired

end World

/-- A world in which everything is in its place. -/
structure InPlace (w : World) : Prop where
  sound : w.Sound
  wired : w.Wired

namespace InPlace

variable {w w' : World}

theorem grown (h : InPlace w) (hg : w.Grown w') (hl : w'.links.Sublist w.links) : InPlace w' :=
  ⟨hg.sound, h.wired.grown hg hl⟩

theorem addEvent (h : InPlace w) (e : Event) : InPlace (w.addEvent e) :=
  h.grown (h.sound.grown_aside _ _ _ _) (List.Sublist.refl _)

theorem setSlot (h : InPlace w) (number : Nat) (steps : List Step) (left : Option Int) :
    InPlace (w.setSlot number (.listen steps left)) :=
  ⟨(h.sound.grown_setSlot _ _ _).sound, h.wired.setSlot _ _ _⟩

theorem listen (h : InPlace w) {o : Object} (ho : w.Has o) (signal : Signal) (steps : List Step)
    (times : Option Int) : InPlace (w.connect o signal (.listen steps times)) :=
  ⟨(h.sound.grown_connect o signal (.listen steps times) trivial nofun).sound,
    h.wired.connect_other ho rfl⟩

theorem withListing (h : InPlace w) (name : Text) {o : Object} {rows : List Nat} (ho : w.Has o)
    (hr : w.entries o = .ok rows) : InPlace (w.withListing name o rows) := by
  refine ⟨(h.sound.grown_withListing name hr).sound, ?_⟩
  have hg := h.sound.grown_addListing (⟨rows⟩, o)
  have hc : (World.connect { w with listings := w.listings ++ [(⟨rows⟩, o)] } o .historyChanged
      (.refresh w.listings.length)).Wired :=
    (h.wired.grown hg (List.Sublist.refl _)).connect_other (Nat.lt_of_lt_of_le ho (hg.count o)) rfl
  exact hc.present name (o := .listing w.listings.length) (by simp [World.Has, World.connect]) nofun

/-- A new dispatcher is the first to hear of its histories, and the record is the first to hear of
the dispatcher. -/
theorem withDispatcher (h : InPlace w) (name : Text) (s : Settings Value) :
    InPlace (w.withDispatcher name s) := by
  refine ⟨(h.sound.grown_withDispatcher name s).sound, ?_⟩
  let j := w.journals.length
  let t := w.timelines.length
  let k := w.dispatchers.length
  have hp : (w.withHistories s).histories[k]? = some (j, t) := by
    simp [World.histories, World.withHistories, j, t, k]
  have hv : (w.withHistories s).Wired :=
    h.wired.grown (h.sound.grown_withHistories s) (List.Sublist.refl _)
  -- Nothing that there has been has a link to what is new.
  have hnew {l : Link} (hl : l ∈ w.links) :
      l.source ≠ .journal j ∧ l.source ≠ .timeline t ∧ l.source ≠ .dispatcher k := by
    have hs := h.wired.sources l hl
    refine ⟨fun he ↦ ?_, fun he ↦ ?_, fun he ↦ ?_⟩
    all_goals
      rw [he] at hs
      exact Nat.lt_irrefl _ hs
  have hj : ((w.withHistories s).connect (.journal j) .historyChanged
      (.relay k .commands)).Wired := by
    refine hv.connect (by simp [World.Has, World.withHistories, j]) (fun i mode hs ↦ ?_)
      (by simp) fun _ l hl hs ↦ absurd hs (hnew hl).1
    cases hs
    exact ⟨rfl, _, hp, rfl⟩
  have ht : (((w.withHistories s).connect (.journal j) .historyChanged
      (.relay k .commands)).connect (.timeline t) .historyChanged (.relay k .snapshots)).Wired := by
    refine hj.connect (by simp [World.Has, World.connect, World.withHistories, t])
      (fun i mode hs ↦ ?_) (by simp) fun _ l hl hs ↦ ?_
    · cases hs
      exact ⟨rfl, _, hp, rfl⟩
    · rcases List.mem_append.1 hl with hl | hl
      · exact absurd hs (hnew hl).2.1
      · rw [List.mem_singleton.1 hl] at hs
        cases hs
  let v := (((w.withHistories s).connect (.journal j) .historyChanged (.relay k .commands)).connect
    (.timeline t) .historyChanged (.relay k .snapshots)).nameObject name (.dispatcher k)
  have hr : (v.connect (.dispatcher k) .stateChanged (.record name)).Wired := by
    refine (ht.nameObject name (.dispatcher k)).connect
      (by simp [World.Has, World.connect, World.nameObject, World.withHistories, k]) (by simp)
      (fun _ _ _ ↦ ⟨k, rfl⟩) fun _ l hl hs ↦ ?_
    rcases List.mem_append.1 hl with hl | hl
    · rcases List.mem_append.1 hl with hl | hl
      · exact absurd hs (hnew hl).2.2
      · rw [List.mem_singleton.1 hl] at hs
        cases hs
    · rw [List.mem_singleton.1 hl] at hs
      cases hs
  have hm : ((v.connect (.dispatcher k) .stateChanged (.record name)).connect (.dispatcher k)
      .modeChanged (.record name)).Wired :=
    hr.connect_other
      (by simp [World.Has, World.connect, World.nameObject, World.withHistories, v, k]) rfl
  exact (hm.present (name ++ ".commands") (o := .journal j)
    (by simp [World.Has, World.connect, World.nameObject, World.withHistories, v, j])
    (by simp)).present (name ++ ".snapshots") (o := .timeline t) (by
      rw [World.Has, World.count_present]
      simp [World.connect, World.nameObject, World.withHistories, v, t]) (by simp)

end InPlace

theorem upheld_inPlace : Upheld .any InPlace where
  sound h := h.sound
  aside _ _ h := h.grown (h.sound.grown_aside _ _ _ _) (List.Sublist.refl _)
  event h _ := h.addEvent _
  begun h _ := h.grown (h.sound.grown_aside _ _ _ _) (List.Sublist.refl _)
  read k h := h.grown (h.sound.grown_listing k _) (List.Sublist.refl _)
  done _ h := h.grown (h.sound.grown_aside _ _ _ _) (List.Sublist.refl _)
  renewed h hi := h.grown (h.sound.grown_renewed hi) (List.Sublist.refl _)
  captured _ _ h := h.grown (h.sound.grown_item _) (List.Sublist.refl _)
  edit h _ := h.grown (h.sound.grown_nameItem _ _) (List.Sublist.refl _)
  state h _ := h.grown (h.sound.grown_nameItem _ _) (List.Sublist.refl _)
  item _ _ h _ _ := h.grown (h.sound.grown_nameItem _ _) (List.Sublist.refl _)
  journal h _ := h.grown (h.sound.grown_addJournal _) (List.Sublist.refl _)
  timeline _ h := h.grown (h.sound.grown_addTimeline _) (List.Sublist.refl _)
  selection h hs := h.grown (h.sound.grown_addSelection hs) (List.Sublist.refl _)
  presented name _ _ _ h ho _ hk :=
    ⟨(h.sound.grown_present name ho).sound, h.wired.present name ho hk⟩
  listing name h ho hr := h.withListing name (h.sound.has_of_object ho) hr
  dispatcher name h _ _ := h.withDispatcher name _
  listened signal _ _ steps times h ho _ := h.listen (h.sound.has_of_object ho) signal steps times
  left _ h _ _ := h.setSlot _ _ _
  watched := fun {w _ k x} h hk ho ↦ by
    have hg := h.sound.grown_unwatch k (.selection x)
    refine ⟨((upheld_grown w).watched h.sound.refl hk ho).sound, ?_⟩
    exact (h.wired.grown hg List.filter_sublist).connect_other
      (Nat.lt_of_lt_of_le (h.sound.has_of_object ho) (hg.count _)) rfl
  unwatched h _ _ := h.grown (h.sound.grown_unwatch _ _) List.filter_sublist
  chosen k h hs := h.grown (h.sound.grown_selection k hs) (List.Sublist.refl _)
  listener _ _ _ _ _ := trivial
  program _ _ := ⟨fun _ _ ↦ trivial, fun _ _ ↦ trivial⟩
  restore _ _ _ _ := trivial

theorem aloof_inPlace : Aloof InPlace where
  journal k f h := h.grown (h.sound.grown_journal k f) (List.Sublist.refl _)
  timeline k f h := h.grown (h.sound.grown_timeline k f) (List.Sublist.refl _)
  mode k mode h := h.grown (h.sound.grown_setMode k mode) (List.Sublist.refl _)

theorem inner_inPlace (n : Nat) : (inner n).Upholds .any InPlace :=
  upheld_inPlace.inner aloof_inPlace (fun _ e h ↦ h.addEvent e) n

theorem Reached.inPlace {w : World} (h : Reached w) : InPlace w := by
  induction h with
  | start logging => exact ⟨World.sound_new logging, World.wired_new logging⟩
  | @step w w' _ n step hs ih =>
    have hb := inner_inPlace n
    have hp : (perform (inner n) step).Keeps InPlace :=
      upheld_inPlace.perform hb (upheld_inPlace.histories aloof_inPlace hb) trivial
    exact (hp w ih).ended hs
  | forget _ events ih => exact ih.grown (ih.sound.grown_aside _ _ _ _) (List.Sublist.refl _)

end Rewind.Session
