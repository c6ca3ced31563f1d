import Rewind.Proofs.Relaying
import Rewind.Proofs.Tame

namespace Rewind.Session

variable {w w' : World} {size : Nat}

namespace World

/-- Whatever histories record is an item. There are as many items as given, or more. -/
structure Recorded (w : World) (size : Nat) : Prop where
  journals : ∀ j ∈ w.journals, ∀ i ∈ j.entries, i < w.items.length
  timelines : ∀ t ∈ w.timelines, ∀ i ∈ t.entries, i < w.items.length
  size : size ≤ w.items.length

theorem recorded_new (logging : Bool) : ({ logging } : World).Recorded 0 where
  journals _ h := absurd h List.not_mem_nil
  timelines _ h := absurd h List.not_mem_nil
  size := Nat.le_refl 0

namespace Recorded

theorem frame (h : w.Recorded size) (hj : w'.journals = w.journals)
    (ht : w'.timelines = w.timelines) (hi : w.items.length ≤ w'.items.length) :
    w'.Recorded size where
  journals j hm i hx := Nat.lt_of_lt_of_le (h.journals j (hj ▸ hm) i hx) hi
  timelines t hm i hx := Nat.lt_of_lt_of_le (h.timelines t (ht ▸ hm) i hx) hi
  size := Nat.le_trans h.size hi

theorem addJournal (h : w.Recorded size) (limit : Value) :
    Recorded { w with journals := w.journals ++ [{ limit }] } size := by
  refine ⟨fun j hj ↦ ?_, h.timelines, h.size⟩
  rcases List.mem_append.1 hj with hj | hj
  · exact h.journals j hj
  · rw [List.mem_singleton.1 hj]
    nofun

theorem addTimeline (h : w.Recorded size) (limit : Value) :
    Recorded { w with timelines := w.timelines ++ [{ limit }] } size := by
  refine ⟨h.journals, fun t ht ↦ ?_, h.size⟩
  rcases List.mem_append.1 ht with ht | ht
  · exact h.timelines t ht
  · rw [List.mem_singleton.1 ht]
    nofun

theorem journal_lt (h : w.Recorded size) {k i : Nat} (hi : i ∈ (w.journal k).entries) :
    i < w.items.length := by
  have hall : ∀ i ∈ (w.journal k).entries, i < w.items.length :=
    holds_getD (P := fun j : Journal Nat ↦ ∀ i ∈ j.entries, i < w.items.length) h.journals
      (fun _ hx ↦ absurd hx List.not_mem_nil) k
  exact hall i hi

theorem timeline_lt (h : w.Recorded size) {k i : Nat} (hi : i ∈ (w.timeline k).entries) :
    i < w.items.length := by
  have hall : ∀ i ∈ (w.timeline k).entries, i < w.items.length :=
    holds_getD (P := fun t : Timeline Nat ↦ ∀ i ∈ t.entries, i < w.items.length) h.timelines
      (fun _ hx ↦ absurd hx List.not_mem_nil) k
  exact hall i hi

theorem journal (h : w.Recorded size) {k : Nat} {f : Journal Nat → Journal Nat}
    (hf : ∀ i ∈ (f (w.journal k)).entries, i ∈ (w.journal k).entries ∨ i < w.items.length) :
    Recorded { w with journals := w.journals.modify k f } size := by
  refine ⟨holds_modify {} h.journals fun hj i hi ↦ ?_, h.timelines, h.size⟩
  rcases hf i hi with hi | hi
  · exact hj i hi
  · exact hi

theorem timeline (h : w.Recorded size) {k : Nat} {f : Timeline Nat → Timeline Nat}
    (hf : ∀ i ∈ (f (w.timeline k)).entries, i ∈ (w.timeline k).entries ∨ i < w.items.length) :
    Recorded { w with timelines := w.timelines.modify k f } size := by
  refine ⟨h.journals, holds_modify {} h.timelines fun ht i hi ↦ ?_, h.size⟩
  rcases hf i hi with hi | hi
  · exact ht i hi
  · exact hi

end Recorded

end World

/-- A world in which all is in its place, goes on tamely, and is recorded as items, of which there
are as many as given. -/
structure Orderly (size : Nat) (w : World) : Prop where
  inPlace : InPlace w
  tame : w.Tame
  recorded : w.Recorded size

namespace Orderly

theorem frame (h : Orderly size w) (hp : InPlace w') (hitems : w'.items = w.items)
    (hnames : w'.itemNames = w.itemNames) (hlinks : w'.links = w.links)
    (hjournals : w'.journals = w.journals) (htimelines : w'.timelines = w.timelines) :
    Orderly size w' := by
  refine ⟨hp, ⟨hitems ▸ h.tame.items, ?_, hlinks ▸ h.tame.listeners, hjournals ▸ h.tame.limits⟩,
    h.recorded.frame hjournals htimelines (Nat.le_of_eq (by rw [hitems]))⟩
  rw [hnames, hitems]
  exact h.tame.names

theorem addEvent (h : Orderly size w) (e : Event) : Orderly size (w.addEvent e) :=
  h.frame (h.inPlace.addEvent e) rfl rfl rfl rfl rfl

theorem journal (h : Orderly size w) {k : Nat} {f : Journal Nat → Journal Nat}
    (hl : (w.journal k).limit.bound?.isSome = true → (f (w.journal k)).limit.bound?.isSome = true)
    (hf : ∀ i ∈ (f (w.journal k)).entries, i ∈ (w.journal k).entries ∨ i < w.items.length) :
    Orderly size { w with journals := w.journals.modify k f } :=
  ⟨aloof_inPlace.journal k f h.inPlace, h.tame.journal hl, h.recorded.journal hf⟩

theorem timeline (h : Orderly size w) {k : Nat} {f : Timeline Nat → Timeline Nat}
    (hf : ∀ i ∈ (f (w.timeline k)).entries, i ∈ (w.timeline k).entries ∨ i < w.items.length) :
    Orderly size { w with timelines := w.timelines.modify k f } :=
  ⟨aloof_inPlace.timeline k f h.inPlace,
    ⟨h.tame.items, h.tame.names, h.tame.listeners, h.tame.limits⟩, h.recorded.timeline hf⟩

theorem setMode (h : Orderly size w) (k : Nat) (mode : Value) :
    Orderly size { w with dispatchers := w.dispatchers.modify k ({ · with mode }) } :=
  h.frame (aloof_inPlace.mode k mode h.inPlace) rfl rfl rfl rfl rfl

theorem sized (h : Orderly size w) {size' : Nat} (hs : size' ≤ w.items.length) : Orderly size' w :=
  ⟨h.inPlace, h.tame, h.recorded.journals, h.recorded.timelines, hs⟩

theorem knows (h : Orderly size w) {i : Nat} (hi : w.Knows i) : i < w.items.length := by
  rcases hi with ⟨name, hi⟩ | hi
  · exact h.tame.lt_of_item hi
  · omega

end Orderly

theorem upheld_orderly (size : Nat) : Upheld .tame (Orderly size) where
  sound h := h.inPlace.sound
  aside _ _ h := h.frame (upheld_inPlace.aside _ _ h.inPlace) rfl rfl rfl rfl rfl
  event h _ := h.addEvent _
  begun h hk := h.frame (upheld_inPlace.begun h.inPlace hk) rfl rfl rfl rfl rfl
  read k h := h.frame (upheld_inPlace.read k h.inPlace) rfl rfl rfl rfl rfl
  done k h := h.frame (upheld_inPlace.done k h.inPlace) rfl rfl rfl rfl rfl
  renewed h hi := ⟨upheld_inPlace.renewed h.inPlace hi, h.tame.renewed hi,
    h.recorded.frame rfl rfl (Nat.le_of_eq (by
      have hl := congrArg List.length hi
      rwa [List.length_map, List.length_map, eq_comm] at hl))⟩
  captured x nodes h := ⟨upheld_inPlace.captured x nodes h.inPlace, h.tame.addItem rfl,
    h.recorded.frame rfl rfl (by simp [World.addItem])⟩
  edit h hs := ⟨upheld_inPlace.edit h.inPlace trivial, h.tame.nameItem _ hs,
    h.recorded.frame rfl rfl (by simp [World.nameItem, World.addItem])⟩
  state h hs := ⟨upheld_inPlace.state h.inPlace trivial, h.tame.nameItem _ hs,
    h.recorded.frame rfl rfl (by simp [World.nameItem, World.addItem])⟩
  item name _ h hp ho := ⟨upheld_inPlace.item name h.inPlace hp ho,
    h.tame.nameItem name (Item.isTame_of_not_isProgram hp),
    h.recorded.frame rfl rfl (by simp [World.nameItem, World.addItem])⟩
  journal h hl := ⟨upheld_inPlace.journal h.inPlace trivial, h.tame.addJournal hl,
    h.recorded.addJournal _⟩
  timeline limit h := ⟨upheld_inPlace.timeline limit h.inPlace,
    ⟨h.tame.items, h.tame.names, h.tame.listeners, h.tame.limits⟩, h.recorded.addTimeline limit⟩
  selection h hs := h.frame (upheld_inPlace.selection h.inPlace hs) rfl rfl rfl rfl rfl
  presented := fun {_ w} name {o} hu hn h ho hk hd ↦ by
    obtain ⟨links, linkCount, objects, he, -⟩ := w.exists_present name o
    refine ⟨upheld_inPlace.presented name hu.inPlace hn h.inPlace ho hk hd,
      h.tame.present name o, ?_⟩
    exact h.recorded.frame (by rw [he]) (by rw [he]) (Nat.le_of_eq (by rw [he]))
  listing := fun {w _ o rows} name h ho hr ↦ by
    obtain ⟨links, linkCount, objects, listings, he, -⟩ := w.exists_withListing name o rows
    refine ⟨upheld_inPlace.listing name h.inPlace ho hr, h.tame.withListing name o rows, ?_⟩
    exact h.recorded.frame (by rw [he]) (by rw [he]) (Nat.le_of_eq (by rw [he]))
  dispatcher := fun {w _ s} name h hs hsettings ↦ by
    obtain ⟨links, linkCount, objects, he, -⟩ := w.exists_withDispatcher name s
    refine ⟨upheld_inPlace.dispatcher name h.inPlace trivial hsettings,
      h.tame.withDispatcher name (Terms.tame.newDispatcher hs hsettings), ?_⟩
    have hr := (h.recorded.addJournal s.commandLimit).addTimeline s.snapshotLimit
    exact hr.frame (by rw [he]; rfl) (by rw [he]; rfl) (Nat.le_of_eq (by rw [he]; rfl))
  listened := fun signal _ _ steps times h ho hs ↦ by
    refine ⟨h.inPlace.listen (h.inPlace.sound.has_of_object ho) signal steps times,
      h.tame.connect _ _ _ ?_, h.recorded.frame rfl rfl (Nat.le_refl _)⟩
    intro _ _ he
    cases he
    exact Step.allTame_iff.1 hs
  left left h hl hs := ⟨upheld_inPlace.left left h.inPlace hl hs, h.tame.setSlot hl hs left,
    h.recorded.frame rfl rfl (Nat.le_refl _)⟩
  watched h hk ho := ⟨upheld_inPlace.watched h.inPlace hk ho,
    (h.tame.unwatch _ _).connect _ _ _ nofun, h.recorded.frame rfl rfl (Nat.le_refl _)⟩
  unwatched h ho hx := ⟨upheld_inPlace.unwatched h.inPlace ho hx, h.tame.unwatch _ _,
    h.recorded.frame rfl rfl (Nat.le_refl _)⟩
  chosen x h hs := h.frame (upheld_inPlace.chosen x h.inPlace hs) rfl rfl rfl rfl rfl
  listener h hl hs := h.tame.listeners _ hl _ _ hs
  program := fun {w i e} h hi ↦ by
    have hi := h.tame.items _ (List.mem_of_getElem? hi)
    simp only [Item.isTame, Bool.and_eq_true, Step.allTame_iff] at hi
    exact hi
  restore h hi := Step.allTame_iff.1 (h.tame.items _ (List.mem_of_getElem? hi))

end Rewind.Session
