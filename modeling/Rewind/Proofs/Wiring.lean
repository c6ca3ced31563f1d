import Rewind.Proofs.Hosts
import Rewind.Proofs.Scalar
import Rewind.Session.Perform

namespace Rewind.Session

/-- What never changes about an item. -/
def Item.gist : Item → Item
  | edit e => edit { e with text := .null, undone := 0, redone := 0 }
  | group g => group ⟨g.name, .null, #[]⟩
  | change c => change { c with text := .null }
  | state s => state { s with restored := 0 }
  | capture c => capture c

/-- Whether an item can be described is part of what it is. -/
theorem Item.describe_gist {item : Item} {e : Fault} :
    item.gist.describe = .error e ↔ item.describe = .error e := by
  cases item with
  | edit x =>
    simp only [gist, describe]
    cases x.failure <;> simp
  | group | change => simp [gist, describe]
  | state | capture => rfl

theorem Item.gist_withText (text : Value) (item : Item) :
    (item.withText text).gist = item.gist := by
  cases item <;> rfl

theorem map_modify_of_eq {α β : Type} {f : α → α} {g : α → β} (h : ∀ a, g (f a) = g a)
    (l : List α) (i : Nat) : (l.modify i f).map g = l.map g := by
  refine List.ext_getElem? fun j ↦ ?_
  by_cases hj : i = j
  · subst hj
    cases hl : l[i]? with
    | none => simp [hl]
    | some a => simp [hl, h a]
  · simp [hj]

theorem mem_of_mem_modify {α : Type} {f : α → α} {l : List α} {i : Nat} {a : α}
    (h : a ∈ l.modify i f) : a ∈ l ∨ ∃ c, l[i]? = some c ∧ a = f c := by
  obtain ⟨k, hk⟩ := List.mem_iff_getElem?.1 h
  rw [List.getElem?_modify] at hk
  obtain ⟨c, hc, rfl⟩ := Option.map_eq_some_iff.1 hk
  split
  · rename_i hik
    subst hik
    exact .inr ⟨c, hc, rfl⟩
  · exact .inl (List.mem_of_getElem? hc)

theorem holds_getD {α : Type} {P : α → Prop} {l : List α} {d : α} (h : ∀ a ∈ l, P a) (hd : P d)
    (i : Nat) : P (l.getD i d) := by
  rw [List.getD_eq_getElem?_getD]
  cases hi : l[i]? with
  | none => exact hd
  | some a => exact h a (List.mem_of_getElem? hi)

/-- What holds of all in a list still does if it holds of what the one at a place becomes. -/
theorem holds_modify {α : Type} {P : α → Prop} {f : α → α} {l : List α} {i : Nat} (d : α)
    (h : ∀ a ∈ l, P a) (hf : P (l.getD i d) → P (f (l.getD i d))) : ∀ a ∈ l.modify i f, P a := by
  intro a ha
  rcases mem_of_mem_modify ha with ha | ⟨c, hc, rfl⟩
  · exact h a ha
  · have he : l.getD i d = c := by
      rw [List.getD_eq_getElem?_getD, hc]
      rfl
    rw [he] at hf
    exact hf (h c (List.mem_of_getElem? hc))

theorem map_gist_set {items : List Item} {i : Nat} {item old : Item} (ho : items[i]? = some old)
    (hg : item.gist = old.gist) : (items.set i item).map Item.gist = items.map Item.gist := by
  rw [List.map_set, hg]
  refine List.ext_getElem? fun j ↦ ?_
  by_cases hj : i = j
  · subst hj
    obtain ⟨hl, ho⟩ := List.getElem?_eq_some_iff.1 ho
    simp [hl, ho]
  · simp [hj]

@[simp]
def Object.place : Object → Nat
  | journal k | timeline k | selection k | listing k | dispatcher k => k

namespace World

/-- The histories of each dispatcher, its journal and its timeline. -/
def histories (w : World) : List (Nat × Nat) := w.dispatchers.map fun d ↦ (d.journal, d.timeline)

@[simp]
def count (w : World) : Object → Nat
  | .journal _ => w.journals.length
  | .timeline _ => w.timelines.length
  | .selection _ => w.selections.length
  | .listing _ => w.listings.length
  | .dispatcher _ => w.dispatchers.length

def Has (w : World) (o : Object) : Prop := o.place < w.count o

/-- Histories are followed by listings and dispatchers, and what a dispatcher captures is the
selection that it watches. -/
def Placed (w : World) (l : Link) : Prop :=
  match l.slot with
  | .record _ | .listen _ _ => True
  | .refresh _ | .relay _ _ => ∃ k, l.source = .journal k ∨ l.source = .timeline k
  | .capture k => k < w.dispatchers.length ∧ (w.dispatcher k).watched = some l.source ∧
      l.signal = .selectionChanged ∧ ∃ x, l.source = .selection x

/-- Names lead to objects that there are, links are told apart by their numbers, each dispatcher has
histories of its own and captures at most one selection, and no selection has a node twice. -/
structure Sound (w : World) : Prop where
  objects : ∀ o ∈ w.objects, w.Has o.2
  numbered : ∀ l ∈ w.links, l.number < w.linkCount
  apart : w.links.Pairwise fun l m ↦ l.number ≠ m.number
  placed : ∀ l ∈ w.links, w.Placed l
  once : w.links.Pairwise fun l m ↦ ∀ k, l.slot = .capture k → m.slot ≠ .capture k
  histories : ∀ h ∈ w.histories, h.1 < w.journals.length ∧ h.2 < w.timelines.length
  own : w.histories.Pairwise fun h i ↦ h.1 ≠ i.1 ∧ h.2 ≠ i.2
  settled : ∀ s ∈ w.selections, Value.Settled s.nodes

/-- What there is in a world is still there in a later one. -/
structure Grown (w w' : World) : Prop where
  sound : w'.Sound
  items : w.items.map Item.gist <+: w'.items.map Item.gist
  histories : w.histories <+: w'.histories
  count : ∀ o, w.count o ≤ w'.count o

/-- With a new listing of a history, which follows the history's changes. -/
def withListing (w : World) (name : Text) (history : Object) (rows : List Nat) : World :=
  let k := w.listings.length
  (({ w with listings := w.listings ++ [(⟨rows⟩, history)] } : World).connect history
    .historyChanged (.refresh k)).present name (.listing k)

/-- With a new dispatcher and its histories, which nothing is connected to yet. -/
def withHistories (w : World) (s : Settings Value) : World :=
  { w with
    journals := w.journals ++ [{ limit := s.commandLimit }]
    timelines := w.timelines ++ [{ limit := s.snapshotLimit }]
    dispatchers := w.dispatchers ++ [⟨s.mode, w.journals.length, w.timelines.length, none⟩] }

/-- With a new dispatcher, which hears of its histories before anyone else. -/
def withDispatcher (w : World) (name : Text) (s : Settings Value) : World :=
  let j := Object.journal w.journals.length
  let t := Object.timeline w.timelines.length
  let k := w.dispatchers.length
  (((((w.withHistories s).connect j .historyChanged (.relay k .commands)).connect t
    .historyChanged (.relay k .snapshots)).present name (.dispatcher k)).present
    (name ++ ".commands") j).present (name ++ ".snapshots") t

variable {w w' w'' : World}

theorem newDispatcher_eq {name : Text} {source : Settings.Source Value} {s : Settings Value}
    (hs : source.settings id = .ok s) :
    newDispatcher name source w = .returned () (w.withDispatcher name s) := by
  unfold newDispatcher
  rw [hs]
  rfl

theorem mem_bind {α : Type} {names : List (Text × α)} {name : Text} {a : α} {n : Text × α}
    (h : n ∈ World.bind names name a) : n ∈ names ∨ n.2 = a := by
  induction names with
  | nil => exact .inr (by rw [List.mem_singleton.1 h])
  | cons m names ih =>
    unfold World.bind at h
    split at h
    · rcases List.mem_cons.1 h with rfl | h
      · exact .inr rfl
      · exact .inl (List.mem_cons_of_mem m h)
    · rcases List.mem_cons.1 h with rfl | h
      · exact .inl List.mem_cons_self
      · exact (ih h).imp (List.mem_cons_of_mem m) id

theorem exists_items_of_addPart {i part : Nat} (hp : w.addPart i part = .ok w') :
    ∃ items, w' = { w with items } ∧ items.map Item.gist = w.items.map Item.gist := by
  unfold addPart at hp
  split at hp
  · rename_i g hi
    cases hp
    exact ⟨_, rfl, map_gist_set hi rfl⟩
  · cases hp

/-- All that a dispatcher captures is what it watches, so nothing is left of its captures. -/
theorem not_capture_of_unwatch (h : w.Sound) {k : Nat} {o : Object} {l : Link}
    (hl : l ∈ (w.unwatch k o).links) : l.slot ≠ .capture k := by
  intro hs
  obtain ⟨hm, hl⟩ := List.mem_filter.1 hl
  have hp := h.placed l hm
  simp only [Placed, hs] at hp
  simp [hs, hp.2.1] at hl

theorem watched_unwatch {k : Nat} {o : Object} (hk : k < w.dispatchers.length) :
    ((w.unwatch k o).dispatcher k).watched = some o := by
  simp [unwatch, dispatcher, List.getElem?_eq_getElem hk]

theorem exists_present (w : World) (name : Text) (o : Object) :
    ∃ links linkCount objects, w.present name o = { w with links, linkCount, objects } ∧
      w.links <+: links := by
  have hall (signals : List Signal) (v : World) : ∃ links linkCount,
      signals.foldl (fun w signal ↦ w.connect o signal (.record name)) v =
        { v with links, linkCount } ∧ v.links <+: links := by
    induction signals generalizing v with
    | nil => exact ⟨v.links, v.linkCount, rfl, List.prefix_rfl⟩
    | cons signal signals ih =>
      obtain ⟨links, linkCount, he, hl⟩ := ih (v.connect o signal (.record name))
      exact ⟨links, linkCount, he, (List.prefix_append _ _).trans hl⟩
  obtain ⟨links, linkCount, he, hl⟩ := hall o.signals (w.nameObject name o)
  exact ⟨links, linkCount, _, he, hl⟩

theorem count_present (name : Text) (o p : Object) : (w.present name o).count p = w.count p := by
  obtain ⟨links, linkCount, objects, he, -⟩ := w.exists_present name o
  rw [he]
  cases p <;> rfl

theorem exists_withListing (w : World) (name : Text) (o : Object) (rows : List Nat) :
    ∃ links linkCount objects listings,
      w.withListing name o rows = { w with links, linkCount, objects, listings } ∧
        w.links <+: links := by
  let v : World := ({ w with listings := w.listings ++ [(⟨rows⟩, o)] } : World).connect o
    .historyChanged (.refresh w.listings.length)
  obtain ⟨links, linkCount, objects, he, hl⟩ := v.exists_present name (.listing w.listings.length)
  exact ⟨links, linkCount, objects, v.listings, he, (List.prefix_append _ _).trans hl⟩

theorem exists_withDispatcher (w : World) (name : Text) (s : Settings Value) :
    ∃ links linkCount objects,
      w.withDispatcher name s = { w.withHistories s with links, linkCount, objects } ∧
        w.links <+: links := by
  let v : World := ((w.withHistories s).connect (.journal w.journals.length) .historyChanged
    (.relay w.dispatchers.length .commands)).connect (.timeline w.timelines.length) .historyChanged
    (.relay w.dispatchers.length .snapshots)
  obtain ⟨l₁, c₁, o₁, h₁, p₁⟩ := v.exists_present name (.dispatcher w.dispatchers.length)
  obtain ⟨l₂, c₂, o₂, h₂, p₂⟩ := (v.present name (.dispatcher w.dispatchers.length)).exists_present
    (name ++ ".commands") (.journal w.journals.length)
  obtain ⟨l₃, c₃, o₃, h₃, p₃⟩ := ((v.present name (.dispatcher w.dispatchers.length)).present
    (name ++ ".commands") (.journal w.journals.length)).exists_present (name ++ ".snapshots")
    (.timeline w.timelines.length)
  refine ⟨l₃, c₃, o₃, ?_, ?_⟩
  · show ((v.present name _).present _ _).present _ _ = _
    rw [h₃, h₂, h₁]
    rfl
  · rw [h₂] at p₃
    rw [h₁] at p₂
    have hv : w.links <+: v.links := (List.prefix_append _ _).trans (List.prefix_append _ _)
    exact ((hv.trans p₁).trans p₂).trans p₃

section WithDispatcher

variable (w : World) (name : Text) (s : Settings Value)

theorem histories_withDispatcher : (w.withDispatcher name s).histories[w.dispatchers.length]? =
    some (w.journals.length, w.timelines.length) := by
  obtain ⟨links, linkCount, objects, he, -⟩ := w.exists_withDispatcher name s
  rw [he]
  simp [histories, withHistories]

theorem mode_withDispatcher :
    ((w.withDispatcher name s).dispatcher w.dispatchers.length).mode = s.mode := by
  obtain ⟨links, linkCount, objects, he, -⟩ := w.exists_withDispatcher name s
  rw [he]
  simp [dispatcher, withHistories]

theorem journal_withDispatcher :
    (w.withDispatcher name s).journal w.journals.length = { limit := s.commandLimit } := by
  obtain ⟨links, linkCount, objects, he, -⟩ := w.exists_withDispatcher name s
  rw [he]
  simp [journal, withHistories]

theorem timeline_withDispatcher :
    (w.withDispatcher name s).timeline w.timelines.length = { limit := s.snapshotLimit } := by
  obtain ⟨links, linkCount, objects, he, -⟩ := w.exists_withDispatcher name s
  rw [he]
  simp [timeline, withHistories]

theorem exists_relay (mode : Mode) : ∃ l ∈ (w.withDispatcher name s).links,
    l.slot = .relay w.dispatchers.length mode := by
  cases mode with
  | commands =>
    refine ⟨⟨w.linkCount, .journal w.journals.length, .historyChanged, _⟩, ?_, rfl⟩
    simp [withDispatcher, present, Object.signals, connect, nameObject, withHistories]
  | snapshots =>
    refine ⟨⟨w.linkCount + 1, .timeline w.timelines.length, .historyChanged, _⟩, ?_, rfl⟩
    simp [withDispatcher, present, Object.signals, connect, nameObject, withHistories]

theorem exists_record : ∃ l ∈ (w.withDispatcher name s).links,
    l.source = .dispatcher w.dispatchers.length ∧ l.signal = .stateChanged ∧
      l.slot = .record name := by
  refine ⟨⟨w.linkCount + 2, .dispatcher w.dispatchers.length, .stateChanged, .record name⟩, ?_,
    rfl, rfl, rfl⟩
  simp [withDispatcher, present, Object.signals, connect, nameObject, withHistories]

end WithDispatcher

theorem sound_new (logging : Bool) : ({ logging } : World).Sound where
  objects _ h := absurd h List.not_mem_nil
  numbered _ h := absurd h List.not_mem_nil
  apart := .nil
  placed _ h := absurd h List.not_mem_nil
  once := .nil
  histories _ h := absurd h List.not_mem_nil
  own := .nil
  settled _ h := absurd h List.not_mem_nil

theorem Grown.trans (h : w.Grown w') (h' : w'.Grown w'') : w.Grown w'' :=
  ⟨h'.sound, h.items.trans h'.items, h.histories.trans h'.histories,
    fun o ↦ Nat.le_trans (h.count o) (h'.count o)⟩

theorem Grown.item (h : w.Grown w') {i : Nat} {item : Item}
    (hi : w.items[i]? = some item) :
    ∃ item', w'.items[i]? = some item' ∧ item'.gist = item.gist := by
  obtain ⟨rest, hr⟩ := h.items
  have hg : (w'.items.map Item.gist)[i]? = some item.gist := by
    have hl := (List.getElem?_eq_some_iff.1 hi).1
    rw [← hr, List.getElem?_append_left (by simpa using hl), List.getElem?_map, hi]
    rfl
  rw [List.getElem?_map] at hg
  cases hi' : w'.items[i]? with
  | none => simp [hi'] at hg
  | some item' => exact ⟨item', rfl, by simpa [hi'] using hg⟩

theorem Grown.change (h : w.Grown w') {i : Nat} {c : Change}
    (hi : w.items[i]? = some (.change c)) :
    ∃ text, w'.items[i]? = some (.change { c with text }) := by
  obtain ⟨item, hi', hg⟩ := h.item hi
  cases item with
  | change c' =>
    obtain ⟨name, text, selection, before, after⟩ := c'
    obtain ⟨⟩ := c
    simp only [Item.gist, Item.change.injEq, Change.mk.injEq] at hg
    obtain ⟨rfl, -, rfl, rfl, rfl⟩ := hg
    exact ⟨text, hi'⟩
  | edit | group | state | capture => simp [Item.gist] at hg

theorem Grown.capture (h : w.Grown w') {i : Nat} {c : Capture}
    (hi : w.items[i]? = some (.capture c)) : w'.items[i]? = some (.capture c) := by
  obtain ⟨item, hi', hg⟩ := h.item hi
  cases item with
  | capture c' =>
    cases hg
    exact hi'
  | edit | group | state | change => simp [Item.gist] at hg

theorem Grown.histories_eq (h : w.Grown w') {k : Nat} {p : Nat × Nat}
    (hp : w.histories[k]? = some p) : w'.histories[k]? = some p := by
  obtain ⟨rest, hr⟩ := h.histories
  rw [← hr, List.getElem?_append_left (List.getElem?_eq_some_iff.1 hp).1, hp]

theorem dispatcher_eq {k j t : Nat} (h : w.histories[k]? = some (j, t)) :
    k < w.dispatchers.length ∧ (w.dispatcher k).journal = j ∧ (w.dispatcher k).timeline = t := by
  rw [histories, List.getElem?_map] at h
  cases hd : w.dispatchers[k]? with
  | none => simp [hd] at h
  | some d =>
    rw [hd] at h
    cases h
    refine ⟨(List.getElem?_eq_some_iff.1 hd).1, ?_, ?_⟩
    all_goals simp [dispatcher, hd]

theorem histories_of_lt {k : Nat} (hk : k < w.dispatchers.length) :
    w.histories[k]? = some ((w.dispatcher k).journal, (w.dispatcher k).timeline) := by
  rw [histories, List.getElem?_map]
  simp [dispatcher, List.getElem?_eq_getElem hk]

theorem Sound.timeline_lt (h : w.Sound) {k : Nat} (hk : k < w.dispatchers.length) :
    (w.dispatcher k).timeline < w.timelines.length :=
  (h.histories _ (List.mem_of_getElem? (histories_of_lt hk))).2

theorem Grown.timeline_eq (h : w.Grown w') {k : Nat} (hk : k < w.dispatchers.length) :
    (w'.dispatcher k).timeline = (w.dispatcher k).timeline :=
  (dispatcher_eq (h.histories_eq (histories_of_lt hk))).2.2

namespace Sound

theorem grown_aside (h : w.Sound) (events : List Event) (reading : List Nat)
    (iterations : List (Text × List Nat)) (indexes : List (Text × Option Nat)) :
    w.Grown { w with events, reading, iterations, indexes } :=
  ⟨⟨h.objects, h.numbered, h.apart, h.placed, h.once, h.histories, h.own, h.settled⟩,
    List.prefix_rfl, List.prefix_rfl, fun _ ↦ Nat.le_refl _⟩

theorem grown_items (h : w.Sound) {items : List Item} (itemNames : List (Text × Nat))
    (hi : w.items.map Item.gist <+: items.map Item.gist) : w.Grown { w with items, itemNames } :=
  ⟨⟨h.objects, h.numbered, h.apart, h.placed, h.once, h.histories, h.own, h.settled⟩, hi,
    List.prefix_rfl, fun _ ↦ Nat.le_refl _⟩

theorem grown_objects (h : w.Sound) {journals : List (Journal Nat)}
    {timelines : List (Timeline Nat)} {selections : List Selection}
    {listings : List (Listing Nat × Object)}
    (hj : w.journals.length ≤ journals.length) (ht : w.timelines.length ≤ timelines.length)
    (hs : w.selections.length ≤ selections.length) (hl : w.listings.length ≤ listings.length)
    (hn : ∀ s ∈ selections, s ∈ w.selections ∨ Value.Settled s.nodes) :
    w.Grown { w with journals, timelines, selections, listings } := by
  have hz (o : Object) :
      w.count o ≤ World.count { w with journals, timelines, selections, listings } o := by
    cases o with
    | journal => exact hj
    | timeline => exact ht
    | selection => exact hs
    | listing => exact hl
    | dispatcher => exact Nat.le_refl _
  refine ⟨⟨?_, h.numbered, h.apart, h.placed, h.once, ?_, h.own, ?_⟩, List.prefix_rfl,
    List.prefix_rfl, hz⟩
  · intro o hm
    exact Nat.lt_of_lt_of_le (h.objects o hm) (hz o.2)
  · intro p hm
    have hr := h.histories p hm
    exact ⟨Nat.lt_of_lt_of_le hr.1 hj, Nat.lt_of_lt_of_le hr.2 ht⟩
  · intro s hm
    rcases hn s hm with hm | hm
    · exact h.settled s hm
    · exact hm

theorem has_of_object (h : w.Sound) {name : Text} {o : Object} (ho : w.object name = .ok o) :
    w.Has o := by
  unfold object resolve at ho
  cases hl : w.objects.lookup name with
  | none =>
    rw [hl] at ho
    cases ho
  | some p =>
    rw [hl] at ho
    cases ho
    obtain ⟨l₁, l₂, hw, -⟩ := List.lookup_eq_some_iff.1 hl
    exact h.objects (name, o) (by simp [hw])

theorem refl (h : w.Sound) : w.Grown w := h.grown_aside _ _ _ _

theorem grown_item (h : w.Sound) (item : Item) : w.Grown (w.addItem item) :=
  h.grown_items _ (by simp)

theorem grown_nameItem (h : w.Sound) (name : Text) (item : Item) :
    w.Grown (w.nameItem name item) :=
  h.grown_items _ (by simp [addItem])

theorem grown_renewed (h : w.Sound) {items : List Item}
    (hi : items.map Item.gist = w.items.map Item.gist) : w.Grown { w with items } :=
  h.grown_items w.itemNames (hi ▸ List.prefix_rfl)

theorem grown_journal (h : w.Sound) (k : Nat) (f : Journal Nat → Journal Nat) :
    w.Grown { w with journals := w.journals.modify k f } :=
  h.grown_objects (by simp) (Nat.le_refl _) (Nat.le_refl _) (Nat.le_refl _) fun _ ↦ .inl

theorem grown_addJournal (h : w.Sound) (j : Journal Nat) :
    w.Grown { w with journals := w.journals ++ [j] } :=
  h.grown_objects (by simp) (Nat.le_refl _) (Nat.le_refl _) (Nat.le_refl _) fun _ ↦ .inl

theorem grown_timeline (h : w.Sound) (k : Nat) (f : Timeline Nat → Timeline Nat) :
    w.Grown { w with timelines := w.timelines.modify k f } :=
  h.grown_objects (Nat.le_refl _) (by simp) (Nat.le_refl _) (Nat.le_refl _) fun _ ↦ .inl

theorem grown_addTimeline (h : w.Sound) (t : Timeline Nat) :
    w.Grown { w with timelines := w.timelines ++ [t] } :=
  h.grown_objects (Nat.le_refl _) (by simp) (Nat.le_refl _) (Nat.le_refl _) fun _ ↦ .inl

theorem grown_listing (h : w.Sound) (k : Nat) (f : Listing Nat × Object → Listing Nat × Object) :
    w.Grown { w with listings := w.listings.modify k f } :=
  h.grown_objects (Nat.le_refl _) (Nat.le_refl _) (Nat.le_refl _) (by simp) fun _ ↦ .inl

theorem grown_addListing (h : w.Sound) (l : Listing Nat × Object) :
    w.Grown { w with listings := w.listings ++ [l] } :=
  h.grown_objects (Nat.le_refl _) (Nat.le_refl _) (Nat.le_refl _) (by simp) fun _ ↦ .inl

theorem grown_selection (h : w.Sound) (k : Nat) {s : Selection} (hs : Value.Settled s.nodes) :
    w.Grown { w with selections := w.selections.set k s } := by
  refine h.grown_objects (Nat.le_refl _) (Nat.le_refl _) (by simp) (Nat.le_refl _) fun t ht ↦ ?_
  rcases List.mem_or_eq_of_mem_set ht with ht | rfl
  · exact .inl ht
  · exact .inr hs

theorem grown_addSelection (h : w.Sound) {s : Selection} (hs : Value.Settled s.nodes) :
    w.Grown { w with selections := w.selections ++ [s] } := by
  refine h.grown_objects (Nat.le_refl _) (Nat.le_refl _) (by simp) (Nat.le_refl _) fun t ht ↦ ?_
  rcases List.mem_append.1 ht with ht | ht
  · exact .inl ht
  · exact .inr (List.mem_singleton.1 ht ▸ hs)

theorem grown_nameObject (h : w.Sound) (name : Text) {o : Object} (ho : w.Has o) :
    w.Grown (w.nameObject name o) := by
  have hb : ∀ n ∈ World.bind w.objects name o, w.Has n.2 := by
    intro n hm
    rcases mem_bind hm with hm | hm
    · exact h.objects n hm
    · rw [hm]
      exact ho
  exact ⟨{ h with objects := hb }, List.prefix_rfl, List.prefix_rfl, fun _ ↦ Nat.le_refl _⟩

/-- A slot may be connected where it belongs, for captures only one at a time. -/
theorem grown_connect (h : w.Sound) (o : Object) (signal : Signal) (slot : Slot)
    (hp : w.Placed ⟨w.linkCount, o, signal, slot⟩)
    (hn : ∀ k, slot = .capture k → ∀ l ∈ w.links, l.slot ≠ .capture k) :
    w.Grown (w.connect o signal slot) := by
  have hlast {l : Link} (hl : l ∈ (w.connect o signal slot).links) :
      l ∈ w.links ∨ l = ⟨w.linkCount, o, signal, slot⟩ := by
    rcases List.mem_append.1 hl with hl | hl
    · exact .inl hl
    · exact .inr (List.mem_singleton.1 hl)
  refine ⟨{ h with numbered := ?_, apart := ?_, placed := ?_, once := ?_ }, List.prefix_rfl,
    List.prefix_rfl, fun _ ↦ Nat.le_refl _⟩
  · intro l hl
    rcases hlast hl with hl | rfl
    · exact Nat.lt_succ_of_lt (h.numbered l hl)
    · exact Nat.lt_succ_self _
  · refine List.pairwise_append.2 ⟨h.apart, List.pairwise_singleton _ _, fun l hl m hm ↦ ?_⟩
    rw [List.mem_singleton.1 hm]
    exact Nat.ne_of_lt (h.numbered l hl)
  · intro l hl
    rcases hlast hl with hl | rfl
    · exact h.placed l hl
    · exact hp
  · refine List.pairwise_append.2 ⟨h.once, List.pairwise_singleton _ _, fun l hl m hm k hk ↦ ?_⟩
    rw [List.mem_singleton.1 hm]
    intro hs
    exact hn k hs l hl hk

theorem grown_present (h : w.Sound) (name : Text) {o : Object} (ho : w.Has o) :
    w.Grown (w.present name o) := by
  have hall (signals : List Signal) {v : World} (hv : w.Grown v) :
      w.Grown (signals.foldl (fun w signal ↦ w.connect o signal (.record name)) v) := by
    induction signals generalizing v with
    | nil => exact hv
    | cons signal signals ih => exact ih (hv.trans (hv.sound.grown_connect _ _ _ trivial nofun))
  exact hall o.signals (h.grown_nameObject name ho)

theorem eq_of_number (h : w.Sound) {l m : Link} (hl : l ∈ w.links) (hm : m ∈ w.links)
    (hn : l.number = m.number) : l = m :=
  List.Pairwise.forall_of_forall_of_flip (R := fun l m ↦ l.number = m.number → l = m)
    (fun _ _ _ ↦ rfl) (h.apart.imp fun hne hn ↦ absurd hn hne)
    (h.apart.imp fun hne hn ↦ absurd hn.symm hne) hl hm hn

theorem capture (h : w.Sound) {l : Link} (hl : l ∈ w.links) {k : Nat} (hk : l.slot = .capture k) :
    k < w.dispatchers.length ∧ (w.dispatcher k).watched = some l.source ∧
      l.signal = .selectionChanged ∧ ∃ x, l.source = .selection x := by
  have hp := h.placed l hl
  rwa [Placed, hk] at hp

theorem grown_setSlot (h : w.Sound) (number : Nat) (steps : List Step) (left : Option Int) :
    w.Grown (w.setSlot number (.listen steps left)) := by
  let f (l : Link) : Link := if l.number = number then { l with slot := .listen steps left } else l
  have hn (l : Link) : (f l).number = l.number := by
    dsimp only [f]
    split <;> rfl
  have hs {l : Link} {k : Nat} (hk : (f l).slot = .capture k) : f l = l := by
    dsimp only [f] at hk ⊢
    split at hk
    · cases hk
    · rename_i hne
      rw [if_neg hne]
  have hp {l : Link} (hl : w.Placed l) : w.Placed (f l) := by
    dsimp only [f]
    split
    · trivial
    · exact hl
  refine ⟨{ h with numbered := ?_, apart := ?_, placed := ?_, once := ?_ }, List.prefix_rfl,
    List.prefix_rfl, fun _ ↦ Nat.le_refl _⟩
  · intro l hl
    obtain ⟨m, hm, rfl⟩ := List.mem_map.1 hl
    exact Nat.lt_of_le_of_lt (Nat.le_of_eq (hn m)) (h.numbered m hm)
  · exact List.pairwise_map.2 (h.apart.imp fun hne ↦ by rwa [hn, hn])
  · intro l hl
    obtain ⟨m, hm, rfl⟩ := List.mem_map.1 hl
    exact hp (h.placed m hm)
  · refine List.pairwise_map.2 (h.once.imp fun {l m} ho k hl hm ↦ ?_)
    exact ho k (hs hl ▸ hl) (hs hm ▸ hm)

/-- A dispatcher may change if its histories stay, and what it watches as long as it captures. -/
theorem grown_dispatcher (h : w.Sound) (k : Nat) {f : Dispatcher → Dispatcher} {links : List Link}
    (hf : ∀ d, (f d).journal = d.journal ∧ (f d).timeline = d.timeline)
    (hl : links.Sublist w.links)
    (hw : (∀ d, (f d).watched = d.watched) ∨ ∀ l ∈ links, l.slot ≠ .capture k) :
    w.Grown { w with links, dispatchers := w.dispatchers.modify k f } := by
  have hh :
      World.histories { w with links, dispatchers := w.dispatchers.modify k f } = w.histories :=
    map_modify_of_eq (fun d ↦ Prod.ext (hf d).1 (hf d).2) _ _
  have hz (o : Object) : w.count o ≤
      World.count { w with links, dispatchers := w.dispatchers.modify k f } o := by
    cases o <;> simp
  refine ⟨⟨?_, ?_, ?_, ?_, ?_, ?_, ?_, h.settled⟩, List.prefix_rfl, ?_, hz⟩
  · intro o hm
    exact Nat.lt_of_lt_of_le (h.objects o hm) (hz o.2)
  · intro l hm
    exact h.numbered l (hl.subset hm)
  · exact h.apart.sublist hl
  · intro l hm
    have hp := h.placed l (hl.subset hm)
    unfold Placed at hp ⊢
    cases hs : l.slot with
    | record | listen => trivial
    | refresh | relay => simpa only [hs] using hp
    | capture j =>
      simp only [hs] at hp ⊢
      refine ⟨by simpa using hp.1, ?_, hp.2.2⟩
      have hd : (w.dispatchers.modify k f)[j]? =
          (fun d ↦ if k = j then f d else d) <$> w.dispatchers[j]? := List.getElem?_modify ..
      rw [← hp.2.1, dispatcher, dispatcher, List.getD_eq_getElem?_getD, List.getD_eq_getElem?_getD,
        hd, List.getElem?_eq_getElem hp.1]
      show (if k = j then f _ else _).watched = _
      split
      · rename_i hk
        subst hk
        rcases hw with hw | hw
        · exact hw _
        · exact absurd hs (hw l hm)
      · rfl
  · exact h.once.sublist hl
  · intro p hm
    exact h.histories p (hh ▸ hm)
  · rw [hh]
    exact h.own
  · exact hh ▸ List.prefix_rfl

theorem grown_setMode (h : w.Sound) (k : Nat) (mode : Value) :
    w.Grown { w with dispatchers := w.dispatchers.modify k ({ · with mode }) } :=
  h.grown_dispatcher k (fun _ ↦ ⟨rfl, rfl⟩) (List.Sublist.refl _) (.inl fun _ ↦ rfl)

theorem grown_unwatch (h : w.Sound) (k : Nat) (o : Object) : w.Grown (w.unwatch k o) := by
  have hl : ∀ l ∈ (w.unwatch k o).links, l.slot ≠ .capture k :=
    fun _ ↦ not_capture_of_unwatch h
  exact h.grown_dispatcher k (fun _ ↦ ⟨rfl, rfl⟩) List.filter_sublist (.inr hl)

/-- A dispatcher may watch another selection, and is connected to that one alone then. -/
theorem grown_rewatch (h : w.Sound) {k : Nat} (hk : k < w.dispatchers.length) (x : Nat) : w.Grown
    ((w.unwatch k (.selection x)).connect (.selection x) .selectionChanged (.capture k)) := by
  have hu := h.grown_unwatch k (.selection x)
  refine hu.trans (hu.sound.grown_connect _ _ _ ⟨?_, watched_unwatch hk, rfl, x, rfl⟩ ?_)
  · exact Nat.lt_of_lt_of_le hk (hu.count (.dispatcher k))
  · intro i hi l hl
    cases hi
    exact not_capture_of_unwatch h hl

theorem grown_addDispatcher (h : w.Sound) (mode : Value) {j t : Nat}
    (hj : j < w.journals.length) (ht : t < w.timelines.length)
    (hn : ∀ p ∈ w.histories, p.1 ≠ j ∧ p.2 ≠ t) :
    w.Grown { w with dispatchers := w.dispatchers ++ [⟨mode, j, t, none⟩] } := by
  have hh : World.histories { w with dispatchers := w.dispatchers ++ [⟨mode, j, t, none⟩] } =
      w.histories ++ [(j, t)] := by simp [World.histories]
  have hz (o : Object) : w.count o ≤
      World.count { w with dispatchers := w.dispatchers ++ [⟨mode, j, t, none⟩] } o := by
    cases o <;> simp
  refine ⟨{ h with objects := ?_, placed := ?_, histories := ?_, own := ?_ }, List.prefix_rfl, ?_,
    hz⟩
  · intro o hm
    exact Nat.lt_of_lt_of_le (h.objects o hm) (hz o.2)
  · intro l hm
    have hp := h.placed l hm
    unfold Placed at hp ⊢
    cases hs : l.slot with
    | record | listen => trivial
    | refresh | relay => simpa only [hs] using hp
    | capture k =>
      simp only [hs] at hp ⊢
      refine ⟨Nat.lt_of_lt_of_le hp.1 (by simp), ?_, hp.2.2⟩
      rw [← hp.2.1, dispatcher, dispatcher, List.getD_eq_getElem?_getD, List.getD_eq_getElem?_getD,
        List.getElem?_append_left hp.1]
  · intro p hm
    rcases List.mem_append.1 (hh ▸ hm) with hm | hm
    · exact h.histories p hm
    · cases List.mem_singleton.1 hm
      exact ⟨hj, ht⟩
  · rw [hh]
    refine List.pairwise_append.2 ⟨h.own, List.pairwise_singleton _ _, fun p hp q hq ↦ ?_⟩
    rw [List.mem_singleton.1 hq]
    exact hn p hp
  · rw [hh]
    exact List.prefix_append _ _

theorem grown_withListing (h : w.Sound) (name : Text) {o : Object} {rows : List Nat}
    (hr : w.entries o = .ok rows) : w.Grown (w.withListing name o rows) := by
  have hl := h.grown_addListing (⟨rows⟩, o)
  have ho : ∃ k, o = .journal k ∨ o = .timeline k := by
    cases o with
    | journal k => exact ⟨k, .inl rfl⟩
    | timeline k => exact ⟨k, .inr rfl⟩
    | selection | listing | dispatcher => cases hr
  have hc := hl.trans
    (hl.sound.grown_connect o .historyChanged (.refresh w.listings.length) ho nofun)
  exact hc.trans (hc.sound.grown_present name (by simp [World.Has, World.connect]))

theorem grown_withHistories (h : w.Sound) (s : Settings Value) : w.Grown (w.withHistories s) := by
  have hj := h.grown_addJournal { limit := s.commandLimit }
  have ht := hj.trans (hj.sound.grown_addTimeline { limit := s.snapshotLimit })
  refine ht.trans (ht.sound.grown_addDispatcher s.mode (by simp) (by simp) fun p hp ↦ ?_)
  have hp := h.histories p hp
  exact ⟨Nat.ne_of_lt hp.1, Nat.ne_of_lt hp.2⟩

theorem grown_withDispatcher (h : w.Sound) (name : Text) (s : Settings Value) :
    w.Grown (w.withDispatcher name s) := by
  have hd := h.grown_withHistories s
  have hc := hd.trans (hd.sound.grown_connect (.journal w.journals.length) .historyChanged
    (.relay w.dispatchers.length .commands) ⟨_, .inl rfl⟩ nofun)
  have hs := hc.trans (hc.sound.grown_connect (.timeline w.timelines.length) .historyChanged
    (.relay w.dispatchers.length .snapshots) ⟨_, .inr rfl⟩ nofun)
  have hp := hs.trans (hs.sound.grown_present name (o := .dispatcher w.dispatchers.length)
    (by simp [World.Has, World.connect, World.withHistories]))
  have hq := hp.trans (hp.sound.grown_present (name ++ ".commands")
    (o := .journal w.journals.length)
    (by rw [World.Has, World.count_present]; simp [World.connect, World.withHistories]))
  exact hq.trans (hq.sound.grown_present (name ++ ".snapshots")
    (o := .timeline w.timelines.length) (by
      rw [World.Has, World.count_present, World.count_present]
      simp [World.connect, World.withHistories]))

end Sound

end World

end Rewind.Session
