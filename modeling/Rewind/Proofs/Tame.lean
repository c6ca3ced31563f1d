import Rewind.Proofs.Growth
import Rewind.Proofs.Limit

namespace Rewind.Session

mutual

/-- Whether a step sets only limits that are integers or none, and the steps in it do so too. -/
def Step.isTame : Step → Bool
  | .newJournal _ limit | .setLimit _ limit => limit.bound?.isSome
  | .newDispatcher _ source =>
    match source.settings id with
    | .ok settings => settings.commandLimit.bound?.isSome
    | .error _ => true
  | .edit _ _ _ back forth _ => allTame back && allTame forth
  | .state _ _ _ _ steps _ | .listen _ _ steps _ | .attempt steps => allTame steps
  | _ => true

def Step.allTame : List Step → Bool
  | [] => true
  | step :: steps => step.isTame && allTame steps

end

theorem Step.allTame_iff {steps : List Step} :
    allTame steps = true ↔ ∀ s ∈ steps, s.isTame = true := by
  induction steps with
  | nil => simp [allTame]
  | cons s steps ih => rw [allTame, Bool.and_eq_true, ih, List.forall_mem_cons]

def Item.isTame : Item → Bool
  | .edit e => Step.allTame e.undo && Step.allTame e.redo
  | .state s => Step.allTame s.restore
  | .group _ | .change _ | .capture _ => true

namespace Item

variable {item : Item}

theorem isTame_gist (item : Item) : item.gist.isTame = item.isTame := by
  cases item <;> rfl

theorem selection?_gist (item : Item) : item.gist.selection? = item.selection? := by
  cases item <;> rfl

theorem isTame_of_not_isProgram (h : item.isProgram = false) : item.isTame = true := by
  cases item with
  | edit | state => cases h
  | group | change | capture => rfl

end Item

/-- Only tame steps are taken. -/
def Terms.tame : Terms where
  step s := s.isTame = true
  limit v := v.bound?.isSome = true
  newJournal h := h
  newDispatcher h hs := by
    simp only [Step.isTame, hs] at h
    exact h
  setLimit h := h
  attempt h := Step.allTame_iff.1 h

namespace World

/-- All limits are integers or none, and items and listeners take only tame steps. Names are names
of items. -/
structure Tame (w : World) : Prop where
  items : ∀ item ∈ w.items, item.isTame = true
  names : ∀ n ∈ w.itemNames, n.2 < w.items.length
  listeners : ∀ l ∈ w.links, ∀ steps left, l.slot = .listen steps left →
    ∀ s ∈ steps, s.isTame = true
  limits : ∀ j ∈ w.journals, j.limit.bound?.isSome = true

namespace Tame

variable {w w' : World} (h : w.Tame)

include h

theorem lt_of_item {name : Text} {i : Nat} (hi : w.item name = .ok i) : i < w.items.length := by
  unfold item resolve at hi
  cases hl : w.itemNames.lookup name with
  | none =>
    rw [hl] at hi
    cases hi
  | some k =>
    rw [hl] at hi
    cases hi
    obtain ⟨l₁, l₂, hw, -⟩ := List.lookup_eq_some_iff.1 hl
    exact h.names (name, i) (by simp [hw])

theorem bound_journal (k : Nat) :
    (w.journal k).limit.bound?.isSome = true :=
  holds_getD (P := fun j : Journal Nat ↦ j.limit.bound?.isSome = true) h.limits rfl k

theorem renewed {items : List Item} (hi : items.map Item.gist = w.items.map Item.gist) :
    Tame { w with items } := by
  refine ⟨fun item hm ↦ ?_, fun n hn ↦ ?_, h.listeners, h.limits⟩
  · obtain ⟨old, ho, hg⟩ := List.mem_map.1 (hi ▸ List.mem_map_of_mem hm)
    rw [← item.isTame_gist, ← hg, old.isTame_gist]
    exact h.items old ho
  · have hl := congrArg List.length hi
    rw [List.length_map, List.length_map] at hl
    exact hl ▸ h.names n hn

theorem addItem {item : Item} (hi : item.isTame = true) : (w.addItem item).Tame := by
  refine ⟨fun i hm ↦ ?_, fun n hn ↦ ?_, h.listeners, h.limits⟩
  · rcases List.mem_append.1 hm with hm | hm
    · exact h.items i hm
    · rw [List.mem_singleton.1 hm]
      exact hi
  · exact Nat.lt_of_lt_of_le (h.names n hn) (by simp [World.addItem])

theorem nameItem (name : Text) {item : Item} (hi : item.isTame = true) :
    (w.nameItem name item).Tame := by
  have ha := h.addItem hi
  refine ⟨ha.items, fun n hn ↦ ?_, ha.listeners, ha.limits⟩
  rcases mem_bind hn with hn | hn
  · exact ha.names n hn
  · rw [hn]
    simp [World.nameItem, World.addItem]

theorem addJournal {limit : Value} (hl : limit.bound?.isSome = true) :
    Tame { w with journals := w.journals ++ [{ limit }] } := by
  refine ⟨h.items, h.names, h.listeners, fun j hj ↦ ?_⟩
  rcases List.mem_append.1 hj with hj | hj
  · exact h.limits j hj
  · rw [List.mem_singleton.1 hj]
    exact hl

theorem journal {k : Nat} {f : Journal Nat → Journal Nat}
    (hf : (w.journal k).limit.bound?.isSome = true → (f (w.journal k)).limit.bound?.isSome = true) :
    Tame { w with journals := w.journals.modify k f } :=
  ⟨h.items, h.names, h.listeners, holds_modify {} h.limits hf⟩

theorem connect (o : Object) (signal : Signal) (slot : Slot)
    (hs : ∀ steps left, slot = .listen steps left → ∀ s ∈ steps, s.isTame = true) :
    (w.connect o signal slot).Tame := by
  refine ⟨h.items, h.names, fun l hl ↦ ?_, h.limits⟩
  rcases List.mem_append.1 hl with hl | hl
  · exact h.listeners l hl
  · rw [List.mem_singleton.1 hl]
    exact hs

theorem present (name : Text) (o : Object) : (w.present name o).Tame := by
  have hall (signals : List Signal) {v : World} (hv : v.Tame) :
      (signals.foldl (fun w signal ↦ w.connect o signal (.record name)) v).Tame := by
    induction signals generalizing v with
    | nil => exact hv
    | cons signal signals ih => exact ih (hv.connect o signal (.record name) nofun)
  exact hall o.signals (v := w.nameObject name o) ⟨h.items, h.names, h.listeners, h.limits⟩

theorem setSlot {l : Link} {steps : List Step} {was : Option Int} (hl : l ∈ w.links)
    (hs : l.slot = .listen steps was) (left : Option Int) :
    (w.setSlot l.number (.listen steps left)).Tame := by
  refine ⟨h.items, h.names, fun m hm steps' left' hm' ↦ ?_, h.limits⟩
  obtain ⟨o, ho, rfl⟩ := List.mem_map.1 hm
  split at hm'
  · cases hm'
    exact h.listeners l hl steps was hs
  · exact h.listeners o ho steps' left' hm'

theorem unwatch (k : Nat) (o : Object) : (w.unwatch k o).Tame :=
  ⟨h.items, h.names, fun l hl ↦ h.listeners l (List.mem_filter.1 hl).1, h.limits⟩

theorem withListing (name : Text) (o : Object) (rows : List Nat) :
    (w.withListing name o rows).Tame := by
  have hl : World.Tame { w with listings := w.listings ++ [(⟨rows⟩, o)] } :=
    ⟨h.items, h.names, h.listeners, h.limits⟩
  exact (hl.connect o .historyChanged (.refresh w.listings.length) nofun).present name _

theorem withDispatcher (name : Text) {s : Settings Value}
    (hs : s.commandLimit.bound?.isSome = true) : (w.withDispatcher name s).Tame := by
  have hj := h.addJournal hs
  have hd : (w.withHistories s).Tame := ⟨hj.items, hj.names, hj.listeners, hj.limits⟩
  have hc := (hd.connect (.journal w.journals.length) .historyChanged
    (.relay w.dispatchers.length .commands) nofun).connect (.timeline w.timelines.length)
    .historyChanged (.relay w.dispatchers.length .snapshots) nofun
  exact ((hc.present name (.dispatcher w.dispatchers.length)).present (name ++ ".commands")
    (.journal w.journals.length)).present (name ++ ".snapshots") (.timeline w.timelines.length)

end Tame

theorem tame_new (logging : Bool) : ({ logging } : World).Tame where
  items _ h := absurd h List.not_mem_nil
  names _ h := absurd h List.not_mem_nil
  listeners _ h := absurd h List.not_mem_nil
  limits _ h := absurd h List.not_mem_nil

end World

namespace World

/-- All items can be described. -/
def Described (w : World) : Prop := ∀ item ∈ w.items, item.describe.isOk = true

instance (w : World) : Decidable w.Described :=
  inferInstanceAs (Decidable (∀ item ∈ w.items, item.describe.isOk = true))

variable {w w' : World}

theorem Described.exists_describe (h : w.Described) {i : Nat} (hi : i < w.items.length) :
    ∃ v, w.describe i = .ok v := by
  have hok := h _ (List.getElem_mem hi)
  rw [describe, List.getElem?_eq_getElem hi]
  cases hd : w.items[i].describe with
  | ok v => exact ⟨v, hd⟩
  | error e =>
    rw [hd] at hok
    cases hok

/-- An item that cannot be described is never lost, nor can it be described later. -/
theorem Grown.described (h : w.Grown w') (hd : w'.Described) : w.Described := by
  intro item hm
  obtain ⟨i, hi⟩ := List.mem_iff_getElem?.1 hm
  obtain ⟨item', hi', hg⟩ := h.item hi
  have hok := hd item' (List.mem_of_getElem? hi')
  cases he : item.describe with
  | ok v => rfl
  | error e =>
    have he' := Item.describe_gist.1 (hg ▸ Item.describe_gist.2 he)
    rw [he'] at hok
    cases hok

end World

/-- The worlds that sessions of tame steps come to. -/
inductive ReachedTamely : World → Prop where
  | start (logging : Bool) : ReachedTamely { logging }
  | step {w w' : World} (h : ReachedTamely w) (n : Nat) (step : Step) (ht : step.isTame = true)
      (hs : (perform (inner n) step w).state? = some w') : ReachedTamely w'
  | forget {w : World} (h : ReachedTamely w) (events : List Event) :
      ReachedTamely { w with events }

theorem ReachedTamely.after {w w' : World} {n : Nat} {steps : List Step} (h : ReachedTamely w)
    (ht : Step.allTame steps = true) (hs : w.after n steps = some w') : ReachedTamely w' := by
  induction steps generalizing w with
  | nil =>
    cases hs
    exact h
  | cons step steps ih =>
    rw [Step.allTame, Bool.and_eq_true] at ht
    obtain ⟨v, hv, hs⟩ := Option.bind_eq_some_iff.1 ((List.foldlM_cons ..).symm.trans hs)
    exact ih (.step h n step ht.1 hv) ht.2 hs

end Rewind.Session
