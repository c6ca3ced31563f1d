import Rewind.Proofs.Tame

namespace Rewind.Session

/-- The listing that a slot makes read its rows again. -/
def Slot.refreshed? : Slot → Option Nat
  | .refresh k => some k
  | _ => none

theorem Slot.refreshed?_eq_some {slot : Slot} {k : Nat} :
    slot.refreshed? = some k ↔ slot = .refresh k := by
  cases slot <;> simp [refreshed?]

namespace World

/-- A listing shows a journal as long as it follows it. -/
def Shows (w : World) (k j : Nat) : Prop :=
  (∃ l, w.listings[k]? = some (l, .journal j)) ∧ w.isFollowing k = true

/-- Each listing that shows the journal hears of its changes, and has its entries as rows unless it
is one of those still to be told. The links in `kept` make listings read their rows again. -/
structure Mirrors (j : Nat) (stale : List Nat) (kept : List Link) (w : World) : Prop where
  kept : ∀ l ∈ kept, l ∈ w.links ∧ l.slot.refreshed?.isSome
  linked : ∀ k, w.Shows k j →
    ∃ l ∈ w.links, l.source = .journal j ∧ l.signal = .historyChanged ∧ l.slot = .refresh k
  fresh : ∀ k, w.Shows k j → k ∉ stale → (w.listing k).1.rows = (w.journal j).entries

variable {w w' : World} {j k : Nat} {stale : List Nat} {kept : List Link}

theorem isFollowing_iff :
    w.isFollowing k = true ↔ .listing k ∈ w.objects.map (·.2) ∨ k ∈ w.reading ∨
      some (.listing k) ∈ w.dispatchers.map (·.watched) ∨
      some (.listing k) ∈ w.items.map Item.selection? := by
  simp [isFollowing, or_assoc]

theorem isFollowing_of_object {name : Text} (h : w.object name = .ok (.listing k)) :
    w.isFollowing k = true := by
  unfold object resolve at h
  cases hl : w.objects.lookup name with
  | none =>
    rw [hl] at h
    cases h
  | some o =>
    rw [hl] at h
    cases h
    obtain ⟨l₁, l₂, hw, -⟩ := List.lookup_eq_some_iff.1 hl
    exact isFollowing_iff.2 (.inl (by simp [hw]))

theorem entries_addJournal (limit : Value) :
    (World.journal { w with journals := w.journals ++ [{ limit }] } j).entries =
      (w.journal j).entries := by
  unfold journal
  rw [List.getD_eq_getElem?_getD, List.getD_eq_getElem?_getD]
  rcases Nat.lt_trichotomy j w.journals.length with hj | rfl | hj
  · rw [List.getElem?_append_left hj]
  · simp
  · rw [List.getElem?_eq_none (by simp; omega), List.getElem?_eq_none (by omega)]

theorem entries_modify (f : Journal Nat → Journal Nat)
    (hf : k = j → (f (w.journal j)).entries = (w.journal j).entries) :
    (World.journal { w with journals := w.journals.modify k f } j).entries =
      (w.journal j).entries := by
  unfold journal at hf ⊢
  rw [List.getD_eq_getElem?_getD, List.getD_eq_getElem?_getD, List.getElem?_modify]
  cases hj : w.journals[j]? with
  | none => rfl
  | some i =>
    show (if k = j then f i else i).entries = i.entries
    split
    · rename_i hk
      have hf := hf hk
      rwa [List.getD_eq_getElem?_getD, hj] at hf
    · rfl

namespace Mirrors

theorem mono (h : w.Mirrors j stale kept) {stale' : List Nat} {kept' : List Link}
    (hs : stale ⊆ stale') (hk : kept' ⊆ kept) : w.Mirrors j stale' kept' :=
  ⟨fun l hl ↦ h.kept l (hk hl), h.linked, fun k hs' hn ↦ h.fresh k hs' fun hm ↦ hn (hs hm)⟩

/-- Nothing that takes none of the links, and makes no listing follow anything, makes a difference
as long as the entries stay. -/
theorem frame (h : w.Mirrors j stale kept)
    (hl : ∀ l ∈ w.links, l.slot.refreshed?.isSome → l ∈ w'.links) (hi : w'.listings = w.listings)
    (hf : ∀ k, w'.isFollowing k = true → w.isFollowing k = true)
    (he : (w'.journal j).entries = (w.journal j).entries) : w'.Mirrors j stale kept := by
  have hs (k : Nat) (hk : w'.Shows k j) : w.Shows k j := ⟨hi ▸ hk.1, hf k hk.2⟩
  refine ⟨fun l hm ↦ ?_, fun k hk ↦ ?_, fun k hk hn ↦ ?_⟩
  · obtain ⟨hm, hr⟩ := h.kept l hm
    exact ⟨hl l hm hr, hr⟩
  · obtain ⟨l, hm, hsource, hsignal, hslot⟩ := h.linked k (hs k hk)
    exact ⟨l, hl l hm (by rw [hslot]; rfl), hsource, hsignal, hslot⟩
  · rw [he, ← h.fresh k (hs k hk) hn, listing, hi, listing]

theorem renewed (h : w.Mirrors j stale kept) {items : List Item}
    (hi : items.map Item.gist = w.items.map Item.gist) :
    Mirrors j stale kept { w with items } := by
  have hs : items.map Item.selection? = w.items.map Item.selection? := by
    have hs := congrArg (List.map Item.selection?) hi
    rwa [List.map_map, List.map_map,
      show Item.selection? ∘ Item.gist = Item.selection? from funext Item.selection?_gist] at hs
  refine h.frame (fun _ hl _ ↦ hl) rfl (fun k hk ↦ ?_) rfl
  rw [isFollowing_iff] at hk ⊢
  rwa [hs] at hk

theorem nameItem (h : w.Mirrors j stale kept) (itemNames : List (Text × Nat)) {item : Item}
    (ho : ∀ o, item.selection? = some o →
      (∃ x, o = .selection x) ∨ ∃ name, w.object name = .ok o) :
    Mirrors j stale kept { w with items := w.items ++ [item], itemNames } := by
  refine h.frame (fun _ hl _ ↦ hl) rfl (fun k hk ↦ ?_) rfl
  rw [isFollowing_iff] at hk ⊢
  rcases hk with hk | hk | hk | hk
  · exact .inl hk
  · exact .inr (.inl hk)
  · exact .inr (.inr (.inl hk))
  · rw [List.map_append, List.mem_append] at hk
    rcases hk with hk | hk
    · exact .inr (.inr (.inr hk))
    · rcases ho _ (List.mem_singleton.1 hk).symm with ⟨x, hx⟩ | ⟨name, hn⟩
      · cases hx
      · exact isFollowing_iff.1 (isFollowing_of_object hn)

theorem connect (h : w.Mirrors j stale kept) (o : Object) (signal : Signal) (slot : Slot) :
    (w.connect o signal slot).Mirrors j stale kept :=
  h.frame (fun _ hl _ ↦ List.mem_append_left _ hl) rfl (fun _ hk ↦ hk) rfl

theorem records (h : w.Mirrors j stale kept) (name : Text) (o : Object) (signals : List Signal) :
    (signals.foldl (fun w signal ↦ w.connect o signal (.record name)) w).Mirrors j stale kept := by
  induction signals generalizing w with
  | nil => exact h
  | cons signal signals ih => exact ih (h.connect o signal _)

theorem present (h : w.Mirrors j stale kept) (name : Text) {o : Object}
    (ho : ∀ k, o ≠ .listing k) : (w.present name o).Mirrors j stale kept := by
  have hn : (w.nameObject name o).Mirrors j stale kept := by
    refine h.frame (fun _ hl _ ↦ hl) rfl (fun k hk ↦ ?_) rfl
    rw [isFollowing_iff] at hk ⊢
    refine hk.imp_left fun hk ↦ ?_
    obtain ⟨n, hm, hn⟩ := List.mem_map.1 hk
    rcases mem_bind hm with hm | hm
    · exact hn ▸ List.mem_map_of_mem hm
    · exact absurd (hm.symm.trans hn) (ho k)
  exact hn.records name o o.signals

/-- A new listing has the entries as rows, and hears of their changes. -/
theorem newListing (h : w.Mirrors j stale kept) (name : Text) {o : Object} {rows : List Nat}
    (hr : w.entries o = .ok rows) : (w.withListing name o rows).Mirrors j stale kept := by
  let v : World := (({ w with listings := w.listings ++ [(⟨rows⟩, o)] } : World).connect o
    .historyChanged (.refresh w.listings.length)).nameObject name (.listing w.listings.length)
  have hv : v.listings = w.listings ++ [(⟨rows⟩, o)] := rfl
  have hshows (k : Nat) (hk : v.Shows k j) : k = w.listings.length ∧ o = .journal j ∨
      w.Shows k j ∧ v.listing k = w.listing k := by
    obtain ⟨⟨l, hl⟩, hf⟩ := hk
    rw [hv] at hl
    rcases Nat.lt_trichotomy k w.listings.length with hlt | rfl | hlt
    · rw [List.getElem?_append_left hlt] at hl
      refine .inr ⟨⟨⟨l, hl⟩, ?_⟩, ?_⟩
      · rw [isFollowing_iff] at hf ⊢
        refine hf.imp_left fun hm ↦ ?_
        obtain ⟨n, hm, hn⟩ := List.mem_map.1 hm
        rcases mem_bind hm with hm | hm
        · exact hn ▸ List.mem_map_of_mem hm
        · cases hm.symm.trans hn
          exact absurd hlt (Nat.lt_irrefl _)
      · rw [listing, hv, listing, List.getD_eq_getElem?_getD, List.getElem?_append_left hlt,
          List.getD_eq_getElem?_getD]
    · rw [List.getElem?_append_right (Nat.le_refl _), Nat.sub_self] at hl
      cases hl
      exact .inl ⟨rfl, rfl⟩
    · rw [List.getElem?_eq_none (by simp; omega)] at hl
      cases hl
  have hmirrors : v.Mirrors j stale kept := by
    refine ⟨fun l hl ↦ ?_, fun k hk ↦ ?_, fun k hk hn ↦ ?_⟩
    · exact ⟨List.mem_append_left _ (h.kept l hl).1, (h.kept l hl).2⟩
    · rcases hshows k hk with ⟨rfl, rfl⟩ | ⟨hk, -⟩
      · exact ⟨_, List.mem_append_right _ List.mem_cons_self, rfl, rfl, rfl⟩
      · obtain ⟨l, hl, hl'⟩ := h.linked k hk
        exact ⟨l, List.mem_append_left _ hl, hl'⟩
    · rcases hshows k hk with ⟨rfl, rfl⟩ | ⟨hk, he⟩
      · have hrows : (w.journal j).entries = rows := Except.ok.inj hr
        rw [listing, hv, List.getD_eq_getElem?_getD, List.getElem?_concat_length]
        exact hrows.symm
      · rw [he]
        exact h.fresh k hk hn
  exact hmirrors.records name _ _

/-- Once a listing has read its rows again, they are the entries. -/
theorem read (h : w.Mirrors j (k :: stale) kept) :
    Mirrors j stale kept { w with listings := w.listings.modify k fun l ↦
      (⟨(w.entries l.2).toOption.getD []⟩, l.2) } := by
  let v : World := { w with listings := w.listings.modify k fun l ↦
    (⟨(w.entries l.2).toOption.getD []⟩, l.2) }
  have hv (i : Nat) : v.listings[i]? = (fun l ↦ if k = i then
      (⟨(w.entries l.2).toOption.getD []⟩, l.2) else l) <$> w.listings[i]? :=
    List.getElem?_modify ..
  have hshows (i : Nat) (hi : v.Shows i j) : w.Shows i j := by
    obtain ⟨⟨l, hl⟩, hf⟩ := hi
    rw [hv] at hl
    obtain ⟨l', hl', he⟩ := Option.map_eq_some_iff.1 hl
    refine ⟨⟨l'.1, ?_⟩, hf⟩
    have ho : l'.2 = .journal j := by
      split at he
      · exact congrArg Prod.snd he
      · exact congrArg Prod.snd he
    rw [hl', ← ho]
  refine ⟨h.kept, fun i hi ↦ h.linked i (hshows i hi), fun i hi hn ↦ ?_⟩
  show (v.listings.getD i _).1.rows = (w.journal j).entries
  obtain ⟨l, hl⟩ := (hshows i hi).1
  rw [List.getD_eq_getElem?_getD, hv, hl]
  by_cases hk : k = i
  · simp [hk, World.entries, Except.toOption]
  · have hfresh := h.fresh i (hshows i hi) (by simp [Ne.symm hk, hn])
    rw [listing, List.getD_eq_getElem?_getD, hl] at hfresh
    simpa [hk] using hfresh

theorem setSlot (h : w.Mirrors j stale kept) (hw : w.Sound) {l : Link} {steps : List Step}
    {was : Option Int} (hl : l ∈ w.links) (hs : l.slot = .listen steps was) (left : Option Int) :
    (w.setSlot l.number (.listen steps left)).Mirrors j stale kept := by
  refine h.frame (fun m hm hr ↦ List.mem_map.2 ⟨m, hm, if_neg fun hn ↦ ?_⟩) rfl (fun _ hk ↦ hk) rfl
  -- The listener has a number of its own.
  obtain rfl := hw.eq_of_number hm hl hn
  rw [hs] at hr
  cases hr

theorem unwatch (h : w.Mirrors j stale kept) (k : Nat) {o : Object}
    (ho : (∃ x, o = .selection x) ∨ ∃ name, w.object name = .ok o) :
    (w.unwatch k o).Mirrors j stale kept := by
  refine h.frame (fun l hl hr ↦ List.mem_filter.2 ⟨hl, ?_⟩) rfl (fun i hi ↦ ?_) rfl
  · cases hs : l.slot with
    | capture x =>
      rw [hs] at hr
      cases hr
    | record | listen | refresh | relay => rfl
  · rw [isFollowing_iff] at hi ⊢
    rcases hi with hi | hi | hi | hi
    · exact .inl hi
    · exact .inr (.inl hi)
    · obtain ⟨d, hd, hn⟩ := List.mem_map.1 hi
      rcases mem_of_mem_modify hd with hd | ⟨d, hd, rfl⟩
      · exact .inr (.inr (.inl (List.mem_map.2 ⟨d, hd, hn⟩)))
      · rcases ho with ⟨x, rfl⟩ | ⟨name, ho⟩
        · cases hn
        · cases hn
          exact isFollowing_iff.1 (isFollowing_of_object ho)
    · exact .inr (.inr (.inr hi))

end Mirrors

end World

/-- A world in which all goes on tamely. As long as all items can be described, listings show the
journal but for those still to be told. -/
structure Mirroring (j : Nat) (stale : List Nat) (kept : List Link) (w : World) : Prop where
  sound : w.Sound
  tame : w.Tame
  mirrors : w.Described → w.Mirrors j stale kept

variable {b : Inner} {w w' : World} {j k : Nat} {stale : List Nat} {kept : List Link}

namespace Mirroring

theorem mono (h : Mirroring j stale kept w) {stale' : List Nat} {kept' : List Link}
    (hs : stale ⊆ stale') (hk : kept' ⊆ kept) : Mirroring j stale' kept' w :=
  ⟨h.sound, h.tame, fun hd ↦ (h.mirrors hd).mono hs hk⟩

theorem grown {stale' : List Nat} {kept' : List Link} (h : Mirroring j stale kept w)
    (hg : w.Grown w') (ht : w'.Tame)
    (hm : w.Mirrors j stale kept → w'.Mirrors j stale' kept') : Mirroring j stale' kept' w' :=
  ⟨hg.sound, ht, fun hd ↦ hm (h.mirrors (hg.described hd))⟩

/-- A listing that would have to be told is not, when an item cannot be described. -/
theorem of_undescribed {stale' : List Nat} {kept' : List Link} (h : Mirroring j stale kept w)
    (hd : ¬ w.Described) : Mirroring j stale' kept' w :=
  ⟨h.sound, h.tame, fun hd' ↦ absurd hd' hd⟩

theorem journal (h : Mirroring j stale kept w) {f : Journal Nat → Journal Nat}
    (hl : (w.journal k).limit.bound?.isSome = true → (f (w.journal k)).limit.bound?.isSome = true)
    (he : k = j → (f (w.journal j)).entries = (w.journal j).entries) :
    Mirroring j stale kept { w with journals := w.journals.modify k f } :=
  h.grown (h.sound.grown_journal k f) (h.tame.journal hl) fun hm ↦
    hm.frame (fun _ hm _ ↦ hm) rfl (fun _ hk ↦ hk) (World.entries_modify f he)

/-- When the entries change, all listings that show them have to be told. -/
theorem journal_stale (h : Mirroring j stale kept w) {f : Journal Nat → Journal Nat}
    (hl : (w.journal j).limit.bound?.isSome = true → (f (w.journal j)).limit.bound?.isSome = true) :
    Mirroring j (List.range w.listings.length) kept
      { w with journals := w.journals.modify j f } := by
  refine h.grown (h.sound.grown_journal j f) (h.tame.journal hl) fun hm ↦
    ⟨hm.kept, hm.linked, fun k hk hn ↦ ?_⟩
  obtain ⟨⟨l, hl⟩, -⟩ := hk
  exact absurd (List.mem_range.2 (List.getElem?_eq_some_iff.1 hl).1) hn

/-- What leaves items, links, journals and listings as they are, and makes no listing follow
anything, makes no difference. -/
theorem frame (h : Mirroring j stale kept w) (hg : w.Grown w') (hitems : w'.items = w.items)
    (hnames : w'.itemNames = w.itemNames) (hlinks : w'.links = w.links)
    (hjournals : w'.journals = w.journals) (hlistings : w'.listings = w.listings)
    (hf : ∀ k, w'.isFollowing k = true → w.isFollowing k = true) : Mirroring j stale kept w' := by
  refine h.grown hg
    ⟨hitems ▸ h.tame.items, ?_, hlinks ▸ h.tame.listeners, hjournals ▸ h.tame.limits⟩ fun hm ↦
    hm.frame (fun _ hm _ ↦ hlinks ▸ hm) hlistings hf ?_
  · rw [hnames, hitems]
    exact h.tame.names
  · rw [World.journal, hjournals, World.journal]

theorem aside (h : Mirroring j stale kept w) (events : List Event)
    (iterations : List (Text × List Nat)) (indexes : List (Text × Option Nat)) :
    Mirroring j stale kept { w with events, iterations, indexes } :=
  h.frame (h.sound.grown_aside _ _ _ _) rfl rfl rfl rfl rfl fun _ hk ↦ hk

theorem begun (h : Mirroring j stale kept w) (hk : w.isFollowing k = true) :
    Mirroring j stale kept { w with reading := k :: w.reading } := by
  refine h.frame (h.sound.grown_aside _ _ _ _) rfl rfl rfl rfl rfl fun i hi ↦ ?_
  rw [World.isFollowing_iff] at hi
  rcases hi with hi | hi | hi
  · exact World.isFollowing_iff.2 (.inl hi)
  · rcases List.mem_cons.1 hi with rfl | hi
    · exact hk
    · exact World.isFollowing_iff.2 (.inr (.inl hi))
  · exact World.isFollowing_iff.2 (.inr (.inr hi))

theorem read (h : Mirroring j (k :: stale) kept w) :
    Mirroring j stale kept { w with listings := w.listings.modify k fun l ↦
      (⟨(w.entries l.2).toOption.getD []⟩, l.2) } :=
  h.grown (h.sound.grown_listing k _)
    ⟨h.tame.items, h.tame.names, h.tame.listeners, h.tame.limits⟩ (·.read)

theorem done (h : Mirroring j stale kept w) (k : Nat) :
    Mirroring j stale kept { w with reading := w.reading.erase k } := by
  refine h.frame (h.sound.grown_aside _ _ _ _) rfl rfl rfl rfl rfl fun i hi ↦ ?_
  rw [World.isFollowing_iff] at hi ⊢
  exact hi.imp_right (.imp_left List.mem_of_mem_erase)

theorem present (h : Mirroring j stale kept w) (name : Text) {o : Object} (ho : w.Has o)
    (hk : ∀ k, o ≠ .listing k) : Mirroring j stale kept (w.present name o) :=
  h.grown (h.sound.grown_present name ho) (h.tame.present name o) (·.present name hk)

theorem newDispatcher (h : Mirroring j stale kept w) (name : Text) {s : Settings Value}
    (hs : s.commandLimit.bound?.isSome = true) :
    Mirroring j stale kept (w.withDispatcher name s) := by
  refine h.grown (h.sound.grown_withDispatcher name s) (h.tame.withDispatcher name hs) fun hm ↦ ?_
  have hd : (w.withHistories s).Mirrors j stale kept := by
    refine hm.frame (fun _ hm _ ↦ hm) rfl (fun i hi ↦ ?_)
      (World.entries_addJournal s.commandLimit)
    rw [World.isFollowing_iff] at hi ⊢
    refine hi.imp_right (.imp_right (.imp_left fun hi ↦ ?_))
    rw [World.withHistories, List.map_append, List.mem_append] at hi
    rcases hi with hi | hi
    · exact hi
    · cases List.mem_singleton.1 hi
  have hc := (hd.connect (.journal w.journals.length) .historyChanged
    (.relay w.dispatchers.length .commands)).connect (.timeline w.timelines.length)
    .historyChanged (.relay w.dispatchers.length .snapshots)
  exact ((hc.present name (o := .dispatcher w.dispatchers.length) (by simp)).present
    (name ++ ".commands") (o := .journal w.journals.length) (by simp)).present
    (name ++ ".snapshots") (o := .timeline w.timelines.length) (by simp)

theorem listen (h : Mirroring j stale kept w) (o : Object) (signal : Signal) {steps : List Step}
    (times : Option Int) (hs : ∀ s ∈ steps, s.isTame = true) :
    Mirroring j stale kept (w.connect o signal (.listen steps times)) := by
  refine h.grown (h.sound.grown_connect o signal (.listen steps times) trivial nofun)
    (h.tame.connect o signal _ fun _ _ he ↦ ?_) (·.connect _ _ _)
  cases he
  exact hs

theorem setMode (h : Mirroring j stale kept w) (k : Nat) (mode : Value) :
    Mirroring j stale kept { w with dispatchers := w.dispatchers.modify k ({ · with mode }) } := by
  refine h.frame (h.sound.grown_setMode k mode) rfl rfl rfl rfl rfl fun i hi ↦ ?_
  have hd : (w.dispatchers.modify k ({ · with mode })).map (·.watched) =
      w.dispatchers.map (·.watched) :=
    map_modify_of_eq (f := fun d : Dispatcher ↦ { d with mode }) (fun _ ↦ rfl) _ _
  rw [World.isFollowing_iff] at hi ⊢
  exact hd ▸ hi

end Mirroring

theorem upheld_mirroring (j : Nat) (stale : List Nat) (kept : List Link) :
    Upheld .tame (Mirroring j stale kept) where
  sound h := h.sound
  aside _ _ h := h.aside _ _ _
  event h _ := h.aside _ _ _
  begun h hk := h.begun hk
  read k h := (h.mono (List.subset_cons_self k _) (List.Subset.refl _)).read
  done k h := h.done k
  renewed h hi := h.grown (h.sound.grown_renewed hi) (h.tame.renewed hi) (·.renewed hi)
  captured := fun {w} x nodes h ↦ h.grown (h.sound.grown_item _) (h.tame.addItem rfl)
    (·.nameItem w.itemNames fun o ho ↦ .inl ⟨x, (Option.some.inj ho).symm⟩)
  edit h hs := h.grown (h.sound.grown_nameItem _ _) (h.tame.nameItem _ hs)
    (·.nameItem _ fun _ ho ↦ by cases ho)
  state h hs := h.grown (h.sound.grown_nameItem _ _) (h.tame.nameItem _ hs)
    (·.nameItem _ fun _ ho ↦ by cases ho)
  item name _ h hp ho := h.grown (h.sound.grown_nameItem _ _)
    (h.tame.nameItem name (Item.isTame_of_not_isProgram hp)) (·.nameItem _ ho)
  journal h hl := h.grown (h.sound.grown_addJournal _) (h.tame.addJournal hl)
    (·.frame (fun _ hm _ ↦ hm) rfl (fun _ hk ↦ hk) (World.entries_addJournal _))
  timeline _ h := h.frame (h.sound.grown_addTimeline _) rfl rfl rfl rfl rfl fun _ hk ↦ hk
  selection h hs :=
    h.frame (h.sound.grown_addSelection hs) rfl rfl rfl rfl rfl fun _ hk ↦ hk
  presented name _ _ _ h ho hk _ := h.present name ho hk
  listing name h _ hr := h.grown (h.sound.grown_withListing name hr) (h.tame.withListing name _ _)
    (·.newListing name hr)
  dispatcher name h hs hsettings := h.newDispatcher name (Terms.tame.newDispatcher hs hsettings)
  listened signal _ _ _ times h _ hs := h.listen _ signal times (Step.allTame_iff.1 hs)
  left left h hl hs := h.grown (h.sound.grown_setSlot _ _ _) (h.tame.setSlot hl hs left)
    (·.setSlot h.sound hl hs left)
  watched := fun {w _ k x} h hk ho ↦ h.grown ((upheld_grown w).watched h.sound.refl hk ho)
    ((h.tame.unwatch k _).connect _ _ _ nofun) fun hm ↦
    (hm.unwatch k (.inl ⟨x, rfl⟩)).connect _ _ _
  unwatched h ho _ := h.grown (h.sound.grown_unwatch _ _) (h.tame.unwatch _ _)
    (·.unwatch _ (.inr ⟨_, ho⟩))
  chosen k h hs :=
    h.frame (h.sound.grown_selection k hs) rfl rfl rfl rfl rfl fun _ hk ↦ hk
  listener h hl hs := h.tame.listeners _ hl _ _ hs
  program := fun {w i e} h hi ↦ by
    have hi := h.tame.items _ (List.mem_of_getElem? hi)
    simp only [Item.isTame, Bool.and_eq_true, Step.allTame_iff] at hi
    exact hi
  restore h hi := Step.allTame_iff.1 (h.tame.items _ (List.mem_of_getElem? hi))

end Rewind.Session
