import Rewind.Proofs.Stage

namespace Rewind

open Session (Way)

variable {ε ι ν : Type}

/-- What a request comes to: it fails, it leaves a history behind, which those who listen may hear
of, or it has code run from `start`. What the code leaves behind becomes what `done` makes of it, or
what `back` does if the code fails. -/
inductive Upshot (ε ι : Type) where
  | failed (history : ε) (e : Fault)
  | quiet (history : ε)
  | settled (history : ε)
  | replay (way : Way) (x : ι) (start : ε) (back done : ε → ε)

namespace Upshot

/-- The code that is to run. -/
def target? : Upshot ε ι → Option (Way × ι)
  | replay way x _ _ _ => some (way, x)
  | _ => none

/-- What has grown is trimmed. If there is no telling what is too much, it stays as it has grown. -/
def grown (history : ε) : Except Fault ε → Upshot ε ι
  | .ok trimmed => settled trimmed
  | .error e => failed history e

/-- All is done but to describe something, which may fail. -/
structure Told (c : Cast ε ι ν) (I : Stage ε ι ν → Prop) (E : Fault → Stage ε ι ν → Prop)
    (s : Stage ε ι ν) : Prop where
  here : I s
  described : ∀ x e, c.describe s x = .error e → E e s

/-- All is done but to describe something and to announce it. -/
structure Heard (c : Cast ε ι ν) (serve : Request ι → Run (Stage ε ι ν) Unit)
    (I : Stage ε ι ν → Prop) (E : Fault → Stage ε ι ν → Prop) (X : Prop) (s : Stage ε ι ν) : Prop
    extends Told c I E s where
  announced : ∀ n, (c.announce serve n).Keeps I X

/-- The upshot leads from `s` to `I`, or to a fault within `E`. -/
def Leads (c : Cast ε ι ν) (serve : Request ι → Run (Stage ε ι ν) Unit) (s : Stage ε ι ν)
    (I : Stage ε ι ν → Prop) (E : Fault → Stage ε ι ν → Prop) (X : Prop) : Upshot ε ι → Prop
  | failed k e => E e (s.update fun _ ↦ k)
  | quiet k => Told c I E (s.update fun _ ↦ k)
  | settled k => Heard c serve I E X (s.update fun _ ↦ k)
  | replay way x start back done =>
    (c.enter serve way x).Leads (s.update fun _ ↦ start)
      (fun _ t ↦ Heard c serve I E X (t.update done)) (fun e t ↦ E e (t.update back)) X

end Upshot

/-- Each request has come to its upshot before anyone hears of it. -/
def Engine.Prompt (g : Engine ε ι ν)
    (upshot : (ι → ι → Bool) → ε → Request ι → Upshot ε ι) : Prop :=
  ∀ (c : Cast ε ι ν) (serve : Request ι → Run (Stage ε ι ν) Unit) (r : Request ι)
    (s : Stage ε ι ν) (I : Stage ε ι ν → Prop) (E : Fault → Stage ε ι ν → Prop) (X : Prop),
    (upshot (c.same s) s.history r).Leads c serve s I E X → (g c serve r).Leads s (fun _ ↦ I) E X

variable {c : Cast ε ι ν} {serve : Request ι → Run (Stage ε ι ν) Unit} {s : Stage ε ι ν}
  {I : Stage ε ι ν → Prop} {E : Fault → Stage ε ι ν → Prop} {X : Prop}

/-- Announcing does not fail. -/
theorem Cast.announces {n : ν} (h : (c.announce serve n).Keeps I X) (hs : I s) :
    (c.announce serve n).Leads s (fun _ ↦ I) E X :=
  (leads_announce ..).2 ((leads_announce ..).1 (h s hs))

namespace Upshot

theorem Told.leads_describe (h : Told c I E s) (x : ι) :
    (Run.ask fun s ↦ c.describe s x).Leads s (fun _ ↦ I) E X :=
  Run.leads_ask.2 ⟨fun _ _ ↦ h.here, h.described x⟩

/-- It is announced what has been done, and then what can be done next. -/
theorem Heard.leads_describe (h : Heard c serve I E X s) (x : ι) (n : ν)
    (next : Stage ε ι ν → ν) :
    (Run.ask fun s ↦ c.describe s x).Leads s (fun _ t ↦ (c.announce serve n).Leads t
      (fun _ t ↦ (c.announce serve (next t)).Leads t (fun _ ↦ I) E X) E X) E X := by
  refine Run.leads_ask.2 ⟨fun _ _ ↦ ?_, h.described x⟩
  refine (Cast.announces (E := E) (h.announced n) h.here).mono (fun _ t ht ↦ ?_) fun _ _ ht ↦ ht
  exact Cast.announces (h.announced _) ht

end Upshot

namespace Journal

/-- The code of an edit is to run with recording held off, and then the position moves. -/
def replayed (j : Journal ι) (way : Way) (x : ι) (d : Int) : Upshot (Journal ι) ι :=
  .replay way x { j with replaying := true } ({ · with replaying := false })
    fun k ↦ ({ k with replaying := false } : Journal ι).move d

def upshot (j : Journal ι) : Request ι → Upshot (Journal ι) ι
  | .add x =>
    if j.enabled.truth && !j.replaying then .grown (j.push x) (j.push x).trim else .quiet j
  | .undo =>
    if j.canUndo then
      match j.last? with
      | some x => j.replayed .undo x (-1)
      | none => .failed j (.atPosition (j.position - 1))
    else .failed j .nothingToUndo
  | .redo =>
    if j.canRedo then
      match j.next? with
      | some x => j.replayed .redo x 1
      | none => .failed j (.atPosition j.position)
    else .failed j .nothingToRedo
  | .clear => .settled j.empty
  | .setEnabled v => .quiet { j with enabled := v }
  | .setLimit v => .quiet { j with limit := v }

theorem upshot_add_ignored {j : Journal ι} (h : j.enabled.truth = false ∨ j.replaying = true)
    (x : ι) : j.upshot (.add x) = .quiet j := by
  have h : (j.enabled.truth && !j.replaying) = false := by rcases h with h | h <;> simp [h]
  simp only [upshot, h, Bool.false_eq_true, if_false]

theorem upshot_add_recorded {j : Journal ι} (he : j.enabled.truth = true) (hr : j.replaying = false)
    (x : ι) : j.upshot (.add x) = .grown (j.push x) (j.push x).trim := by
  simp only [upshot, he, hr, Bool.not_false, Bool.and_true, if_true]

theorem upshot_undo (j : Journal ι) :
    (∃ e, j.upshot .undo = .failed j e) ∨
      ∃ x, j.canUndo = true ∧ j.last? = some x ∧ j.upshot .undo = j.replayed .undo x (-1) := by
  cases hu : j.canUndo with
  | false => exact .inl ⟨.nothingToUndo, by simp [upshot, hu]⟩
  | true =>
    cases hl : j.last? with
    | none => exact .inl ⟨.atPosition (j.position - 1), by simp [upshot, hu, hl]⟩
    | some x => exact .inr ⟨x, rfl, rfl, by simp [upshot, hu, hl]⟩

theorem upshot_redo (j : Journal ι) :
    (∃ e, j.upshot .redo = .failed j e) ∨
      ∃ x, j.canRedo = true ∧ j.next? = some x ∧ j.upshot .redo = j.replayed .redo x 1 := by
  cases hr : j.canRedo with
  | false => exact .inl ⟨.nothingToRedo, by simp [upshot, hr]⟩
  | true =>
    cases hn : j.next? with
    | none => exact .inl ⟨.atPosition j.position, by simp [upshot, hr, hn]⟩
    | some x => exact .inr ⟨x, rfl, rfl, by simp [upshot, hr, hn]⟩

variable {c : Cast (Journal ι) ι (Notice ι)}
  {serve : Request ι → Run (Stage (Journal ι) ι (Notice ι)) Unit}
  {s : Stage (Journal ι) ι (Notice ι)} {I : Stage (Journal ι) ι (Notice ι) → Prop}
  {E : Fault → Stage (Journal ι) ι (Notice ι) → Prop} {X : Prop}

theorem leads_replayed {way : Way} {x : ι} {d : Int}
    (h : (s.history.replayed way x d).Leads c serve s I E X) (r : Value → Int → Remark)
    (n : Notice ι) :
    ((c.journalHost serve).replay (c.enter serve way x)).Leads s
      (fun _ t ↦ ((c.journalHost serve).settle d r n x).Leads t (fun _ ↦ I) E X) E X := by
  refine Host.leads_replay.2 (Run.Leads.mono h (fun _ t ht ↦ ?_) fun _ _ ht ↦ ht)
  simp only [Host.settle, Run.leads_bind, Host.leads_change, Host.leads_look]
  exact ht.leads_describe x n _

theorem leads_add {x : ι} (h : (s.history.upshot (.add x)).Leads c serve s I E X) :
    ((c.journalHost serve).add x).Leads s (fun _ ↦ I) E X := by
  cases he : s.history.enabled.truth with
  | false =>
    rw [upshot_add_ignored (.inl he)] at h
    exact (Host.leads_add_ignored (.inl ⟨he, rfl⟩)).2 (Upshot.Told.leads_describe h x)
  | true =>
    cases hr : s.history.replaying with
    | true =>
      rw [upshot_add_ignored (.inr hr)] at h
      exact (Host.leads_add_ignored (.inr ⟨he, hr, rfl⟩)).2 (Upshot.Told.leads_describe h x)
    | false =>
      rw [upshot_add_recorded he hr] at h
      refine (Host.leads_add_recorded he hr).2 (Run.leads_lift.2 ⟨fun k hk ↦ ?_, fun e hk ↦ ?_⟩)
      · rw [show (s.history.push x).trim = .ok k from hk] at h
        exact Upshot.Heard.leads_describe h x _ _
      · rw [show (s.history.push x).trim = .error e from hk] at h
        exact h

theorem prompt : (engine (ι := ι)).Prompt fun _ ↦ upshot := by
  intro c serve r s I E X h
  cases r with
  | add x => exact leads_add h
  | undo =>
    refine Host.leads_undo (fun hu ↦ ?_) (fun hu hl ↦ ?_) fun x hu hl ↦ Cast.leads_revert.2 ?_
    · simp only [upshot, show s.history.canUndo = false from hu, Bool.false_eq_true, if_false] at h
      exact h
    · simp only [upshot, show s.history.canUndo = true from hu,
        show s.history.last? = none from hl, if_true] at h
      exact h
    · simp only [upshot, show s.history.canUndo = true from hu,
        show s.history.last? = some x from hl, if_true] at h
      exact leads_replayed h _ _
  | redo =>
    refine Host.leads_redo (fun hr ↦ ?_) (fun hr hn ↦ ?_) fun x hr hn ↦ Cast.leads_reapply.2 ?_
    · simp only [upshot, show s.history.canRedo = false from hr, Bool.false_eq_true, if_false] at h
      exact h
    · simp only [upshot, show s.history.canRedo = true from hr,
        show s.history.next? = none from hn, if_true] at h
      exact h
    · simp only [upshot, show s.history.canRedo = true from hr,
        show s.history.next? = some x from hn, if_true] at h
      exact leads_replayed h _ _
  | clear =>
    exact Host.leads_clear.2 (Host.leads_announceChange.2 (Cast.announces (h.announced _) h.here))
  | setEnabled v => exact h.here
  | setLimit v => exact h.here

end Journal

namespace Timeline

/-- The code of a state is to run with recording held off, and then the pointer moves. -/
def replayed (t : Timeline ι) (x : ι) (i : Int) : Upshot (Timeline ι) ι :=
  .replay .restore x { t with restoring := true } ({ · with restoring := false })
    ({ · with restoring := false, pointer := i })

def restored (t : Timeline ι) (i : Int) : Upshot (Timeline ι) ι :=
  match Position.item? t.entries i with
  | some x => t.replayed x i
  | none => .failed t .outOfRange

theorem restored_cases (t : Timeline ι) (i : Int) :
    t.restored i = .failed t .outOfRange ∨
      ∃ x, Position.item? t.entries i = some x ∧ t.restored i = t.replayed x i := by
  unfold restored
  cases Position.item? t.entries i with
  | none => exact .inl rfl
  | some x => exact .inr ⟨x, rfl, rfl⟩

def upshot (same : ι → ι → Bool) (t : Timeline ι) : Request ι → Upshot (Timeline ι) ι
  | .add x =>
    if t.enabled.truth && !t.restoring then .grown (t.push same x) (t.push same x).trim
    else .quiet t
  | .undo => if t.isEmpty || t.pointer == 0 then .quiet t else t.restored (t.pointer - 1)
  | .redo =>
    if t.pointer == t.entries.length - 1 then .quiet t else t.restored (t.pointer + 1)
  | .clear => .settled t.empty
  | .setEnabled v => .quiet { t with enabled := v }
  | .setLimit v => .quiet { t with limit := v }

theorem upshot_add_ignored {t : Timeline ι} (h : t.enabled.truth = false ∨ t.restoring = true)
    (same : ι → ι → Bool) (x : ι) : t.upshot same (.add x) = .quiet t := by
  have h : (t.enabled.truth && !t.restoring) = false := by rcases h with h | h <;> simp [h]
  simp only [upshot, h, Bool.false_eq_true, if_false]

theorem upshot_add_recorded {t : Timeline ι} (he : t.enabled.truth = true)
    (hr : t.restoring = false) (same : ι → ι → Bool) (x : ι) :
    t.upshot same (.add x) = .grown (t.push same x) (t.push same x).trim := by
  simp only [upshot, he, hr, Bool.not_false, Bool.and_true, if_true]

theorem upshot_undo (t : Timeline ι) (same : ι → ι → Bool) :
    t.upshot same .undo = .quiet t ∨ t.upshot same .undo = t.restored (t.pointer - 1) := by
  simp only [upshot]
  split
  · exact .inl rfl
  · exact .inr rfl

theorem upshot_redo (t : Timeline ι) (same : ι → ι → Bool) :
    t.upshot same .redo = .quiet t ∨ t.upshot same .redo = t.restored (t.pointer + 1) := by
  simp only [upshot]
  split
  · exact .inl rfl
  · exact .inr rfl

variable {c : Cast (Timeline ι) ι (Notice ι)}
  {serve : Request ι → Run (Stage (Timeline ι) ι (Notice ι)) Unit}
  {s : Stage (Timeline ι) ι (Notice ι)} {I : Stage (Timeline ι) ι (Notice ι) → Prop}
  {E : Fault → Stage (Timeline ι) ι (Notice ι) → Prop} {X : Prop}

theorem leads_moveTo {i : Int} (h : (s.history.restored i).Leads c serve s I E X) :
    ((c.timelineHost serve).moveTo i).Leads s (fun _ ↦ I) E X := by
  refine Host.leads_moveTo (fun hi ↦ ?_) fun x hi ↦ ?_
  · simp only [restored, show Position.item? s.history.entries i = none from hi] at h
    exact h
  · simp only [restored, show Position.item? s.history.entries i = some x from hi] at h
    refine Run.Leads.mono h (fun _ t ht ↦ ?_) fun _ _ ht ↦ ht
    simp only [Host.settle, Run.leads_bind, Host.leads_change, Host.leads_look]
    exact ht.leads_describe x _ _

theorem leads_add {x : ι} (h : (s.history.upshot (c.same s) (.add x)).Leads c serve s I E X) :
    ((c.timelineHost serve).add x).Leads s (fun _ ↦ I) E X := by
  cases he : s.history.enabled.truth with
  | false =>
    rw [upshot_add_ignored (.inl he)] at h
    exact (Host.leads_add_ignored (.inl ⟨he, rfl⟩)).2 (Upshot.Told.leads_describe h x)
  | true =>
    cases hr : s.history.restoring with
    | true =>
      rw [upshot_add_ignored (.inr hr)] at h
      exact (Host.leads_add_ignored (.inr ⟨he, hr, rfl⟩)).2 (Upshot.Told.leads_describe h x)
    | false =>
      rw [upshot_add_recorded he hr] at h
      refine (Host.leads_add_recorded he hr).2 (Run.leads_lift.2 ⟨fun k hk ↦ ?_, fun e hk ↦ ?_⟩)
      · rw [show (s.history.push (c.same s) x).trim = .ok k from hk] at h
        exact Upshot.Heard.leads_describe h x _ _
      · rw [show (s.history.push (c.same s) x).trim = .error e from hk] at h
        exact h

theorem prompt : (engine (ι := ι)).Prompt upshot := by
  intro c serve r s I E X h
  cases r with
  | add x => exact leads_add h
  | undo =>
    refine Host.leads_undo (fun hn ↦ ?_) fun he hp ↦ leads_moveTo ?_
    · have hn : (s.history.isEmpty || s.history.pointer == 0) = true := by simpa using hn
      simp only [upshot, hn, if_true] at h
      exact h.here
    · have hn : (s.history.isEmpty || s.history.pointer == 0) = false := by
        simpa using And.intro he hp
      simp only [upshot, hn, Bool.false_eq_true, if_false] at h
      exact h
  | redo =>
    refine Host.leads_redo (fun hn ↦ ?_) fun hp ↦ leads_moveTo ?_
    · have hn : (s.history.pointer == s.history.entries.length - 1) = true := by simpa using hn
      simp only [upshot, hn, if_true] at h
      exact h.here
    · have hn : (s.history.pointer == s.history.entries.length - 1) = false := by simpa using hp
      simp only [upshot, hn, Bool.false_eq_true, if_false] at h
      exact h
  | clear =>
    exact Host.leads_clear.2 (Host.leads_announceChange.2 (Cast.announces (h.announced _) h.here))
  | setEnabled v => exact h.here
  | setLimit v => exact h.here

end Timeline

end Rewind
