import Rewind.Run

namespace Rewind

variable {σ α β : Type}

def Outcome.state? : Outcome σ α → Option σ
  | .returned _ t | .raised _ t => some t
  | .exhausted => none

def Outcome.fault? : Outcome σ α → Option Fault
  | .raised e _ => some e
  | _ => none

theorem Outcome.exists_raised {o : Outcome σ α} {e : Fault} (h : o.fault? = some e) :
    ∃ t, o = .raised e t := by
  cases o with
  | returned a t => cases h
  | raised e' t =>
    cases h
    exact ⟨t, rfl⟩
  | exhausted => cases h

namespace Run

/-- From `s` the computation returns within `Q` or fails within `E`. It may have no end only if `X`
allows that. -/
def Leads (m : Run σ α) (s : σ) (Q : α → σ → Prop) (E : Fault → σ → Prop) (X : Prop) : Prop :=
  match m s with
  | .returned a t => Q a t
  | .raised e t => E e t
  | .exhausted => X

variable {s t : σ} {a : α} {e : Fault} {Q Q' : α → σ → Prop} {E E' : Fault → σ → Prop} {X : Prop}

theorem Leads.returned {m : Run σ α} (h : m.Leads s Q E X) (hm : m s = .returned a t) : Q a t := by
  simpa only [Leads, hm] using h

theorem Leads.raised {m : Run σ α} (h : m.Leads s Q E X) (hm : m s = .raised e t) : E e t := by
  simpa only [Leads, hm] using h

theorem Leads.ended {I : σ → Prop} {m : Run σ α} (h : m.Leads s (fun _ ↦ I) (fun _ ↦ I) X)
    (hm : (m s).state? = some t) : I t := by
  cases ho : m s with
  | returned a u =>
    rw [ho] at hm
    cases hm
    exact h.returned ho
  | raised e u =>
    rw [ho] at hm
    cases hm
    exact h.raised ho
  | exhausted =>
    rw [ho] at hm
    cases hm

theorem Leads.exists_ended {I : σ → Prop} {m : Run σ α}
    (h : m.Leads s (fun _ ↦ I) (fun _ ↦ I) False) : ∃ t, (m s).state? = some t ∧ I t := by
  unfold Leads at h
  cases hm : m s with
  | returned a t => exact ⟨t, rfl, by simpa only [hm] using h⟩
  | raised e t => exact ⟨t, rfl, by simpa only [hm] using h⟩
  | exhausted => simp only [hm] at h

theorem Leads.exists_ended_with {I : Option Fault → σ → Prop} {m : Run σ α}
    (h : m.Leads s (fun _ ↦ I none) (fun e ↦ I (some e)) False) :
    ∃ t, (m s).state? = some t ∧ I (m s).fault? t := by
  unfold Leads at h
  cases hm : m s with
  | returned a t => exact ⟨t, rfl, by simpa only [hm, Outcome.fault?] using h⟩
  | raised e t => exact ⟨t, rfl, by simpa only [hm, Outcome.fault?] using h⟩
  | exhausted => simp only [hm] at h

theorem Leads.mono {m : Run σ α} (h : m.Leads s Q E X) (hQ : ∀ a t, Q a t → Q' a t)
    (hE : ∀ e t, E e t → E' e t) : m.Leads s Q' E' X := by
  unfold Leads at h ⊢
  cases hm : m s with
  | returned a t => exact hQ a t (by simpa only [hm] using h)
  | raised e t => exact hE e t (by simpa only [hm] using h)
  | exhausted => simpa only [hm] using h

/-- A computation that is known to end in one way ends in that way. -/
theorem Leads.exists_ended_as {f : Option Fault} {Q F : σ → Prop} {m : Run σ α}
    (h : m.Leads s (fun _ t ↦ f = none ∧ Q t) (fun e t ↦ f = some e ∧ F t) False) :
    ∃ t, (m s).state? = some t ∧ (m s).fault? = f ∧ (f = none → Q t) ∧ (f ≠ none → F t) := by
  apply exists_ended_with (I := fun g t ↦ g = f ∧ (f = none → Q t) ∧ (f ≠ none → F t))
  refine h.mono (fun _ t ht ↦ ?_) fun e t ht ↦ ?_
  · exact ⟨ht.1.symm, fun _ ↦ ht.2, fun hf ↦ absurd ht.1 hf⟩
  · refine ⟨ht.1.symm, fun hf ↦ ?_, fun _ ↦ ht.2⟩
    cases hf.symm.trans ht.1

theorem Leads.weaken {m : Run σ α} (h : m.Leads s Q E False) : m.Leads s Q E X := by
  unfold Leads at h ⊢
  cases hm : m s with
  | returned a t => simpa only [hm] using h
  | raised e t => simpa only [hm] using h
  | exhausted => simp only [hm] at h

theorem Leads.of_eq {m m' : Run σ α} (h : m'.Leads s Q E X) (hm : m s = m' s) :
    m.Leads s Q E X := by
  unfold Leads at h ⊢
  rwa [hm]

theorem leads_of_forall {m : Run σ α} (hQ : ∀ a t, Q a t) (hE : ∀ e t, E e t) :
    m.Leads s Q E True := by
  unfold Leads
  cases m s with
  | returned a t => exact hQ a t
  | raised e t => exact hE e t
  | exhausted => trivial

theorem Leads.and {m : Run σ α} (h : m.Leads s Q E True) (h' : m.Leads s Q' E' X) :
    m.Leads s (fun a t ↦ Q a t ∧ Q' a t) (fun e t ↦ E e t ∧ E' e t) X := by
  unfold Leads at h h' ⊢
  cases hm : m s with
  | returned a t => exact ⟨by simpa only [hm] using h, by simpa only [hm] using h'⟩
  | raised e t => exact ⟨by simpa only [hm] using h, by simpa only [hm] using h'⟩
  | exhausted => simpa only [hm] using h'

/-- A computation that cannot fail returns, unless it has no end. -/
theorem Leads.exists_returned {m : Run σ α} (h : m.Leads s Q (fun _ _ ↦ False) False) :
    ∃ a t, m s = .returned a t ∧ Q a t := by
  unfold Leads at h
  cases hm : m s with
  | returned a t => exact ⟨a, t, rfl, by simpa only [hm] using h⟩
  | raised e t => simp only [hm] at h
  | exhausted => simp only [hm] at h

/-- A computation that cannot return fails, unless it has no end. -/
theorem Leads.exists_raised {m : Run σ α} (h : m.Leads s (fun _ _ ↦ False) E False) :
    ∃ e t, m s = .raised e t ∧ E e t := by
  unfold Leads at h
  cases hm : m s with
  | returned a t => simp only [hm] at h
  | raised e t => exact ⟨e, t, rfl, by simpa only [hm] using h⟩
  | exhausted => simp only [hm] at h

@[simp]
theorem leads_pure : (Pure.pure a : Run σ α).Leads s Q E X ↔ Q a s := Iff.rfl

@[simp]
theorem leads_bind {m : Run σ α} {f : α → Run σ β} {Q : β → σ → Prop} :
    (m >>= f).Leads s Q E X ↔ m.Leads s (fun a t ↦ (f a).Leads t Q E X) E X := by
  show (bind m f).Leads s Q E X ↔ _
  unfold Leads bind
  cases m s <;> rfl

@[simp]
theorem leads_raise : (raise e : Run σ α).Leads s Q E X ↔ E e s := Iff.rfl

@[simp]
theorem leads_exhausted : (exhausted : Run σ α).Leads s Q E X ↔ X := Iff.rfl

@[simp]
theorem leads_get {Q : σ → σ → Prop} : get.Leads s Q E X ↔ Q s s := Iff.rfl

@[simp]
theorem leads_modify {f : σ → σ} {Q : Unit → σ → Prop} :
    (modify f).Leads s Q E X ↔ Q () (f s) := Iff.rfl

theorem leads_lift_ok {v : Except Fault α} (h : v = .ok a) : (lift v).Leads s Q E X ↔ Q a s := by
  subst h
  rfl

theorem leads_lift_error {v : Except Fault α} (h : v = .error e) :
    (lift v).Leads s Q E X ↔ E e s := by
  subst h
  rfl

theorem leads_lift {v : Except Fault α} :
    (lift v).Leads s Q E X ↔ (∀ a, v = .ok a → Q a s) ∧ ∀ e, v = .error e → E e s := by
  cases v with
  | ok a => simp [leads_lift_ok rfl]
  | error e => simp [leads_lift_error rfl]

theorem leads_ask {f : σ → Except Fault α} :
    (ask f).Leads s Q E X ↔ (∀ a, f s = .ok a → Q a s) ∧ ∀ e, f s = .error e → E e s :=
  leads_lift

theorem leads_ask_ok {f : σ → Except Fault α} (h : f s = .ok a) :
    (ask f).Leads s Q E X ↔ Q a s := leads_lift_ok h

theorem leads_ensuring {m : Run σ α} {f : σ → σ} :
    (m.ensuring f).Leads s Q E X ↔
      m.Leads s (fun a t ↦ Q a (f t)) (fun e t ↦ E e (f t)) X := by
  unfold Leads ensuring
  cases m s <;> rfl

theorem leads_recover {m : Run σ α} {handle : Fault → Run σ α} :
    (m.recover handle).Leads s Q E X ↔ m.Leads s Q (fun e t ↦ (handle e).Leads t Q E X) X := by
  unfold Leads recover
  cases m s <;> rfl

/-- What each computation of a row makes of a condition adds up to what holds in the end. -/
theorem leads_each_foldl {I : β → σ → Prop} {g : β → α → β} {b : β} {f : α → Run σ Unit}
    {xs : List α} (hs : I b s)
    (h : ∀ b, ∀ x ∈ xs, ∀ s, I b s → (f x).Leads s (fun _ ↦ I (g b x)) E X) :
    (each xs f).Leads s (fun _ ↦ I (xs.foldl g b)) E X := by
  induction xs generalizing b s with
  | nil => exact hs
  | cons x xs ih =>
    show (f x >>= fun _ ↦ each xs f).Leads s _ _ X
    rw [leads_bind]
    refine (h b x List.mem_cons_self s hs).mono (fun _ t ht ↦ ?_) (fun _ _ ht ↦ ht)
    exact ih ht fun b y hy ↦ h b y (List.mem_cons_of_mem x hy)

/-- A condition that each computation of a row hands on to the next holds in the end. -/
theorem leads_each {I : σ → Prop} {f : α → Run σ Unit} {xs : List α} (hs : I s)
    (h : ∀ x ∈ xs, ∀ s, I s → (f x).Leads s (fun _ ↦ I) E X) :
    (each xs f).Leads s (fun _ ↦ I) E X :=
  leads_each_foldl (I := fun _ : Unit ↦ I) (g := fun b _ ↦ b) (b := ()) hs fun _ ↦ h

/-- Whatever way the computation ends from a state in `I`, it ends in one. -/
def Keeps (m : Run σ α) (I : σ → Prop) (X : Prop := True) : Prop :=
  ∀ s, I s → m.Leads s (fun _ ↦ I) (fun _ ↦ I) X

namespace Keeps

variable {I : σ → Prop} {m : Run σ α}

theorem pure (a : α) : (Pure.pure a : Run σ α).Keeps I X := fun _ hs ↦ hs

theorem raise (e : Fault) : (Run.raise e : Run σ α).Keeps I X := fun _ hs ↦ hs

theorem ask (f : σ → Except Fault α) : (Run.ask f).Keeps I X := by
  intro s hs
  exact leads_ask.2 ⟨fun _ _ ↦ hs, fun _ _ ↦ hs⟩

theorem lift (v : Except Fault α) : (Run.lift v : Run σ α).Keeps I X := ask fun _ ↦ v

theorem modify {f : σ → σ} (h : ∀ s, I s → I (f s)) : (Run.modify f).Keeps I X := h

theorem bind {f : α → Run σ β} (hm : m.Keeps I X) (hf : ∀ a, (f a).Keeps I X) :
    (m >>= f).Keeps I X := by
  intro s hs
  rw [leads_bind]
  exact (hm s hs).mono (fun a t ht ↦ hf a t ht) (fun _ _ ht ↦ ht)

theorem get_bind {f : σ → Run σ α} (h : ∀ s, I s → (f s).Leads s (fun _ ↦ I) (fun _ ↦ I) X) :
    (get >>= f).Keeps I X := by
  intro s hs
  rw [leads_bind]
  exact h s hs

theorem ask_bind {v : σ → Except Fault α} {f : α → Run σ β}
    (h : ∀ s a, I s → v s = .ok a → (f a).Leads s (fun _ ↦ I) (fun _ ↦ I) X) :
    (Run.ask v >>= f).Keeps I X := by
  intro s hs
  rw [leads_bind, leads_ask]
  exact ⟨fun a ha ↦ h s a hs ha, fun _ _ ↦ hs⟩

theorem recover {handle : Fault → Run σ α} (hm : m.Keeps I X) (hh : ∀ e, (handle e).Keeps I X) :
    (m.recover handle).Keeps I X := by
  intro s hs
  rw [leads_recover]
  exact (hm s hs).mono (fun _ _ ht ↦ ht) (fun e t ht ↦ hh e t ht)

theorem each {f : α → Run σ Unit} (h : ∀ a, (f a).Keeps I X) (xs : List α) :
    (Run.each xs f).Keeps I X := fun _ hs ↦ leads_each hs fun a _ ↦ h a

theorem mapM {f : α → Run σ β} (h : ∀ a, (f a).Keeps I X) (xs : List α) :
    (xs.mapM f).Keeps I X := by
  induction xs with
  | nil => exact .pure _
  | cons x xs ih =>
    rw [List.mapM_cons]
    exact .bind (h x) fun _ ↦ .bind ih fun _ ↦ .pure _

end Keeps

/-- From a state in `I` both computations end in the same way, and in `I`. -/
def Agree (m m' : Run σ α) (I : σ → Prop) : Prop :=
  ∀ s, I s → m s = m' s ∧ m.Leads s (fun _ ↦ I) (fun _ ↦ I) True

theorem Keeps.agree {I : σ → Prop} {m : Run σ α} (h : m.Keeps I) : m.Agree m I :=
  fun s hs ↦ ⟨rfl, h s hs⟩

namespace Agree

variable {I : σ → Prop} {m m' : Run σ α}

theorem pure (a : α) : (Pure.pure a : Run σ α).Agree (Pure.pure a) I := (Keeps.pure a).agree

theorem raise (e : Fault) : (Run.raise e : Run σ α).Agree (Run.raise e) I := (Keeps.raise e).agree

theorem ask (f : σ → Except Fault α) : (Run.ask f).Agree (Run.ask f) I := (Keeps.ask f).agree

theorem lift (v : Except Fault α) : (Run.lift v : Run σ α).Agree (Run.lift v) I :=
  (Keeps.lift v).agree

theorem get : (Run.get : Run σ σ).Agree Run.get I := fun _ hs ↦ ⟨rfl, hs⟩

theorem modify {f : σ → σ} (h : ∀ s, I s → I (f s)) : (Run.modify f).Agree (Run.modify f) I :=
  (Keeps.modify h).agree

theorem bind_from {f f' : α → Run σ β} {s : σ}
    (hm : m s = m' s ∧ m.Leads s (fun _ ↦ I) (fun _ ↦ I) True)
    (hf : ∀ a, (f a).Agree (f' a) I) :
    (m >>= f) s = (m' >>= f') s ∧ (m >>= f).Leads s (fun _ ↦ I) (fun _ ↦ I) True := by
  obtain ⟨he, hl⟩ := hm
  refine ⟨?_, leads_bind.2 (hl.mono (fun a t ht ↦ (hf a t ht).2) fun _ _ ht ↦ ht)⟩
  cases ho : m s with
  | returned a t =>
    rw [bind_returned ho, bind_returned (he.symm.trans ho)]
    exact (hf a t (hl.returned ho)).1
  | raised e t => rw [bind_raised ho, bind_raised (he.symm.trans ho)]
  | exhausted => rw [bind_exhausted ho, bind_exhausted (he.symm.trans ho)]

theorem bind {f f' : α → Run σ β} (hm : m.Agree m' I) (hf : ∀ a, (f a).Agree (f' a) I) :
    (m >>= f).Agree (m' >>= f') I := fun s hs ↦ bind_from (hm s hs) hf

/-- What is read off the state may be reckoned with. -/
theorem ask_from {v : σ → Except Fault α} {f f' : α → Run σ β} {s : σ} (hs : I s)
    (hf : ∀ a, v s = .ok a → f a s = f' a s ∧ (f a).Leads s (fun _ ↦ I) (fun _ ↦ I) True) :
    (Run.ask v >>= f) s = (Run.ask v >>= f') s ∧
      (Run.ask v >>= f).Leads s (fun _ ↦ I) (fun _ ↦ I) True := by
  refine ⟨?_, leads_bind.2 (leads_ask.2 ⟨fun a ha ↦ (hf a ha).2, fun _ _ ↦ hs⟩)⟩
  show Run.bind (Run.ask v) f s = Run.bind (Run.ask v) f' s
  unfold Run.bind Run.ask
  cases hv : v s with
  | ok a => exact (hf a hv).1
  | error e => rfl

theorem raise_from {f f' : α → Run σ β} {s : σ} (e : Fault) (hs : I s) :
    (Run.raise e >>= f) s = (Run.raise e >>= f') s ∧
      (Run.raise e >>= f).Leads s (fun _ ↦ I) (fun _ ↦ I) True := ⟨rfl, hs⟩

/-- What is read off the state may be put to two uses. -/
theorem bind_map {γ δ δ' : Type} {v : σ → Except Fault γ} (g : γ → δ) (g' : γ → δ')
    {f : δ → Run σ β} {f' : δ' → Run σ β} (hf : ∀ c, (f (g c)).Agree (f' (g' c)) I) :
    ((Run.ask fun s ↦ g <$> v s) >>= f).Agree ((Run.ask fun s ↦ g' <$> v s) >>= f') I := by
  intro s hs
  have hask {δ : Type} (g : γ → δ) : (Run.ask fun s ↦ g <$> v s) s = Run.lift (g <$> v s) s := rfl
  cases hv : v s with
  | ok c =>
    have ho := (hask g).trans (congrArg (fun r ↦ Run.lift (g <$> r) s) hv)
    have ho' := (hask g').trans (congrArg (fun r ↦ Run.lift (g' <$> r) s) hv)
    rw [bind_returned ho, bind_returned ho', leads_bind, Leads, ho]
    exact hf c s hs
  | error e =>
    have ho := (hask g).trans (congrArg (fun r ↦ Run.lift (g <$> r) s) hv)
    have ho' := (hask g').trans (congrArg (fun r ↦ Run.lift (g' <$> r) s) hv)
    rw [bind_raised ho, bind_raised ho', leads_bind, Leads, ho]
    exact ⟨rfl, hs⟩

theorem get_bind {f f' : σ → Run σ α} (hf : ∀ s, I s →
      f s s = f' s s ∧ (f s).Leads s (fun _ ↦ I) (fun _ ↦ I) True) :
    (Run.get >>= f).Agree (Run.get >>= f') I := hf

theorem recover {handle : Fault → Run σ α} (hm : m.Agree m' I) (hh : ∀ e, (handle e).Keeps I) :
    (m.recover handle).Agree (m'.recover handle) I := by
  intro s hs
  obtain ⟨he, hl⟩ := hm s hs
  exact ⟨by simp only [Run.recover, he],
    leads_recover.2 (hl.mono (fun _ _ ht ↦ ht) fun e t ht ↦ hh e t ht)⟩

theorem ensuring {f : σ → σ} (hm : m.Agree m' I) (hf : ∀ s, I s → I (f s)) :
    (m.ensuring f).Agree (m'.ensuring f) I := by
  intro s hs
  obtain ⟨he, hl⟩ := hm s hs
  exact ⟨by simp only [Run.ensuring, he],
    leads_ensuring.2 (hl.mono (fun _ t ht ↦ hf t ht) fun _ t ht ↦ hf t ht)⟩

theorem each {f f' : α → Run σ Unit} {xs : List α} (h : ∀ x ∈ xs, (f x).Agree (f' x) I) :
    (Run.each xs f).Agree (Run.each xs f') I := by
  induction xs with
  | nil => exact .pure ()
  | cons x xs ih =>
    exact .bind (h x List.mem_cons_self) fun _ ↦ ih fun y hy ↦ h y (List.mem_cons_of_mem x hy)

end Agree

end Run

end Rewind
