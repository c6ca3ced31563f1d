import Rewind.Proofs.Stage

namespace Rewind

open Session (Way)

variable {σ τ ε ι ν α β : Type}

/-- Ends in the same way, in the state that `f` makes of the one it ended in. -/
def Outcome.carry (f : σ → τ) : Outcome σ α → Outcome τ α
  | returned a s => returned a (f s)
  | raised e s => raised e (f s)
  | exhausted => exhausted

/-- From the states that `f` makes, `m'` does what `m` does from the states they are made of. -/
def Run.Carries (f : σ → τ) (m : Run σ α) (m' : Run τ α) : Prop := ∀ s, m' (f s) = (m s).carry f

namespace Run.Carries

variable {f : σ → τ} {m : Run σ α} {m' : Run τ α}

theorem pure (a : α) : Carries f (Pure.pure a) (Pure.pure a) := fun _ ↦ rfl

theorem raise (e : Fault) : Carries f (Run.raise e : Run σ α) (Run.raise e) := fun _ ↦ rfl

theorem lift (v : Except Fault α) : Carries f (Run.lift v) (Run.lift v) := by
  cases v with
  | ok a => exact pure a
  | error e => exact raise e

theorem ask {v : σ → Except Fault α} {v' : τ → Except Fault α} (hv : ∀ s, v' (f s) = v s) :
    Carries f (Run.ask v) (Run.ask v') := by
  intro s
  show Run.lift (v' (f s)) (f s) = _
  rw [hv]
  exact lift (v s) s

theorem modify {g : σ → σ} {g' : τ → τ} (hg : ∀ s, g' (f s) = f (g s)) :
    Carries f (Run.modify g) (Run.modify g') := fun s ↦ congrArg (Outcome.returned ()) (hg s)

theorem bind {k : α → Run σ β} {k' : α → Run τ β} (hm : Carries f m m')
    (hk : ∀ a, Carries f (k a) (k' a)) : Carries f (m >>= k) (m' >>= k') := by
  intro s
  have hs := hm s
  cases ho : m s with
  | returned a t =>
    rw [ho] at hs
    rw [bind_returned ho, bind_returned hs]
    exact hk a t
  | raised e t =>
    rw [ho] at hs
    rw [bind_raised ho, bind_raised hs]
    rfl
  | exhausted =>
    rw [ho] at hs
    rw [bind_exhausted ho, bind_exhausted hs]
    rfl

/-- What is to be done may be read off the state. -/
theorem ask_bind {γ δ : Type} {v : σ → Except Fault γ} {v' : τ → Except Fault δ}
    {k : γ → Run σ α} {k' : δ → Run τ α} {a : γ} {b : δ} (hv : ∀ s, v s = .ok a)
    (hv' : ∀ s, v' s = .ok b) (hk : Carries f (k a) (k' b)) :
    Carries f (Run.ask v >>= k) (Run.ask v' >>= k') := by
  intro s
  have ha : Run.ask v s = .returned a s := congrArg (Run.lift · s) (hv s)
  have hb : Run.ask v' (f s) = .returned b (f s) := congrArg (Run.lift · (f s)) (hv' (f s))
  rw [bind_returned ha, bind_returned hb]
  exact hk s

theorem get_bind {k : σ → Run σ α} {k' : τ → Run τ α}
    (hk : ∀ s, Carries f (k s) (k' (f s))) : Carries f (Run.get >>= k) (Run.get >>= k') :=
  fun s ↦ hk s s

theorem recover {handle : Fault → Run σ α} {handle' : Fault → Run τ α} (hm : Carries f m m')
    (hh : ∀ e, Carries f (handle e) (handle' e)) :
    Carries f (m.recover handle) (m'.recover handle') := by
  intro s
  simp only [Run.recover, hm s]
  cases m s with
  | returned a t => rfl
  | raised e t => exact hh e t
  | exhausted => rfl

theorem closing {g : Option Fault → σ → σ} {g' : Option Fault → τ → τ} (hm : Carries f m m')
    (hg : ∀ e s, g' e (f s) = f (g e s)) : Carries f (m.closing g) (m'.closing g') := by
  intro s
  simp only [Run.closing, hm s]
  cases m s with
  | returned a t => exact congrArg (Outcome.returned a) (hg none t)
  | raised e t => exact congrArg (Outcome.raised e) (hg (some e) t)
  | exhausted => rfl

theorem ensuring {g : σ → σ} {g' : τ → τ} (hm : Carries f m m') (hg : ∀ s, g' (f s) = f (g s)) :
    Carries f (m.ensuring g) (m'.ensuring g') := by
  intro s
  simp only [Run.ensuring, hm s]
  cases m s with
  | returned a t => exact congrArg (Outcome.returned a) (hg t)
  | raised e t => exact congrArg (Outcome.raised e) (hg t)
  | exhausted => rfl

theorem play {serve : Request ι → Run σ Unit} {serve' : Request ι → Run τ Unit}
    (h : ∀ r, Carries f (serve r) (serve' r)) (code : Script ι) :
    Carries f (code.play serve) (code.play serve') := by
  intro s
  induction code generalizing s with
  | finish => rfl
  | fail e => rfl
  | ask r next ih =>
    simp only [Script.play, h r s]
    cases serve r s with
    | returned _ t => exact ih none t
    | raised e t => exact ih (some e) t
    | exhausted => rfl

end Run.Carries

/-- All that has happened, and before it what is given. -/
def Stage.after (past : List (Act ι ν × ε)) (s : Stage ε ι ν) : Stage ε ι ν :=
  { s with past := s.past ++ past }

/-- How those around a history go on after what is given has happened. -/
def Cast.since (c : Cast ε ι ν) (past : List (Act ι ν × ε)) : Cast ε ι ν where
  code s := c.code (s.after past)
  hears s := c.hears (s.after past)
  describe s := c.describe (s.after past)
  same s := c.same (s.after past)

/-- A history takes no heed of what has happened but for what has become of it. -/
def Engine.Heedless (g : Engine ε ι ν) : Prop :=
  ∀ (c : Cast ε ι ν) (past : List (Act ι ν × ε))
    (serve serve' : Request ι → Run (Stage ε ι ν) Unit),
    (∀ r, Run.Carries (Stage.after past) (serve r) (serve' r)) → ∀ r,
      Run.Carries (Stage.after past) (g (c.since past) serve r) (g c serve' r)

theorem Engine.Heedless.serve {g : Engine ε ι ν} (hg : g.Heedless) (c : Cast ε ι ν)
    (past : List (Act ι ν × ε)) (n : Nat) (r : Request ι) :
    Run.Carries (Stage.after past) (g.serve (c.since past) n r) (g.serve c n r) := by
  induction n generalizing r with
  | zero => exact fun _ ↦ rfl
  | succ n ih =>
    exact .bind (.modify fun _ ↦ rfl) fun _ ↦ .closing (hg c past _ _ ih r) fun _ _ ↦ rfl

namespace Cast

variable {c : Cast ε ι ν} {past : List (Act ι ν × ε)}
  {serve serve' : Request ι → Run (Stage ε ι ν) Unit}
  (hserve : ∀ r, Run.Carries (Stage.after past) (serve r) (serve' r))

include hserve

theorem carries_enter (way : Way) (x : ι) :
    Run.Carries (Stage.after past) ((c.since past).enter serve way x) (c.enter serve' way x) := by
  refine .get_bind fun s ↦ .bind (.modify fun _ ↦ rfl) fun _ ↦ ?_
  exact .closing (.play hserve (c.code (s.after past) way x)) fun _ _ ↦ rfl

theorem carries_announce (n : ν) :
    Run.Carries (Stage.after past) ((c.since past).announce serve n) (c.announce serve' n) := by
  refine .bind (.modify fun _ ↦ rfl) fun _ ↦ .get_bind fun s ↦ ?_
  exact .recover (.play hserve (c.hears (s.after past) n)) fun _ ↦ .pure ()

end Cast

theorem Journal.heedless : (engine (ι := ι)).Heedless := by
  intro c past serve serve' hserve r
  let h := (c.since past).journalHost serve
  let h' := c.journalHost serve'
  have hlook : Run.Carries (Stage.after past) h.look h'.look := fun _ ↦ rfl
  have hchange (f : Journal ι → Journal ι) :
      Run.Carries (Stage.after past) (h.change f) (h'.change f) := .modify fun _ ↦ rfl
  have htell (x : ι) : Run.Carries (Stage.after past) (h.tell x) (h'.tell x) := .ask fun _ ↦ rfl
  have hlog (r : Remark) : Run.Carries (Stage.after past) (h.log r) (h'.log r) := .pure ()
  have hannounce (n : Notice ι) : Run.Carries (Stage.after past) (h.announce n) (h'.announce n) :=
    Cast.carries_announce hserve n
  have hchanged : Run.Carries (Stage.after past) h.announceChange h'.announceChange :=
    .bind hlook fun _ ↦ hannounce _
  have hreplay (way : Way) (x : ι) : Run.Carries (Stage.after past)
      (h.replay ((c.since past).enter serve way x)) (h'.replay (c.enter serve' way x)) :=
    .bind (hchange _) fun _ ↦ .ensuring (Cast.carries_enter hserve way x) fun _ ↦ rfl
  have hsettle (d : Int) (r : Value → Int → Remark) (n : Notice ι) (x : ι) :
      Run.Carries (Stage.after past) (h.settle d r n x) (h'.settle d r n x) := by
    refine .bind (hchange _) fun _ ↦ .bind (htell x) fun _ ↦ .bind hlook fun _ ↦ ?_
    exact .bind (hlog _) fun _ ↦ .bind (hannounce n) fun _ ↦ hchanged
  cases r with
  | add x =>
    refine .bind hlook fun j ↦ ?_
    split
    · exact .bind (htell x) fun _ ↦ hlog _
    · split
      · exact .bind (htell x) fun _ ↦ hlog _
      · refine .bind (hchange _) fun _ ↦ .bind hlook fun _ ↦ .bind (.lift _) fun _ ↦ ?_
        refine .bind (hchange _) fun _ ↦ .bind (htell x) fun _ ↦ .bind (hlog _) fun _ ↦ ?_
        exact .bind (hannounce _) fun _ ↦ hchanged
  | undo =>
    refine .bind hlook fun j ↦ ?_
    split
    · exact .raise _
    · cases j.last? with
      | none => exact .raise _
      | some x =>
        refine .ask_bind (fun _ ↦ rfl) (fun _ ↦ rfl) ?_
        exact .bind (hreplay .undo x) fun _ ↦ hsettle (-1) .undone (.undone x) x
  | redo =>
    refine .bind hlook fun j ↦ ?_
    split
    · exact .raise _
    · cases j.next? with
      | none => exact .raise _
      | some x =>
        refine .ask_bind (fun _ ↦ rfl) (fun _ ↦ rfl) ?_
        exact .bind (hreplay .redo x) fun _ ↦ hsettle 1 .redone (.redone x) x
  | clear => exact .bind (hchange _) fun _ ↦ .bind (hlog _) fun _ ↦ hchanged
  | setEnabled v | setLimit v => exact hchange _

theorem Timeline.heedless : (engine (ι := ι)).Heedless := by
  intro c past serve serve' hserve r
  let h := (c.since past).timelineHost serve
  let h' := c.timelineHost serve'
  have hlook : Run.Carries (Stage.after past) h.look h'.look := fun _ ↦ rfl
  have hchange (f : Timeline ι → Timeline ι) :
      Run.Carries (Stage.after past) (h.change f) (h'.change f) := .modify fun _ ↦ rfl
  have htell (x : ι) : Run.Carries (Stage.after past) (h.tell x) (h'.tell x) := .ask fun _ ↦ rfl
  have hlog (r : Remark) : Run.Carries (Stage.after past) (h.log r) (h'.log r) := .pure ()
  have hannounce (n : Notice ι) : Run.Carries (Stage.after past) (h.announce n) (h'.announce n) :=
    Cast.carries_announce hserve n
  have hchanged : Run.Carries (Stage.after past) h.announceChange h'.announceChange :=
    .bind hlook fun _ ↦ hannounce _
  have hmove (i : Int) : Run.Carries (Stage.after past) (h.moveTo i) (h'.moveTo i) := by
    refine .bind hlook fun t ↦ ?_
    cases Position.item? t.entries i with
    | none => exact .raise _
    | some x =>
      refine .bind (hchange _) fun _ ↦ .bind (.ensuring (Cast.carries_enter hserve _ x) fun _ ↦ rfl)
        fun _ ↦ ?_
      refine .bind (hchange _) fun _ ↦ .bind (htell x) fun _ ↦ .bind hlook fun _ ↦ ?_
      exact .bind (hlog _) fun _ ↦ .bind (hannounce _) fun _ ↦ hchanged
  cases r with
  | add x =>
    refine .bind hlook fun t ↦ ?_
    split
    · exact .bind (htell x) fun _ ↦ hlog _
    · split
      · exact .bind (htell x) fun _ ↦ hlog _
      · refine .get_bind fun s ↦ .bind (hchange _) fun _ ↦ .bind hlook fun _ ↦ ?_
        refine .bind (.lift _) fun _ ↦ .bind (hchange _) fun _ ↦ .bind (htell x) fun _ ↦ ?_
        exact .bind (hlog _) fun _ ↦ .bind (hannounce _) fun _ ↦ hchanged
  | undo =>
    refine .bind hlook fun t ↦ ?_
    split
    · exact .pure ()
    · exact hmove _
  | redo =>
    refine .bind hlook fun t ↦ ?_
    split
    · exact .pure ()
    · exact hmove _
  | clear => exact .bind (hchange _) fun _ ↦ .bind (hlog _) fun _ ↦ hchanged
  | setEnabled v | setLimit v => exact hchange _

/-- Whatever is asked from `u` on comes out as it would have from `s`: it ends in the same way, and
the same happens meanwhile, if those around go on in the same way. -/
def Engine.AsFrom (g : Engine ε ι ν) (c : Cast ε ι ν) (s u : Stage ε ι ν) : Prop :=
  ∀ (c' : Cast ε ι ν) (n : Nat) (code : Script ι), c'.since s.past = c.since u.past →
    ∃ o : Outcome (Stage ε ι ν) Unit, code.play (g.serve c' n) s = o.carry (Stage.after s.past) ∧
      code.play (g.serve c n) u = o.carry (Stage.after u.past)

theorem Engine.Heedless.asFrom {g : Engine ε ι ν} {c : Cast ε ι ν} {s u : Stage ε ι ν}
    (hg : g.Heedless) (h : u.history = s.history) : g.AsFrom c s u := by
  intro c' n code hc
  -- Both runs carry the one that starts with nothing behind it.
  have hplay (c : Cast ε ι ν) (t : Stage ε ι ν) : code.play (g.serve c n) t =
      (code.play (g.serve (c.since t.past) n) ⟨t.history, []⟩).carry (Stage.after t.past) :=
    Run.Carries.play (hg.serve c t.past n) code ⟨t.history, []⟩
  refine ⟨_, hplay c' s, ?_⟩
  rw [hplay c u, h, hc]

end Rewind
