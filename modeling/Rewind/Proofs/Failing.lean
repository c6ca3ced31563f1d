import Rewind.Proofs.Guard
import Rewind.Proofs.Onward
import Rewind.Proofs.Upshot

namespace Rewind

open Session (Way)

variable {σ ε ι ν : Type}

namespace Script

/-- Code that asks for nothing but to record something. -/
inductive Adding : Script ι → Prop
  | finish : Adding finish
  | fail (e : Fault) : Adding (fail e)
  | ask {x : ι} {next : Option Fault → Script ι} : (∀ e, Adding (next e)) →
      Adding (ask (.add x) next)

/-- Code, and if it does not fail, other code after it. -/
def andThen : Script ι → Script ι → Script ι
  | finish, code => code
  | fail e, _ => fail e
  | ask r next, code => ask r fun e ↦ (next e).andThen code

/-- The code of a group: that of its parts, one after the other until one fails. -/
def chain (codes : List (Script ι)) : Script ι := codes.foldr andThen finish

variable {serve : Request ι → Run σ Unit}

theorem play_andThen (a b : Script ι) :
    (a.andThen b).play serve = a.play serve >>= fun _ ↦ b.play serve := by
  funext s
  induction a generalizing s with
  | finish => rfl
  | fail e => rfl
  | ask r next ih =>
    show (ask r fun e ↦ (next e).andThen b).play serve s =
      Run.bind ((ask r next).play serve) (fun _ ↦ b.play serve) s
    simp only [play, Run.bind]
    cases serve r s with
    | returned _ t => exact ih none t
    | raised e t => exact ih (some e) t
    | exhausted => rfl

theorem play_chain (codes : List (Script ι)) :
    (chain codes).play serve = Run.each codes (·.play serve) := by
  induction codes with
  | nil => rfl
  | cons code codes ih =>
    show (code.andThen (chain codes)).play serve = code.play serve >>= fun _ ↦ Run.each codes _
    rw [play_andThen, ih]

theorem Adding.andThen {a b : Script ι} (ha : a.Adding) (hb : b.Adding) : (a.andThen b).Adding := by
  induction ha with
  | finish => exact hb
  | fail e => exact .fail e
  | ask _ ih => exact .ask ih

theorem Adding.chain {codes : List (Script ι)} (h : ∀ code ∈ codes, code.Adding) :
    (chain codes).Adding := by
  induction codes with
  | nil => exact .finish
  | cons code codes ih =>
    exact (h code List.mem_cons_self).andThen (ih fun a ha ↦ h a (List.mem_cons_of_mem code ha))

end Script

/-- From `s` to the other stage nothing has happened but that requests to record something have been
ignored. -/
inductive Stage.Idles (s : Stage ε ι ν) : Stage ε ι ν → Prop
  | still : Idles s s
  | ignored {t : Stage ε ι ν} (x : ι) (fault : Option Fault) : Idles s t →
      Idles s ((t.note (.asked (.add x))).note (.answered (.add x) fault))

theorem Stage.Idles.history_eq {s t : Stage ε ι ν} (h : s.Idles t) : t.history = s.history := by
  induction h with
  | still => rfl
  | ignored x fault _ ih => exact ih

/-- From `s` to `t` nothing has been announced. -/
def Stage.Hushed (s t : Stage ε ι ν) : Prop :=
  ∃ acts, t.past = acts ++ s.past ∧ ∀ m ∈ acts, ∀ n, m.1 ≠ .announced n

namespace Stage.Hushed

variable {s t : Stage ε ι ν}

theorem refl (s : Stage ε ι ν) : s.Hushed s := ⟨[], rfl, fun _ hm ↦ absurd hm List.not_mem_nil⟩

theorem note (h : s.Hushed t) {a : Act ι ν} (ha : ∀ n, a ≠ .announced n) : s.Hushed (t.note a) := by
  obtain ⟨acts, hp, hacts⟩ := h
  refine ⟨(a, t.history) :: acts, congrArg _ hp, fun m hm ↦ ?_⟩
  rcases List.mem_cons.1 hm with rfl | hm
  · exact ha
  · exact hacts m hm

theorem idles {u : Stage ε ι ν} (h : s.Hushed t) (hu : t.Idles u) : s.Hushed u := by
  induction hu with
  | still => exact h
  | ignored x fault _ ih => exact (ih.note (by nofun)).note (by nofun)

end Stage.Hushed

/-- The conditions that an upshot brings about in any case. -/
def Upshot.Ensures (P : ε → Prop) : Upshot ε ι → Prop
  | failed k _ | quiet k | settled k => P k
  | replay _ _ _ back done => ∀ k, P (back k) ∧ P (done k)

namespace Engine.Prompt

variable {g : Engine ε ι ν} {upshot : (ι → ι → Bool) → ε → Request ι → Upshot ε ι}
  {c : Cast ε ι ν} {n : Nat} {s : Stage ε ι ν}

/-- What all upshots bring about when it holds before holds after any request, whatever code runs
meanwhile. -/
theorem keeps (hg : g.Prompt upshot) {P : ε → Prop}
    (hP : ∀ same j r, P j → (upshot same j r).Ensures P) (n : Nat) (r : Request ι) :
    (g.serve c n r).Keeps fun s ↦ P s.history := by
  induction n generalizing r with
  | zero => exact fun _ _ ↦ trivial
  | succ n ih =>
    intro s hs
    rw [Engine.leads_serve]
    refine hg c _ r _ (fun t ↦ P t.history) (fun _ t ↦ P t.history) True ?_
    have hheard (t : Stage ε ι ν) (ht : P t.history) :
        Upshot.Heard c (g.serve c n) (fun t ↦ P t.history) (fun _ t ↦ P t.history) True t :=
      ⟨⟨ht, fun _ _ _ ↦ ht⟩, fun n t ht ↦
        (Cast.leads_announce ..).2 (Script.play_keeps ih _ (t.note _) ht)⟩
    have hu := hP (c.same (s.note (.asked r))) s.history r hs
    simp only [Stage.history_note]
    cases hv : upshot (c.same (s.note (.asked r))) s.history r with
    | failed k e =>
      rw [hv] at hu
      exact hu
    | quiet k =>
      rw [hv] at hu
      exact ⟨hu, fun _ _ _ ↦ hu⟩
    | settled k =>
      rw [hv] at hu
      exact hheard _ hu
    | replay way x start back done =>
      rw [hv] at hu
      -- Whatever the code does, leaving it brings the condition about.
      exact Run.leads_of_forall (fun _ t ↦ hheard _ (hu t.history).2) fun _ t ↦ (hu t.history).1

/-- While recording is held off, code that only records changes nothing. -/
theorem idles (hg : g.Prompt upshot)
    (hs : ∀ same x, upshot same s.history (.add x) = .quiet s.history) {code : Script ι}
    (hcode : code.Adding) :
    (code.play (g.serve c n)).Leads s (fun _ ↦ s.Idles) (fun _ ↦ s.Idles) True := by
  suffices h : ∀ t, s.Idles t →
      (code.play (g.serve c n)).Leads t (fun _ ↦ s.Idles) (fun _ ↦ s.Idles) True from h s .still
  induction hcode with
  | finish => exact fun _ ht ↦ ht
  | fail e => exact fun _ ht ↦ ht
  | @ask x next _ ih =>
    intro t ht
    rw [Script.leads_ask]
    cases n with
    | zero => trivial
    | succ n =>
      have hadd : (g c (g.serve c n) (.add x)).Leads (t.note (.asked (.add x)))
          (fun _ u ↦ u = t.note (.asked (.add x))) (fun _ u ↦ u = t.note (.asked (.add x)))
          True := by
        refine hg c _ _ _ (· = t.note (.asked (.add x))) _ True ?_
        rw [Stage.history_note, ht.history_eq, hs, ← ht.history_eq]
        exact ⟨rfl, fun _ _ _ ↦ rfl⟩
      rw [Engine.leads_serve]
      refine hadd.mono (fun _ u hu ↦ ?_) fun e u hu ↦ ?_
      · subst hu
        exact ih none _ (ht.ignored x none)
      · subst hu
        exact ih (some e) _ (ht.ignored x (some e))

/-- When the code that is to run fails, having asked for nothing but to record something while that
is held off, the request fails with it. -/
theorem exists_raised (hg : g.Prompt upshot) {r : Request ι} {way : Way} {x : ι} {start : ε}
    {back done : ε → ε}
    (hr : upshot (c.same (s.note (.asked r))) s.history r = .replay way x start back done)
    (hstart : ∀ same y, upshot same start (.add y) = .quiet start)
    (hcode : ∀ s, (c.code s way x).Adding) {e : Fault} {v : Stage ε ι ν}
    (hv : c.enter (g.serve c n) way x ((s.note (.asked r)).update fun _ ↦ start) = .raised e v) :
    ∃ u, g.serve c (n + 1) r s = .raised e u ∧ u.history = back start ∧ s.Hushed u := by
  have hfailed : v.history = start ∧ s.Hushed v := by
    have hasked : s.Hushed ((s.note (.asked r)).update fun _ ↦ start) :=
      (Stage.Hushed.refl s).note (by simp)
    have hleads : (c.enter (g.serve c n) way x).Leads ((s.note (.asked r)).update fun _ ↦ start)
        (fun _ _ ↦ True) (fun _ v ↦ v.history = start ∧ s.Hushed v) True := by
      refine (Cast.leads_enter ..).2 ?_
      refine (hg.idles hstart (hcode _)).mono (fun _ _ _ ↦ trivial) fun e t ht ↦
        ⟨ht.history_eq, ((hasked.note (by simp)).idles ht).note (by simp)⟩
    exact hleads.raised hv
  have hleads : (g.serve c (n + 1) r).Leads s (fun _ _ ↦ False)
      (fun e' u ↦ e' = e ∧ u.history = back start ∧ s.Hushed u) False := by
    refine Engine.leads_serve.2 (hg c _ r _ (fun _ ↦ False) _ False ?_)
    rw [Stage.history_note, hr]
    simp only [Upshot.Leads, Run.Leads, hv]
    have hback : s.Hushed (v.update back) := hfailed.2
    exact ⟨trivial, congrArg back hfailed.1, hback.note (by simp)⟩
  obtain ⟨_, u, hu, rfl, hback, hhushed⟩ := hleads.exists_raised
  exact ⟨u, hu, hback, hhushed⟩

end Engine.Prompt

namespace Journal

theorem upshot_ensures_idle {j : Journal ι} (h : j.replaying = false) (r : Request ι) :
    (j.upshot r).Ensures (·.replaying = false) := by
  cases r with
  | add x =>
    cases he : j.enabled.truth with
    | false =>
      rw [upshot_add_ignored (.inl he)]
      exact h
    | true =>
      rw [upshot_add_recorded he h]
      cases ht : (j.push x).trim with
      | ok k => exact (recorder.flag_trim _ k ht).trans h
      | error e => exact h
  | undo =>
    rcases j.upshot_undo with ⟨e, he⟩ | ⟨x, -, -, hx⟩
    · rw [he]
      exact h
    · rw [hx]
      exact fun _ ↦ ⟨rfl, rfl⟩
  | redo =>
    rcases j.upshot_redo with ⟨e, he⟩ | ⟨x, -, -, hx⟩
    · rw [he]
      exact h
    · rw [hx]
      exact fun _ ↦ ⟨rfl, rfl⟩
  | clear | setEnabled v | setLimit v => exact h

theorem upshot_of_target {j : Journal ι} {r : Request ι} {way : Way} {x : ι}
    (h : (j.upshot r).target? = some (way, x)) : ∃ d, j.upshot r = j.replayed way x d := by
  cases r with
  | add y =>
    simp only [upshot] at h
    split at h
    · cases ht : (j.push y).trim <;> rw [ht] at h <;> cases h
    · cases h
  | undo =>
    rcases j.upshot_undo with ⟨e, he⟩ | ⟨y, -, -, hy⟩
    · rw [he] at h
      cases h
    · rw [hy] at h
      cases h
      exact ⟨_, hy⟩
  | redo =>
    rcases j.upshot_redo with ⟨e, he⟩ | ⟨y, -, -, hy⟩
    · rw [he] at h
      cases h
    · rw [hy] at h
      cases h
      exact ⟨_, hy⟩
  | clear | setEnabled v | setLimit v => cases h

end Journal

namespace Timeline

theorem restored_ensures_idle {t : Timeline ι} (h : t.restoring = false) (i : Int) :
    (t.restored i).Ensures (·.restoring = false) := by
  rcases t.restored_cases i with hn | ⟨x, -, hx⟩
  · rw [hn]
    exact h
  · rw [hx]
    exact fun _ ↦ ⟨rfl, rfl⟩

theorem upshot_ensures_idle {t : Timeline ι} (h : t.restoring = false) (same : ι → ι → Bool)
    (r : Request ι) : (t.upshot same r).Ensures (·.restoring = false) := by
  cases r with
  | add x =>
    cases he : t.enabled.truth with
    | false =>
      rw [upshot_add_ignored (.inl he)]
      exact h
    | true =>
      rw [upshot_add_recorded he h]
      cases ht : (t.push same x).trim with
      | ok u => exact (restoring_of_trim ht).trans h
      | error e => exact h
  | undo =>
    rcases t.upshot_undo same with hu | hu
    · rw [hu]
      exact h
    · rw [hu]
      exact restored_ensures_idle h _
  | redo =>
    rcases t.upshot_redo same with hr | hr
    · rw [hr]
      exact h
    · rw [hr]
      exact restored_ensures_idle h _
  | clear | setEnabled v | setLimit v => exact h

theorem restored_of_target {t : Timeline ι} {i : Int} {way : Way} {x : ι}
    (h : (t.restored i).target? = some (way, x)) :
    way = .restore ∧ t.restored i = t.replayed x i := by
  rcases t.restored_cases i with hn | ⟨y, -, hy⟩
  · rw [hn] at h
    cases h
  · rw [hy] at h
    cases h
    exact ⟨rfl, hy⟩

theorem upshot_of_target {t : Timeline ι} {same : ι → ι → Bool} {r : Request ι} {way : Way} {x : ι}
    (h : (t.upshot same r).target? = some (way, x)) :
    way = .restore ∧ ∃ i, t.upshot same r = t.replayed x i := by
  cases r with
  | add y =>
    simp only [upshot] at h
    split at h
    · cases ht : (t.push same y).trim <;> rw [ht] at h <;> cases h
    · cases h
  | undo =>
    rcases t.upshot_undo same with hu | hu
    · rw [hu] at h
      cases h
    · rw [hu] at h ⊢
      exact (restored_of_target h).imp_right fun hx ↦ ⟨_, hx⟩
  | redo =>
    rcases t.upshot_redo same with hr | hr
    · rw [hr] at h
      cases h
    · rw [hr] at h ⊢
      exact (restored_of_target h).imp_right fun hx ↦ ⟨_, hx⟩
  | clear | setEnabled v | setLimit v => cases h

end Timeline

/-- When the code of what is recorded fails while it is replayed, having asked for nothing but to
record something, the request fails with it, and the history is as it was, with recording no longer
held off. Nothing has been announced. Whatever is asked after that comes out as it would have
before, if recording was not held off then. Whatever code works on a new history, and whatever the
code of what it records asks for meanwhile, recording is not held off when no request is being
met. -/
theorem failed_replay_restores {ι : Type} :
    (∀ (c : Cast (Journal ι) ι (Journal.Notice ι)) (n : Nat),
      (∀ (limit : Value) (code : Script ι) t,
        (code.play (Journal.engine.serve c n) ⟨{ limit }, []⟩).state? = some t →
        t.history.replaying = false) ∧
      ∀ (s : Stage (Journal ι) ι (Journal.Notice ι)) (r : Request ι) (way : Way) (x : ι) (e : Fault)
        (v : Stage (Journal ι) ι (Journal.Notice ι)),
        (s.history.upshot r).target? = some (way, x) → (∀ s, (c.code s way x).Adding) →
        c.enter (Journal.engine.serve c n) way x
          ((s.note (.asked r)).update ({ · with replaying := true })) = .raised e v →
        ∃ u, Journal.engine.serve c (n + 1) r s = .raised e u ∧
          u.history = { s.history with replaying := false } ∧ s.Hushed u ∧
          (s.history.replaying = false → Journal.engine.AsFrom c s u)) ∧
    ∀ (c : Cast (Timeline ι) ι (Timeline.Notice ι)) (n : Nat),
      (∀ (limit : Value) (code : Script ι) t,
        (code.play (Timeline.engine.serve c n) ⟨{ limit }, []⟩).state? = some t →
        t.history.restoring = false) ∧
      ∀ (s : Stage (Timeline ι) ι (Timeline.Notice ι)) (r : Request ι) (way : Way) (x : ι)
        (e : Fault) (v : Stage (Timeline ι) ι (Timeline.Notice ι)),
        (s.history.upshot (c.same (s.note (.asked r))) r).target? = some (way, x) →
        (∀ s, (c.code s way x).Adding) →
        c.enter (Timeline.engine.serve c n) way x
          ((s.note (.asked r)).update ({ · with restoring := true })) = .raised e v →
        ∃ u, Timeline.engine.serve c (n + 1) r s = .raised e u ∧
          u.history = { s.history with restoring := false } ∧ s.Hushed u ∧
          (s.history.restoring = false → Timeline.engine.AsFrom c s u) := by
  constructor
  · refine fun c n ↦ ⟨fun limit code t ht ↦ ?_, fun s r way x e v hr hcode hv ↦ ?_⟩
    · have hkeeps := Journal.prompt.keeps (c := c) (P := (·.replaying = false))
        (fun _ _ r hj ↦ Journal.upshot_ensures_idle hj r) n
      exact (Script.play_keeps hkeeps code ⟨{ limit }, []⟩ rfl).ended ht
    · obtain ⟨d, hd⟩ := Journal.upshot_of_target hr
      obtain ⟨u, hu, hback, hhushed⟩ := Journal.prompt.exists_raised hd
        (fun _ ↦ Journal.upshot_add_ignored (.inr rfl)) hcode hv
      refine ⟨u, hu, hback, hhushed, fun hidle ↦ Journal.heedless.asFrom ?_⟩
      rw [hback, ← hidle]
  · refine fun c n ↦ ⟨fun limit code t ht ↦ ?_, fun s r way x e v hr hcode hv ↦ ?_⟩
    · have hkeeps := Timeline.prompt.keeps (c := c) (P := (·.restoring = false))
        (fun same _ r hj ↦ Timeline.upshot_ensures_idle hj same r) n
      exact (Script.play_keeps hkeeps code ⟨{ limit }, []⟩ rfl).ended ht
    · obtain ⟨rfl, i, hi⟩ := Timeline.upshot_of_target hr
      obtain ⟨u, hu, hback, hhushed⟩ := Timeline.prompt.exists_raised hi
        (Timeline.upshot_add_ignored (.inr rfl)) hcode hv
      refine ⟨u, hu, hback, hhushed, fun hidle ↦ Timeline.heedless.asFrom ?_⟩
      rw [hback, ← hidle]

/-- What goes by nine is a group, whose first part records something, and whose second part fails
after that. -/
def Cast.breaking : Cast ε Nat ν where
  code _ _ x :=
    if x = 9 then
      .chain [.ask (.add 5) fun _ ↦ .finish, .ask (.add 6) fun _ ↦ .fail (.scripted .null), .finish]
    else .finish
  hears _ _ := .finish
  describe _ _ := .ok .null
  same _ _ _ := false

theorem Cast.adding_breaking (s : Stage ε Nat ν) (way : Way) (x : Nat) :
    (breaking.code s way x).Adding := by
  simp only [breaking]
  split
  · refine .chain fun code hcode ↦ ?_
    simp only [List.mem_cons, List.not_mem_nil, or_false] at hcode
    rcases hcode with rfl | rfl | rfl
    · exact .ask fun _ ↦ .finish
    · exact .ask fun _ ↦ .fail _
    · exact .finish
  · exact .finish

/-- The second part of a group fails while the group is undone, and while it is restored. -/
theorem failed_replay_restores_group :
    (∃ t u : Stage (Journal Nat) Nat (Journal.Notice Nat),
      ((Script.all [.add 1, .add 9]).play (Journal.engine.serve Cast.breaking 2)
        ⟨{}, []⟩).state? = some t ∧ t.history.entries = [1, 9] ∧ t.history.position = 2 ∧
      Journal.engine.serve Cast.breaking 2 .undo t = .raised (.scripted .null) u ∧
      u.history = t.history ∧ Journal.engine.AsFrom Cast.breaking t u) ∧
    ∃ t u : Stage (Timeline Nat) Nat (Timeline.Notice Nat),
      ((Script.all [.add 9, .add 1]).play (Timeline.engine.serve Cast.breaking 2)
        ⟨{}, []⟩).state? = some t ∧ t.history.entries = [9, 1] ∧ t.history.pointer = 1 ∧
      Timeline.engine.serve Cast.breaking 2 .undo t = .raised (.scripted .null) u ∧
      u.history = t.history ∧ Timeline.engine.AsFrom Cast.breaking t u := by
  obtain ⟨hjournal, htimeline⟩ := failed_replay_restores (ι := Nat)
  constructor
  · obtain ⟨t, ht, he, hi, hp, hv⟩ : ∃ t ∈ ((Script.all [.add 1, .add 9]).play
        (Journal.engine.serve Cast.breaking 2) ⟨{}, []⟩).state?,
        t.history.entries = [1, 9] ∧ t.history.position = 2 ∧
        (t.history.upshot .undo).target? = some (.undo, 9) ∧
        (Cast.breaking.enter (Journal.engine.serve Cast.breaking 1) .undo 9
          ((t.note (.asked .undo)).update ({ · with replaying := true }))).fault? =
            some (.scripted .null) := by decide +kernel
    obtain ⟨v, hv⟩ := Outcome.exists_raised hv
    obtain ⟨u, hu, hback, -, hfrom⟩ :=
      (hjournal Cast.breaking 1).2 t _ _ _ _ v hp (Cast.adding_breaking · _ _) hv
    have hidle : t.history.replaying = false := (hjournal _ _).1 _ _ t ht
    exact ⟨t, u, ht, he, hi, hu, by rw [hback, ← hidle], hfrom hidle⟩
  · obtain ⟨t, ht, he, hi, hp, hv⟩ : ∃ t ∈ ((Script.all [.add 9, .add 1]).play
        (Timeline.engine.serve Cast.breaking 2) ⟨{}, []⟩).state?,
        t.history.entries = [9, 1] ∧ t.history.pointer = 1 ∧
        (t.history.upshot (Cast.breaking.same (t.note (.asked .undo))) .undo).target? =
          some (.restore, 9) ∧
        (Cast.breaking.enter (Timeline.engine.serve Cast.breaking 1) .restore 9
          ((t.note (.asked .undo)).update ({ · with restoring := true }))).fault? =
            some (.scripted .null) := by decide +kernel
    obtain ⟨v, hv⟩ := Outcome.exists_raised hv
    obtain ⟨u, hu, hback, -, hfrom⟩ :=
      (htimeline Cast.breaking 1).2 t _ _ _ _ v hp (Cast.adding_breaking · _ _) hv
    have hidle : t.history.restoring = false := (htimeline _ _).1 _ _ t ht
    exact ⟨t, u, ht, he, hi, hu, by rw [hback, ← hidle], hfrom hidle⟩

end Rewind
