import Rewind.Proofs.Footing
import Rewind.Proofs.Poise

namespace Rewind

open Session (Way)

variable {α ε ι ν : Type}

/-- Code that asks nothing of a history, though it may fail. -/
def Script.Still (code : Script ι) : Prop := code = .finish ∨ ∃ e, code = .fail e

/-- How code ends that asks nothing. -/
def Script.fault? : Script ι → Option Fault
  | .fail e => some e
  | _ => none

/-- Neither what is recorded nor those who listen call back. All may fail, and what is called or
equal may change. -/
structure Cast.Sedate (c : Cast ε ι ν) : Prop where
  code : ∀ s way x, (c.code s way x).Still
  hears : ∀ s n, (c.hears s n).Still

/-- How the code ends that is to run for an upshot. -/
def Cast.ends (c : Cast ε ι ν) (s : Stage ε ι ν) : Upshot ε ι → Option Fault
  | .replay way x start _ _ => (c.code (s.update fun _ ↦ start) way x).fault?
  | _ => none

/-- What an upshot makes of a history and of what has been called for it. -/
def Cast.met (c : Cast ε ι ν) (s : Stage ε ι ν) (u : Upshot ε ι) : Tally ε ι :=
  Tally.after (fun _ _ _ ↦ c.ends s u) ⟨s.history, s.calls⟩ u

/-- From `s` on, what was to happen has happened. -/
structure Cast.Met (c : Cast ε ι ν) (s : Stage ε ι ν) (u : Upshot ε ι) (t : Stage ε ι ν) :
    Prop where
  counts : t.Counts (c.met s u)
  past : s.past <:+ t.past

/-- The fault of a request, but for what refuses to be described. -/
def Cast.fault? (c : Cast ε ι ν) (s : Stage ε ι ν) (u : Upshot ε ι) : Option Fault :=
  u.fault? fun _ _ ↦ c.ends s u

section Steps

variable {c : Cast ε ι ν} {serve : Request ι → Run (Stage ε ι ν) Unit} {s t : Stage ε ι ν}
  {Q : Unit → Stage ε ι ν → Prop} {E : Fault → Stage ε ι ν → Prop} {X : Prop}

theorem Script.Still.leads {σ : Type} {serve : Request ι → Run σ Unit} {s : σ} {code : Script ι}
    {Q : Unit → σ → Prop} {E : Fault → σ → Prop} (h : code.Still)
    (hQ : code.fault? = none → Q () s) (hE : ∀ e, code.fault? = some e → E e s) :
    (code.play serve).Leads s Q E X := by
  rcases h with rfl | ⟨e, rfl⟩
  · exact hQ rfl
  · exact hE e rfl

theorem Cast.Met.note {u : Upshot ε ι} (h : c.Met s u t) {a : Act ι ν}
    (ha : ∀ way x, a ≠ .entered way x) : c.Met s u (t.note a) :=
  ⟨h.counts.note ha, h.past.trans (List.suffix_cons _ _)⟩

/-- Whatever an upshot is, it leads to what it says. Only what it says or what refuses to be
described can fail. -/
theorem Cast.Sedate.leads_upshot (hc : c.Sedate) (s : Stage ε ι ν) (u : Upshot ε ι) :
    u.Leads c serve s (fun t ↦ c.Met s u t ∧ c.fault? s u = none)
      (fun e t ↦ c.Met s u t ∧ ∀ f, c.fault? s u = some f → f = e) X := by
  have hannounce (h : c.fault? s u = none) (n : ν) :
      (c.announce serve n).Keeps (fun t ↦ c.Met s u t ∧ c.fault? s u = none) X := by
    intro t ht
    exact (Cast.leads_announce ..).2 ((hc.hears _ n).leads
      (fun _ ↦ ⟨ht.1.note nofun, h⟩) fun _ _ ↦ ⟨ht.1.note nofun, h⟩)
  cases u with
  | failed k e => exact ⟨⟨⟨rfl, rfl⟩, List.suffix_refl _⟩, fun f hf ↦ (Option.some.inj hf).symm⟩
  | quiet k => exact ⟨⟨⟨⟨rfl, rfl⟩, List.suffix_refl _⟩, rfl⟩,
      fun _ _ _ ↦ ⟨⟨⟨rfl, rfl⟩, List.suffix_refl _⟩, nofun⟩⟩
  | settled k => exact ⟨⟨⟨⟨⟨rfl, rfl⟩, List.suffix_refl _⟩, rfl⟩,
      fun _ _ _ ↦ ⟨⟨⟨rfl, rfl⟩, List.suffix_refl _⟩, nofun⟩⟩, hannounce rfl⟩
  | replay way x start back done =>
    refine (Cast.leads_enter ..).2 ((hc.code _ way x).leads (fun hn ↦ ?_) fun e he ↦ ?_)
    · have hn : c.ends s (.replay way x start back done) = none := hn
      have hmet : c.Met s (.replay way x start back done)
          ((((s.update fun _ ↦ start).note (.entered way x)).note (.left way x none)).update
            done) := by
        refine ⟨?_, (List.suffix_cons _ _).trans (List.suffix_cons _ _)⟩
        simp only [Cast.met, Tally.after, hn]
        exact ⟨rfl, by simp [Tally.call]⟩
      exact ⟨⟨⟨hmet, hn⟩, fun _ _ _ ↦ ⟨hmet, fun f hf ↦ by cases hn.symm.trans hf⟩⟩,
        hannounce hn⟩
    · have he : c.ends s (.replay way x start back done) = some e := he
      refine ⟨⟨?_, (List.suffix_cons _ _).trans (List.suffix_cons _ _)⟩,
        fun f hf ↦ Option.some.inj (hf.symm.trans he)⟩
      simp only [Cast.met, Tally.after, he]
      exact ⟨rfl, by simp [Tally.call]⟩

end Steps

/-- The first of those that there is still room for beside `k` others, zero room being room for
any number. -/
def beside (k room : Nat) (xs : List α) : List α :=
  if room = 0 then xs else xs.take (room - k)

theorem beside_cons (k room : Nat) (x : α) (xs : List α) :
    beside k room (x :: xs) = if room = 0 ∨ k < room then x :: beside (k + 1) room xs else [] := by
  unfold beside
  by_cases h0 : room = 0
  · simp [h0]
  · by_cases hk : k < room
    · rw [if_neg h0, if_pos (.inr hk), if_neg h0, show room - k = room - (k + 1) + 1 by omega,
        List.take_succ_cons]
    · rw [if_neg h0, if_neg (by omega), show room - k = 0 by omega, List.take_zero]

@[simp]
theorem beside_nil (k room : Nat) : beside k room ([] : List α) = [] := by
  unfold beside
  split
  · rfl
  · exact List.take_nil

/-- A new entry leaves room for the others from the newest on. -/
theorem newest_concat (room : Nat) (xs : List α) (x : α) :
    newest room (xs ++ [x]) = (beside 1 room xs.reverse).reverse ++ [x] := by
  unfold newest beside
  by_cases h0 : room = 0
  · rw [if_pos h0, if_pos h0, List.reverse_reverse]
  · have hdrop : (xs ++ [x]).length - room = xs.length - (room - 1) := by
      rw [List.length_append, List.length_singleton]
      omega
    rw [if_neg h0, if_neg h0, hdrop, List.drop_append_of_le_length (by omega), List.take_reverse,
      List.reverse_reverse]

namespace Timeline

variable {t : Timeline ι} {x y : ι} {p : Nat} {same : ι → ι → Bool}

/-- What is at the pointer stays when a new state comes, unless it is the first of several. -/
theorem past_of_item (hp : t.pointer = p) (hy : t.entries[p]? = some y)
    (hn : ¬ (p = 0 ∧ 1 < t.entries.length)) : t.past = t.entries.take p ++ [y] := by
  have hlt : p < t.entries.length := (List.getElem?_eq_some_iff.1 hy).1
  have htake : t.entries.take (p + 1) = t.entries.take p ++ [y] := by
    rw [List.take_add_one, hy]
    rfl
  rw [← htake]
  rcases Nat.eq_zero_or_pos p with rfl | h0
  · have hr : t.canRedo = false := by
      simp only [canRedo, hp, decide_eq_false_iff_not]
      omega
    rw [past, hr, if_neg Bool.noConfusion, List.take_of_length_le (by omega)]
  · rw [past_eq_take (by omega), hp]
    rfl

theorem kept_of_differs (hp : t.past = t.entries.take p ++ [y]) (h : same y x = false) :
    t.kept same x = t.entries.take p ++ [y] := by
  rw [kept, hp, List.getLast?_concat, Option.any_some, h]
  rfl

theorem kept_of_same (hp : t.past = t.entries.take p ++ [y]) (h : same y x = true) :
    t.kept same x = t.entries.take p := by
  rw [kept, hp, List.getLast?_concat, Option.any_some, h, if_pos rfl, List.dropLast_concat]

theorem kept_of_first (hp : t.pointer = 0) (hl : 1 < t.entries.length) : t.kept same x = [] := by
  rw [kept, past_of_first hp hl]
  rfl

variable {c : Cast (Timeline ι) ι (Notice ι)} {n : Nat} {s : Stage (Timeline ι) ι (Notice ι)}
  {X : Prop}

/-- What is asked of a timeline comes to what the upshot of it says. -/
theorem leads_serve_sedate (hc : c.Sedate) (n : Nat) {r : Request ι} {u : Upshot (Timeline ι) ι}
    (hu : s.history.upshot (c.same (s.note (.asked r))) r = u) :
    (engine.serve c (n + 1) r).Leads s
      (fun _ t ↦ c.Met (s.note (.asked r)) u t ∧ c.fault? (s.note (.asked r)) u = none)
      (fun e t ↦ c.Met (s.note (.asked r)) u t ∧
        ∀ f, c.fault? (s.note (.asked r)) u = some f → f = e) X := by
  subst hu
  have hasked := prompt c (engine.serve c n) r (s.note (.asked r)) _ _ X (hc.leads_upshot _ _)
  exact Engine.leads_serve.2 (hasked.mono (fun _ t ht ↦ ⟨ht.1.note nofun, ht.2⟩)
    fun _ t ht ↦ ⟨ht.1.note nofun, ht.2⟩)

theorem exists_served_sedate (hc : c.Sedate) (n : Nat) {r : Request ι} {u : Upshot (Timeline ι) ι}
    (hu : s.history.upshot (c.same (s.note (.asked r))) r = u) :
    ∃ t, (engine.serve c (n + 1) r s).state? = some t ∧ c.Met (s.note (.asked r)) u t :=
  ((leads_serve_sedate hc n hu).mono (fun _ _ ht ↦ ht.1) fun _ _ ht ↦ ht.1).exists_ended

theorem Poised.met (hs : s.history.Poised) {r : Request ι} (hr : r.Whole) :
    (c.met (s.note (.asked r))
      (s.history.upshot (c.same (s.note (.asked r))) r)).history.Poised := by
  show (Timeline.meet (fun _ _ _ ↦ c.ends (s.note (.asked r)) _) _
    ⟨s.history, (s.note (.asked r)).calls⟩ r).history.Poised
  exact Poised.meet hs hr

theorem poised_of_play (hc : c.Sedate) {limit : Value} (hl : limit.room?.isSome) {code : Script ι}
    (h : (code.play (engine.serve c (n + 1)) ⟨{ limit }, []⟩).state? = some s)
    (hp : AllProper s.past) : s.history.Poised := by
  have hserve (r : Request ι) : (engine.serve c (n + 1) r).Keeps
      (fun s ↦ AllProper s.past → s.history.Poised) := by
    intro s hs
    have hmet {t : Stage (Timeline ι) ι (Notice ι)} (ht : c.Met (s.note (.asked r))
        (s.history.upshot (c.same (s.note (.asked r))) r) t) (hp : AllProper t.past) :
        t.history.Poised := by
      have hasked : r.Proper := hp (.asked r, s.history) (ht.past.subset List.mem_cons_self)
      have hpast : AllProper s.past := fun m hm ↦
        hp m (ht.past.subset (List.mem_cons_of_mem _ hm))
      rw [ht.counts.1]
      exact (hs hpast).met (Request.Proper.whole hasked)
    exact (leads_serve_sedate hc n rfl).mono (fun _ t ht ↦ hmet ht.1) fun _ t ht ↦ hmet ht.1
  obtain ⟨room, hroom⟩ := Option.isSome_iff_exists.1 hl
  have hstart : ({ limit } : Timeline ι).Poised :=
    ⟨Option.isSome_iff_exists.2 ⟨_, Value.bound_of_room hroom⟩, rfl, rfl⟩
  have hkeeps := Script.play_keeps hserve code
  exact (hkeeps _ fun _ ↦ hstart).ended h hp

/-- The limits of a timeline are those that were asked for. -/
theorem room_of_play {limit : Value} (hl : limit.room?.isSome) {code : Script ι}
    (h : (code.play (engine.serve c n) ⟨{ limit }, []⟩).state? = some s) (hp : AllProper s.past) :
    s.history.limit.room?.isSome := by
  have hserve := Footing.serve_keeps (e := engine) (c := c)
    (fun _ hserve _ _ _ hs ha ↦ leads_handle_kept hserve hs ha) n
  have hstart : footing.Kept [] (⟨{ limit }, []⟩ : Stage (Timeline ι) ι (Notice ι)) :=
    ⟨rfl, fun _ ↦ ⟨hl, iff_of_true ⟨InRange.empty { limit }, fun _ hm ↦
      absurd hm List.not_mem_nil⟩ rfl⟩⟩
  exact ((Script.play_keeps (hserve []) code _ hstart).ended h |>.ranged_iff hp).1

/-- How the code of a state ends that is to be restored by undoing. -/
def refusal (c : Cast (Timeline ι) ι (Notice ι)) (s : Stage (Timeline ι) ι (Notice ι)) (x : ι) :
    Option Fault :=
  (c.code ((s.note (.asked .undo)).update ({ · with restoring := true })) .restore x).fault?

/-- Undoing goes back through some states, one at a time, and then no further. A state that is
restored is current then, unless its code fails: that changes nothing. -/
def Retraces (c : Cast (Timeline ι) ι (Notice ι)) (n : Nat) (s : Stage (Timeline ι) ι (Notice ι)) :
    List ι → Prop
  | [] => s.history.canUndo = false ∧
      ∃ u, engine.serve c n .undo s = .returned () u ∧ u.history = s.history ∧ u.calls = s.calls
  | x :: xs => s.history.canUndo = true ∧
      ∃ u, (engine.serve c n .undo s).state? = some u ∧ u.calls = s.calls ++ [(.restore, x)] ∧
        match refusal c s x with
        | none => u.history.current = .ok (some x) ∧ Retraces c n u xs
        | some e => engine.serve c n .undo s = .raised e u ∧ u.history = s.history

/-- A state that is gone back to has been restored, and is then current unless its code fails. -/
theorem exists_undone_sedate (hc : c.Sedate) (n : Nat) (hs : s.history.Poised) {i : Int}
    (hu : s.history.upshot (c.same (s.note (.asked .undo))) .undo = s.history.replayed x i) :
    ∃ t, (engine.serve c (n + 1) .undo s).state? = some t ∧ t.history.Poised ∧
      t.calls = s.calls ++ [(.restore, x)] ∧
      (refusal c s x = none → t.history = { s.history with pointer := i }) ∧
      ∀ e, refusal c s x = some e →
        engine.serve c (n + 1) .undo s = .raised e t ∧ t.history = s.history := by
  let q := s.note (.asked .undo)
  have hcalls : q.calls ++ [(.restore, x)] = s.calls ++ [(.restore, x)] := by simp [q]
  have hpoised : (c.met q (s.history.replayed x i)).history.Poised := hu ▸ hs.met trivial
  cases hf : refusal c s x with
  | none =>
    have hends : c.ends q (s.history.replayed x i) = none := hf
    have hafter : c.met q (s.history.replayed x i) =
        ⟨{ s.history with pointer := i }, q.calls ++ [(.restore, x)]⟩ := by
      simp only [Cast.met, hends]
      show Tally.mk { s.history with restoring := false, pointer := i } _ = _
      rw [← hs.idle]
      rfl
    obtain ⟨t, ht, hmet⟩ := exists_served_sedate hc n hu
    refine ⟨t, ht, hmet.counts.1 ▸ hpoised, ?_, fun _ ↦ ?_, nofun⟩
    · rw [hmet.counts.2, hafter, hcalls]
    · rw [hmet.counts.1, hafter]
  | some e =>
    have hends : c.ends q (s.history.replayed x i) = some e := hf
    have hafter : c.met q (s.history.replayed x i) =
        ⟨s.history, q.calls ++ [(.restore, x)]⟩ := by
      simp only [Cast.met, hends]
      show Tally.mk { s.history with restoring := false } _ = _
      rw [← hs.idle]
      rfl
    have hfails : (engine.serve c (n + 1) .undo).Leads s (fun _ _ ↦ False)
        (fun f t ↦ c.Met q (s.history.replayed x i) t ∧ f = e) False := by
      refine (leads_serve_sedate hc n hu).mono (fun _ t ht ↦ ?_) fun f t ht ↦ ?_
      · cases hends.symm.trans ht.2
      · exact ⟨ht.1, (ht.2 e hends).symm⟩
    obtain ⟨_, t, ht, hmet, rfl⟩ := hfails.exists_raised
    refine ⟨t, by rw [ht]; rfl, hmet.counts.1 ▸ hpoised, ?_, nofun, fun f hf ↦ ?_⟩
    · rw [hmet.counts.2, hafter, hcalls]
    · cases hf
      exact ⟨ht, by rw [hmet.counts.1, hafter]⟩

theorem Retraces.canUndo_eq {xs : List ι} (h : Retraces c n s xs) :
    s.history.canUndo = !xs.isEmpty := by
  cases xs with
  | nil => exact h.1
  | cons x xs => exact h.1

theorem retraces_nil (n : Nat) (hp : s.history.pointer = 0) : Retraces c (n + 1) s [] := by
  have hstays : (engine.serve c (n + 1) .undo).Leads s
      (fun _ t ↦ t.history = s.history ∧ t.calls = s.calls) (fun _ _ ↦ False) False := by
    refine Engine.leads_serve.2 (Host.leads_undo (fun _ ↦ ⟨rfl, by simp⟩) fun _ h0 ↦ ?_)
    exact absurd hp h0
  obtain ⟨_, u, hu, hsame⟩ := hstays.exists_returned
  refine ⟨?_, u, hu, hsame⟩
  simp [canUndo, hp]

/-- Undoing retraces the states before the pointer, the latest first. -/
theorem retraces (hc : c.Sedate) (n : Nat) (hs : s.history.Poised) {xs rest : List ι}
    (he : s.history.entries = xs.reverse ++ rest) (hp : s.history.pointer = xs.length) :
    Retraces c (n + 1) s xs := by
  induction xs generalizing s rest with
  | nil => exact retraces_nil n hp
  | cons x xs ih =>
    have hable : s.history.canUndo = true := by
      simp only [canUndo, hp, List.length_cons, decide_eq_true_eq]
      omega
    have hi : s.history.pointer + -1 = (xs.length : Nat) := by
      rw [hp, List.length_cons]
      omega
    have he : s.history.entries = xs.reverse ++ x :: rest := by simpa using he
    obtain ⟨y, hy, hu⟩ := @Poised.exists_back _ _ (c.same (s.note (.asked .undo))) hs hable
    obtain rfl : y = x := by
      rw [hi, Position.item?_natCast, he] at hy
      simpa using hy.symm
    obtain ⟨t, ht, hpoised, hcalls, hnone, hsome⟩ := exists_undone_sedate hc n hs hu
    refine ⟨hable, t, ht, hcalls, ?_⟩
    cases hf : refusal c s y with
    | none =>
      have hhistory := hnone hf
      refine ⟨?_, ih hpoised (?_ : t.history.entries = xs.reverse ++ y :: rest) ?_⟩
      · rw [hhistory]
        exact current_of_item hy rfl
      · rw [hhistory]
        exact he
      · rw [hhistory]
        exact hi
    | some e => exact hsome e hf

/-- What a new state leaves can be undone, the latest first. -/
theorem exists_added_sedate (hc : c.Sedate) (n : Nat) (hs : s.history.Poised)
    (he : s.history.enabled.truth = true) {room : Nat} (hroom : s.history.limit.room? = some room)
    {xs : List ι} (hxs : (s.history.kept (c.same (s.note (.asked (.add x)))) x).reverse = xs) :
    ∃ t, (engine.serve c (n + 1) (.add x) s).state? = some t ∧
      t.history.entries = (beside 1 room xs).reverse ++ [x] ∧ t.history.canRedo = false ∧
      t.history.current = .ok (some x) ∧ t.history.canUndo = !(beside 1 room xs).isEmpty ∧
      Retraces c (n + 1) t (beside 1 room xs) := by
  have hu := upshot_add_recorded he hs.idle (c.same (s.note (.asked (.add x)))) x
  rw [trim_eq (t := s.history.push (c.same (s.note (.asked (.add x)))) x) hroom] at hu
  obtain ⟨t, ht, hmet⟩ := exists_served_sedate hc n hu
  have hhistory := hmet.counts.1
  have hpoised : t.history.Poised := by
    rw [hhistory, ← hu]
    exact hs.met trivial
  have hentries : t.history.entries = (beside 1 room xs).reverse ++ [x] := by
    rw [hhistory, ← hxs, ← newest_concat]
    rfl
  have hpointer : t.history.pointer = t.history.entries.length - 1 := by
    rw [hhistory]
    rfl
  have hretraces := retraces hc n hpoised hentries (by simp [hpointer, hentries])
  refine ⟨t, ht, hentries, ?_, current_of_last hentries hpointer, hretraces.canUndo_eq, hretraces⟩
  simp [canRedo, hpointer]

/-- Whatever a timeline has been asked while neither its states nor its listeners call back: a new
state can be undone if there is room for two, unless the pointer was at the first of several states.
Undoing then goes back to the state that was current, and on to those before it, as many as there is
room for. Otherwise only the new state is left. A state that is equal to the current one takes its
place, and undoing goes back to the one before. -/
theorem added_then_undone (hc : c.Sedate) (n : Nat) {limit : Value} (hl : limit.room?.isSome)
    {code : Script ι} (h : (code.play (engine.serve c (n + 1)) ⟨{ limit }, []⟩).state? = some s)
    (hp : AllProper s.past) (he : s.history.enabled.truth = true) (hne : s.history.entries ≠ [])
    (x : ι) :
    let entries := s.history.entries
    ∃ room p y u, s.history.limit.room? = some room ∧ s.history.pointer = (p : Nat) ∧
      entries[p]? = some y ∧ s.history.current = .ok (some y) ∧
      (engine.serve c (n + 1) (.add x) s).state? = some u ∧ u.history.canRedo = false ∧
      (c.same (s.note (.asked (.add x))) y x = false →
        if room = 1 ∨ p = 0 ∧ 1 < entries.length then
          u.history.canUndo = false ∧ u.history.entries = [x]
        else
          u.history.canUndo = true ∧
            Retraces c (n + 1) u (y :: beside 2 room (entries.take p).reverse)) ∧
      (c.same (s.note (.asked (.add x))) y x = true → ¬ (p = 0 ∧ 1 < entries.length) →
        u.history.entries = newest room (entries.take p ++ [x]) ∧
        u.history.current = .ok (some x) ∧
        if room = 1 ∨ p = 0 then u.history.canUndo = false
        else
          u.history.canUndo = true ∧ ∃ z, entries[p - 1]? = some z ∧
            Retraces c (n + 1) u (z :: beside 2 room (entries.take (p - 1)).reverse)) := by
  intro entries
  have hs := poised_of_play hc hl h hp
  obtain ⟨room, hroom⟩ := Option.isSome_iff_exists.1 (room_of_play hl h hp)
  obtain ⟨h0, hlt⟩ := hs.inRange.of_ne_nil hne
  obtain ⟨p, hpointer⟩ := Int.eq_ofNat_of_zero_le h0
  have hlt : p < entries.length := by
    simp only [entries]
    omega
  have hy : entries[p]? = some entries[p] := List.getElem?_eq_getElem hlt
  have hcurrent : s.history.current = .ok (some entries[p]) :=
    current_of_item ((Position.item?_natCast _ p).trans hy) hpointer
  obtain ⟨u, hu, hentries, hredo, hx, hundo, hretraces⟩ :=
    exists_added_sedate (x := x) hc n hs he hroom rfl
  refine ⟨room, p, entries[p], u, hroom, hpointer, hy, hcurrent, hu, hredo, fun hd ↦ ?_,
    fun hd hn ↦ ?_⟩
  · by_cases hn : p = 0 ∧ 1 < entries.length
    · have hkept : s.history.kept (c.same (s.note (.asked (.add x)))) x = [] :=
        kept_of_first (by omega) hn.2
      rw [hkept, List.reverse_nil, beside_nil] at hentries hundo
      rw [if_pos (.inr hn)]
      exact ⟨hundo, hentries⟩
    · have hkept := kept_of_differs (past_of_item hpointer hy hn) hd
      rw [hkept, List.reverse_concat, beside_cons] at hentries hundo hretraces
      by_cases hr : room = 1
      · rw [if_neg (by omega)] at hentries hundo
        rw [if_pos (.inl hr)]
        exact ⟨hundo, hentries⟩
      · rw [if_pos (by omega)] at hundo hretraces
        rw [if_neg (by omega)]
        exact ⟨hundo, hretraces⟩
  · have hkept := kept_of_same (past_of_item hpointer hy hn) hd
    rw [hkept] at hentries hundo hretraces
    refine ⟨hentries.trans (newest_concat room _ x).symm, hx, ?_⟩
    cases p with
    | zero =>
      rw [if_pos (.inr rfl)]
      simpa using hundo
    | succ k =>
      have hz : entries[k]? = some entries[k] := List.getElem?_eq_getElem (by omega)
      have htake : entries.take (k + 1) = entries.take k ++ [entries[k]] := by
        rw [List.take_add_one, hz]
        rfl
      rw [htake, List.reverse_concat, beside_cons] at hundo hretraces
      by_cases hr : room = 1
      · rw [if_neg (by omega)] at hundo
        rw [if_pos (.inl hr)]
        exact hundo
      · rw [if_pos (by omega)] at hundo hretraces
        rw [if_neg (by omega)]
        exact ⟨hundo, entries[k], hz, hretraces⟩

/-- The limit has been lowered since, so that a different state leaves room for the current one
only, and an equal one for the one before. -/
theorem added_then_undone_lowered :
    let rs : List (Request Nat) := [.add 1, .add 2, .add 3, .setLimit (.int 2), .undo]
    ∃ s u v, ((Script.all rs).play (engine.serve .lastDigit 1) ⟨{ limit := .int 5 }, []⟩).state? =
        some s ∧ s.history.entries = [1, 2, 3] ∧
      (engine.serve .lastDigit 1 (.add 4) s).state? = some u ∧ Retraces .lastDigit 1 u [2] ∧
      (engine.serve .lastDigit 1 (.add 12) s).state? = some v ∧ v.history.entries = [1, 12] ∧
      Retraces .lastDigit 1 v [1] := by
  intro rs
  have hc : Cast.Sedate (Cast.lastDigit : Cast (Timeline Nat) Nat (Notice Nat)) :=
    ⟨fun _ _ _ ↦ .inl rfl, fun _ _ ↦ .inl rfl⟩
  obtain ⟨s, hs, hp, he, hentries, hpointer, hroom⟩ : ∃ s ∈ ((Script.all rs).play
      (engine.serve .lastDigit 1) ⟨{ limit := .int 5 }, []⟩).state?, AllProper s.past ∧
        s.history.enabled.truth = true ∧ s.history.entries = [1, 2, 3] ∧ s.history.pointer = 1 ∧
        s.history.limit.room? = some 2 := by decide +kernel
  have hne : s.history.entries ≠ [] := by simp [hentries]
  obtain ⟨room, p, y, u, hr, hi, hy, -, hu, -, hdiffers, -⟩ :=
    added_then_undone hc 0 rfl hs hp he hne 4
  obtain ⟨room', p', y', v, hr', hi', hy', -, hv, -, -, hsame⟩ :=
    added_then_undone hc 0 rfl hs hp he hne 12
  obtain rfl : room = 2 := Option.some.inj (hr.symm.trans hroom)
  obtain rfl : room' = 2 := Option.some.inj (hr'.symm.trans hroom)
  obtain rfl : p = 1 := Int.ofNat.inj (hi.symm.trans hpointer)
  obtain rfl : p' = 1 := Int.ofNat.inj (hi'.symm.trans hpointer)
  rw [hentries] at hy hy' hdiffers hsame
  cases hy
  cases hy'
  obtain ⟨-, hretraces⟩ := hdiffers rfl
  obtain ⟨hlist, -, -, z, hz, hretraces'⟩ := hsame rfl (by decide)
  cases hz
  exact ⟨s, u, v, hs, hentries, hu, hretraces, hv, hlist, hretraces'⟩

end Timeline

end Rewind
