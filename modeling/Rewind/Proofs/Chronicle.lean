import Rewind.Proofs.Footing
import Rewind.Proofs.Neighbours

namespace Rewind

open Session (Way)

variable {ε ι ν ρ : Type}

/-- What about a kind of history decides which of its entries stay. When `x` is recorded, the first
`kept` entries stay before it, as far as the limit leaves room. -/
structure Annals (ε ι ν : Type) extends Recorder ε ι ν where
  entries : ε → List ι
  limit : ε → Value
  kept : Stage ε ι ν → ι → Nat
  record : ∀ s x room, (limit s.history).room? = some room →
    ∃ k, trim (push s x) = .ok k ∧ limit k = limit s.history ∧
      entries k = newest room ((entries s.history).take (kept s x) ++ [x])

namespace Annals

variable (A : Annals ε ι ν)

/-- What is recorded when something happens: what is asked to be while recording is on and not held
off. -/
def recorded? : Act ι ν × ε → Option ι
  | (.asked (.add x), j) => if A.enabled j && !A.flag j then some x else none
  | _ => none

/-- All that has been recorded since the history was last cleared, each item with the number of
things that had happened before. -/
def log : List (Act ι ν × ε) → List (Nat × ι)
  | [] => []
  | (.asked .clear, _) :: _ => []
  | m :: past => log past ++ ((A.recorded? m).map (past.length, ·)).toList

/-- What of that is still stored. -/
def stored : List (Act ι ν × ε) → List (Nat × ι)
  | [] => []
  | (.asked .clear, _) :: _ => []
  | m :: past =>
    match A.recorded? m with
    | some x =>
      newest ((A.limit m.2).room?.getD 0)
        ((stored past).take (A.kept ⟨m.2, m :: past⟩ x) ++ [(past.length, x)])
    | none => stored past

/-- The entries of a history are the occurrences that are stored, and have been each time something
happened. Those are some of all that has been recorded, in that order, the newest one among them.
What has been dropped does not come back, and until something more is recorded there are no more of
them than the limit allowed for. -/
structure Chronological (s : Stage ε ι ν) : Prop where
  entries : A.entries s.history = (A.stored s.past).map (·.2)
  moments : ∀ a j earlier, (a, j) :: earlier <:+ s.past →
    A.entries j = (A.stored earlier).map (·.2)
  distinct : ∀ now, now <:+ s.past → (A.log now).Pairwise fun o o' ↦ o.1 < o'.1
  ordered : ∀ now, now <:+ s.past → (A.stored now).Sublist (A.log now)
  newest : ∀ now, now <:+ s.past → (A.stored now).getLast? = (A.log now).getLast?
  gone : ∀ now earlier, now <:+ s.past → earlier <:+ now → ∀ o ∈ A.stored now,
    o.1 < earlier.length → o ∈ A.stored earlier
  bounded : ∀ later m earlier x room, later ++ m :: earlier <:+ s.past → A.recorded? m = some x →
    (∀ m' ∈ later, A.recorded? m' = none) → (A.limit m.2).room? = some room → 0 < room →
    (A.stored (later ++ m :: earlier)).length ≤ room

variable {A} {m : Act ι ν × ε} {past : List (Act ι ν × ε)}

theorem log_cons (hm : m.1 ≠ .asked .clear) :
    A.log (m :: past) = A.log past ++ ((A.recorded? m).map (past.length, ·)).toList := by
  obtain ⟨a, j⟩ := m
  cases a with
  | asked r =>
    cases r with
    | clear => exact absurd rfl hm
    | add | undo | redo | setEnabled | setLimit => rfl
  | answered | entered | left | announced => rfl

theorem stored_cons (hm : m.1 ≠ .asked .clear) (hn : A.recorded? m = none) :
    A.stored (m :: past) = A.stored past := by
  obtain ⟨a, j⟩ := m
  cases a with
  | asked r =>
    cases r with
    | clear => exact absurd rfl hm
    | add x => simp only [stored, hn]
    | undo | redo | setEnabled | setLimit => rfl
  | answered | entered | left | announced => rfl

theorem stored_recorded {x : ι} (hx : A.recorded? m = some x) :
    A.stored (m :: past) = newest ((A.limit m.2).room?.getD 0)
      ((A.stored past).take (A.kept ⟨m.2, m :: past⟩ x) ++ [(past.length, x)]) := by
  obtain ⟨a, j⟩ := m
  cases a with
  | asked r =>
    cases r with
    | add y => simp only [stored, hx]
    | undo | redo | clear | setEnabled | setLimit => cases hx
  | answered | entered | left | announced => cases hx

theorem ne_clear_of_recorded {x : ι} (hx : A.recorded? m = some x) : m.1 ≠ .asked .clear := by
  obtain ⟨a, j⟩ := m
  rintro rfl
  cases hx

/-- Something is recorded, the history is cleared, or nothing changes about what is stored. -/
theorem stored_cases (m : Act ι ν × ε) (past : List (Act ι ν × ε)) :
    (∃ x, A.recorded? m = some x) ∨
      A.recorded? m = none ∧ A.log (m :: past) = [] ∧ A.stored (m :: past) = [] ∨
      A.recorded? m = none ∧ A.log (m :: past) = A.log past ∧
        A.stored (m :: past) = A.stored past := by
  cases hx : A.recorded? m with
  | some x => exact .inl ⟨x, rfl⟩
  | none =>
    by_cases hm : m.1 = .asked .clear
    · obtain ⟨a, j⟩ := m
      obtain rfl : a = .asked .clear := hm
      exact .inr (.inl ⟨rfl, rfl, rfl⟩)
    · exact .inr (.inr ⟨rfl, by simp [log_cons hm, hx], stored_cons hm hx⟩)

theorem exists_stored_recorded {x : ι} (hx : A.recorded? m = some x)
    (past : List (Act ι ν × ε)) :
    ∃ ys, A.stored (m :: past) = ys ++ [(past.length, x)] ∧ ys.Sublist (A.stored past) := by
  obtain ⟨ys, hys, hs⟩ := exists_newest_append ((A.limit m.2).room?.getD 0)
    ((A.stored past).take (A.kept ⟨m.2, m :: past⟩ x)) (past.length, x)
  exact ⟨ys, (stored_recorded hx).trans hys, hs.sublist.trans (List.take_sublist _ _)⟩

theorem lt_of_mem_log {o : Nat × ι} (h : o ∈ A.log past) : o.1 < past.length := by
  induction past with
  | nil => cases h
  | cons m past ih =>
    rw [List.length_cons]
    rcases A.stored_cases m past with ⟨x, hx⟩ | ⟨-, hl, -⟩ | ⟨-, hl, -⟩
    · rw [log_cons (ne_clear_of_recorded hx), hx] at h
      rcases List.mem_append.1 h with h | h
      · exact Nat.lt_succ_of_lt (ih h)
      · rw [List.mem_singleton.1 h]
        exact Nat.lt_succ_self _
    · rw [hl] at h
      cases h
    · rw [hl] at h
      exact Nat.lt_succ_of_lt (ih h)

theorem log_distinct (A : Annals ε ι ν) (past : List (Act ι ν × ε)) :
    (A.log past).Pairwise fun o o' ↦ o.1 < o'.1 := by
  induction past with
  | nil => exact .nil
  | cons m past ih =>
    rcases A.stored_cases m past with ⟨x, hx⟩ | ⟨-, hl, -⟩ | ⟨-, hl, -⟩
    · rw [log_cons (ne_clear_of_recorded hx), hx]
      refine List.pairwise_append.2 ⟨ih, List.pairwise_singleton _ _, fun o ho o' ho' ↦ ?_⟩
      rw [List.mem_singleton.1 ho']
      exact lt_of_mem_log ho
    · rw [hl]
      exact .nil
    · rw [hl]
      exact ih

theorem stored_sublist (A : Annals ε ι ν) (past : List (Act ι ν × ε)) :
    (A.stored past).Sublist (A.log past) := by
  induction past with
  | nil => exact .slnil
  | cons m past ih =>
    rcases A.stored_cases m past with ⟨x, hx⟩ | ⟨-, hl, hs⟩ | ⟨-, hl, hs⟩
    · obtain ⟨ys, hys, hsub⟩ := exists_stored_recorded hx past
      rw [hys, log_cons (ne_clear_of_recorded hx), hx]
      exact (hsub.trans ih).append (.refl _)
    · rw [hl, hs]
    · rw [hl, hs]
      exact ih

theorem getLast?_stored (A : Annals ε ι ν) (past : List (Act ι ν × ε)) :
    (A.stored past).getLast? = (A.log past).getLast? := by
  induction past with
  | nil => rfl
  | cons m past ih =>
    rcases A.stored_cases m past with ⟨x, hx⟩ | ⟨-, hl, hs⟩ | ⟨-, hl, hs⟩
    · obtain ⟨ys, hys, -⟩ := exists_stored_recorded hx past
      rw [hys, log_cons (ne_clear_of_recorded hx), hx]
      simp
    · rw [hl, hs]
    · rw [hl, hs]
      exact ih

theorem mem_stored_of_suffix {now earlier : List (Act ι ν × ε)} (h : earlier <:+ now)
    {o : Nat × ι} (ho : o ∈ A.stored now) (hn : o.1 < earlier.length) : o ∈ A.stored earlier := by
  obtain ⟨later, rfl⟩ := h
  induction later with
  | nil => exact ho
  | cons m later ih =>
    rcases A.stored_cases m (later ++ earlier) with ⟨x, hx⟩ | ⟨-, -, hs⟩ | ⟨-, -, hs⟩
    · obtain ⟨ys, hys, hsub⟩ := exists_stored_recorded hx (later ++ earlier)
      rw [List.cons_append, hys] at ho
      rcases List.mem_append.1 ho with ho | ho
      · exact ih (hsub.subset ho)
      · -- The new occurrence is numbered by all that has happened, so it is not an earlier one.
        have hl : o.1 = (later ++ earlier).length := congrArg Prod.fst (List.mem_singleton.1 ho)
        rw [List.length_append] at hl
        omega
    · rw [List.cons_append, hs] at ho
      cases ho
    · rw [List.cons_append, hs] at ho
      exact ih ho

theorem length_stored_le {later earlier : List (Act ι ν × ε)} {x : ι} {room : Nat}
    (hx : A.recorded? m = some x) (hlater : ∀ m' ∈ later, A.recorded? m' = none)
    (hroom : (A.limit m.2).room? = some room) (hpos : 0 < room) :
    (A.stored (later ++ m :: earlier)).length ≤ room := by
  induction later with
  | nil =>
    rw [List.nil_append, stored_recorded hx, hroom, Option.getD_some, newest, if_neg (by omega),
      List.length_drop]
    omega
  | cons m' later ih =>
    have ih := ih fun m hm ↦ hlater m (List.mem_cons_of_mem _ hm)
    have hm' := hlater m' List.mem_cons_self
    rcases A.stored_cases m' (later ++ m :: earlier) with ⟨y, hy⟩ | ⟨-, -, hs⟩ | ⟨-, -, hs⟩
    · cases hm'.symm.trans hy
    · rw [List.cons_append, hs]
      exact Nat.zero_le room
    · rw [List.cons_append, hs]
      exact ih

variable (A) in
/-- The entries are what is stored, and have been each time something happened. -/
structure Faithful (s : Stage ε ι ν) : Prop where
  proper : (A.limit s.history).room?.isSome
  entries : A.entries s.history = (A.stored s.past).map (·.2)
  moments : ∀ a j earlier, (a, j) :: earlier <:+ s.past →
    A.entries j = (A.stored earlier).map (·.2)

theorem Faithful.chronological {s : Stage ε ι ν} (h : A.Faithful s) : A.Chronological s where
  entries := h.entries
  moments := h.moments
  distinct now _ := A.log_distinct now
  ordered now _ := A.stored_sublist now
  newest now _ := A.getLast?_stored now
  gone _ _ _ hs _ := mem_stored_of_suffix hs
  bounded _ _ _ _ _ _ := length_stored_le

variable (A) in
/-- The entries are what is stored, as long as the limits are proper. -/
def Attested (s : Stage ε ι ν) : Prop := AllProper s.past → A.Faithful s

namespace Attested

variable {s t : Stage ε ι ν} {c : Cast ε ι ν} {serve : Request ι → Run (Stage ε ι ν) Unit}

theorem moment (h : A.Faithful s) {a a' : Act ι ν} {j : ε} {earlier : List (Act ι ν × ε)}
    (hs : (a', j) :: earlier <:+ (s.note a).past) : A.entries j = (A.stored earlier).map (·.2) := by
  rcases List.suffix_cons_iff.1 hs with he | hs
  · cases he
    exact h.entries
  · exact h.moments a' j earlier hs

/-- What happens with a history that it changes in accordance with what happens. -/
theorem change (h : A.Attested s) {a : Act ι ν} {f : ε → ε}
    (hf : a.Proper → A.Faithful s → (A.limit (f s.history)).room?.isSome ∧
      A.entries (f s.history) = (A.stored (s.note a).past).map (·.2)) :
    A.Attested ((s.note a).update f) := by
  intro hp
  have hs := h fun m hm ↦ hp m (List.mem_cons_of_mem _ hm)
  obtain ⟨hl, he⟩ := hf (hp _ List.mem_cons_self) hs
  exact ⟨hl, he, fun _ _ _ hm ↦ moment hs hm⟩

theorem note (h : A.Attested s) {a : Act ι ν} (ha : A.stored (s.note a).past = A.stored s.past) :
    A.Attested (s.note a) := by
  apply h.change (f := id)
  intro _ hs
  rw [ha]
  exact ⟨hs.proper, hs.entries⟩

theorem asked (h : A.Attested s) {r : Request ι} (hr : ∀ x, r ≠ .add x) (hc : r ≠ .clear) :
    A.Attested (s.note (.asked r)) := by
  apply h.note
  cases r with
  | add x => exact absurd rfl (hr x)
  | clear => exact absurd rfl hc
  | undo | redo | setEnabled | setLimit => rfl

theorem answered (h : A.Attested s) (r : Request ι) (fault : Option Fault) :
    A.Attested (s.note (.answered r fault)) := h.note rfl

theorem update (h : A.Attested s) {f : ε → ε} (he : A.entries (f s.history) = A.entries s.history)
    (hl : A.limit (f s.history) = A.limit s.history) : A.Attested (s.update f) := by
  intro hp
  have hs := h hp
  exact ⟨hl ▸ hs.proper, he.trans hs.entries, hs.moments⟩

theorem ignored (h : A.Attested s) {x : ι}
    (hx : A.recorded? ((.asked (.add x) : Act ι ν), s.history) = none) :
    A.Attested (s.note (.asked (.add x))) := h.note (stored_cons nofun hx)

theorem recorded (h : A.Attested s) {x : ι} {k : ε}
    (hx : A.recorded? ((.asked (.add x) : Act ι ν), s.history) = some x)
    (hk : A.trim (A.push (s.note (.asked (.add x))) x) = .ok k) :
    A.Attested ((s.note (.asked (.add x))).update fun _ ↦ k) := by
  refine h.change fun _ hs ↦ ?_
  obtain ⟨room, hroom⟩ := Option.isSome_iff_exists.1 hs.proper
  obtain ⟨k', hk', hl, he⟩ := A.record (s.note (.asked (.add x))) x room hroom
  obtain rfl : k = k' := Except.ok.inj (hk.symm.trans hk')
  have hmap : A.entries k = (A.stored (s.note (.asked (.add x))).past).map (·.2) := by
    rw [he, Stage.past_note, stored_recorded hx, hroom, Option.getD_some, ← map_newest,
      List.map_append, List.map_take, Stage.history_note, hs.entries]
    rfl
  rw [hl]
  exact ⟨hs.proper, hmap⟩

theorem overgrown (h : A.Attested s) {x : ι} {e : Fault} {f : ε → ε}
    (he : A.trim (A.push (s.note (.asked (.add x))) x) = .error e) :
    A.Attested ((s.note (.asked (.add x))).update f) := by
  refine h.change fun _ hs ↦ ?_
  obtain ⟨room, hroom⟩ := Option.isSome_iff_exists.1 hs.proper
  obtain ⟨k, hk, -⟩ := A.record (s.note (.asked (.add x))) x room hroom
  cases he.symm.trans hk

theorem enter_keeps (hserve : ∀ r, (serve r).Keeps A.Attested) (way : Way) (x : ι) :
    (c.enter serve way x).Keeps A.Attested := by
  intro s hs
  rw [Cast.leads_enter]
  refine (Script.play_keeps hserve _ _ (hs.note rfl)).mono (fun _ t ht ↦ ?_) fun e t ht ↦ ?_
  · exact ht.note rfl
  · exact ht.note rfl

theorem announce_keeps (hserve : ∀ r, (serve r).Keeps A.Attested) (n : ν) :
    (c.announce serve n).Keeps A.Attested := by
  intro s hs
  rw [Cast.leads_announce]
  exact Script.play_keeps hserve _ _ (hs.note rfl)

/-- If what each request does keeps to this as long as the requests made meanwhile do, then requests
do whatever is made meanwhile. -/
theorem serve_keeps {g : Engine ε ι ν}
    (h : ∀ serve, (∀ r, (serve r).Keeps A.Attested) → ∀ r s, A.Attested s →
      (g c serve r).Leads (s.note (.asked r)) (fun _ ↦ A.Attested) (fun _ ↦ A.Attested) True)
    (n : Nat) (r : Request ι) : (g.serve c n r).Keeps A.Attested := by
  induction n generalizing r with
  | zero => exact fun _ _ ↦ trivial
  | succ n ih =>
    intro s hs
    rw [Engine.leads_serve]
    refine (h _ ih r s hs).mono (fun _ t ht ↦ ?_) fun e t ht ↦ ?_
    · exact ht.answered r none
    · exact ht.answered r (some e)

theorem chronological_of_play (hserve : ∀ r, (serve r).Keeps A.Attested) {j : ε}
    (hj : A.entries j = []) (hl : (A.limit j).room?.isSome) {code : Script ι}
    (ht : (code.play serve ⟨j, []⟩).state? = some t) (hp : AllProper t.past) :
    A.Chronological t := by
  have hs : A.Attested (⟨j, []⟩ : Stage ε ι ν) := by
    refine fun _ ↦ ⟨hl, hj, fun a k earlier hm ↦ ?_⟩
    exact absurd (List.suffix_nil.1 hm) (List.cons_ne_nil _ _)
  exact ((Script.play_keeps hserve code _ hs).ended ht hp).chronological

end Attested

end Annals

/-- Code is run whenever something is written to the log, as when what it is about is described for
that. -/
def Cast.write (logs : Stage ε ι ν → ρ → Script ι)
    (serve : Request ι → Run (Stage ε ι ν) Unit) (r : ρ) : Run (Stage ε ι ν) Unit := do
  let s ← Run.get
  (logs s r).play serve

theorem Cast.write_keeps {logs : Stage ε ι ν → ρ → Script ι}
    {serve : Request ι → Run (Stage ε ι ν) Unit} {I : Stage ε ι ν → Prop}
    (hserve : ∀ r, (serve r).Keeps I) (r : ρ) : (write logs serve r).Keeps I :=
  .get_bind fun s hs ↦ Script.play_keeps hserve (logs s r) s hs

namespace Journal

/-- A journal where describing what is logged may ask for anything, and fail afterwards. -/
def logged (logs : Stage (Journal ι) ι (Notice ι) → Remark → Script ι) :
    Engine (Journal ι) ι (Notice ι) :=
  fun c serve ↦ { c.journalHost serve with log := Cast.write logs serve : Host _ ι }.handle

def annals : Annals (Journal ι) ι (Notice ι) where
  toRecorder := recorder
  entries j := j.entries
  limit j := j.limit
  kept s _ := s.history.done.length
  record s x room h := by
    refine ⟨_, trim_push h x, rfl, ?_⟩
    rw [← show s.history.done = s.history.entries.take s.history.done.length from
      Position.before_eq_take _ _]

variable {c : Cast (Journal ι) ι (Notice ι)}
  {logs : Stage (Journal ι) ι (Notice ι) → Remark → Script ι}
  {serve : Request ι → Run (Stage (Journal ι) ι (Notice ι)) Unit}
  {s : Stage (Journal ι) ι (Notice ι)}

theorem leads_logged (hserve : ∀ r, (serve r).Keeps annals.Attested) (r : Request ι)
    (hs : annals.Attested s) :
    (logged logs c serve r).Leads (s.note (.asked r)) (fun _ ↦ annals.Attested)
      (fun _ ↦ annals.Attested) True := by
  set h : Host (Stage (Journal ι) ι (Notice ι)) ι :=
    { c.journalHost serve with log := Cast.write logs serve }
  have hh : h.Heard annals.Attested :=
    ⟨Annals.Attested.announce_keeps hserve, Cast.write_keeps hserve⟩
  have hupdate (f : Journal ι → Journal ι)
      (hf : ∀ j, (f j).entries = j.entries ∧ (f j).limit = j.limit) (s) (hs : annals.Attested s) :
      annals.Attested (h.update f s) := hs.update (hf _).1 (hf _).2
  have hcode (way : Way) (x : ι) (s) (hs : annals.Attested s) :
      (c.enter serve way x).Leads (h.update ({ · with replaying := true }) s)
        (fun _ ↦ annals.Attested) (fun _ ↦ annals.Attested) True :=
    Annals.Attested.enter_keeps hserve way x _ (hs.update rfl rfl)
  show (h.handle r).Leads _ _ _ _
  cases r with
  | add x =>
    by_cases hx : s.history.enabled.truth = true ∧ s.history.replaying = false
    · obtain ⟨he, hr⟩ := hx
      have hx : annals.recorded? ((.asked (.add x) : Act ι (Notice ι)), s.history) = some x := by
        simp [Annals.recorded?, annals, recorder, he, hr]
      refine hh.told.leads_add_recorded trivial he hr (fun k hk ↦ ?_) fun e hk ↦ ?_
      · exact hs.recorded hx hk
      · exact hs.overgrown hk
    · have hx' : annals.recorded? ((.asked (.add x) : Act ι (Notice ι)), s.history) = none := by
        simpa [Annals.recorded?, annals, recorder] using hx
      exact hh.leads_add_of (hs.ignored hx') fun he hr ↦ absurd ⟨he, hr⟩ hx
  | undo =>
    refine hh.undo hupdate (fun s x m hs _ hm ↦ ?_) _ (hs.asked nofun nofun)
    cases hm
    exact hcode .undo x s hs
  | redo =>
    refine hh.redo hupdate (fun s x m hs _ hm ↦ ?_) _ (hs.asked nofun nofun)
    cases hm
    exact hcode .redo x s hs
  | clear => exact hh.leads_clear (hs.change fun _ hs ↦ ⟨hs.proper, rfl⟩)
  | setEnabled v =>
    have hs := hs.asked (r := .setEnabled v) nofun nofun
    exact hs.update (f := ({ · with enabled := v })) rfl rfl
  | setLimit v =>
    exact hs.change (f := ({ · with limit := v })) fun hv hs ↦ ⟨hv, hs.entries⟩

end Journal

namespace Timeline

/-- A timeline where describing what is logged may ask for anything, and fail afterwards. -/
def logged (logs : Stage (Timeline ι) ι (Notice ι) → Remark → Script ι) :
    Engine (Timeline ι) ι (Notice ι) :=
  fun c serve ↦ { c.timelineHost serve with log := Cast.write logs serve : Host _ ι }.handle

theorem kept_starts (t : Timeline ι) (same : ι → ι → Bool) (x : ι) :
    t.kept same x <+: t.entries := by
  unfold kept
  split
  · exact (List.dropLast_prefix _).trans t.past_starts
  · exact t.past_starts

variable (c : Cast (Timeline ι) ι (Notice ι))

def annals : Annals (Timeline ι) ι (Notice ι) where
  toRecorder := recorder c
  entries t := t.entries
  limit t := t.limit
  kept s x := (s.history.kept (c.same s) x).length
  record s x room h := by
    have htrim := trim_eq (t := s.history.push (c.same s) x) h
    refine ⟨_, htrim, rfl, ?_⟩
    rw [← List.prefix_iff_eq_take.1 (s.history.kept_starts (c.same s) x)]
    rfl

variable {c} {logs : Stage (Timeline ι) ι (Notice ι) → Remark → Script ι}
  {serve : Request ι → Run (Stage (Timeline ι) ι (Notice ι)) Unit}
  {s : Stage (Timeline ι) ι (Notice ι)}

theorem leads_logged (hserve : ∀ r, (serve r).Keeps (annals c).Attested) (r : Request ι)
    (hs : (annals c).Attested s) :
    (logged logs c serve r).Leads (s.note (.asked r)) (fun _ ↦ (annals c).Attested)
      (fun _ ↦ (annals c).Attested) True := by
  set h : Host (Stage (Timeline ι) ι (Notice ι)) ι :=
    { c.timelineHost serve with log := Cast.write logs serve }
  have hh : h.Heard (annals c).Attested :=
    ⟨Annals.Attested.announce_keeps hserve, Cast.write_keeps hserve⟩
  have hmove (i : Int) : (h.moveTo i).Keeps (annals c).Attested := by
    intro s hs
    refine Host.leads_moveTo (fun _ ↦ hs) fun x _ ↦ ?_
    have henter := Annals.Attested.enter_keeps (c := c) hserve .restore x
      (s.update ({ · with restoring := true })) (hs.update rfl rfl)
    refine henter.mono (fun _ t ht ↦ ?_) fun _ t ht ↦ ht.update rfl rfl
    have hidle := ht.update (f := ({ · with restoring := false })) rfl rfl
    exact hh.leads_settle x (hidle.update (f := ({ · with pointer := i })) rfl rfl)
  show (h.handle r).Leads _ _ _ _
  cases r with
  | add x =>
    by_cases hx : s.history.enabled.truth = true ∧ s.history.restoring = false
    · obtain ⟨he, hr⟩ := hx
      have hx :
          (annals c).recorded? ((.asked (.add x) : Act ι (Notice ι)), s.history) = some x := by
        simp [Annals.recorded?, annals, recorder, he, hr]
      refine hh.told.leads_add_recorded trivial he hr (fun k hk ↦ ?_) fun e hk ↦ ?_
      · exact hs.recorded hx hk
      · exact hs.overgrown hk
    · have hx' : (annals c).recorded? ((.asked (.add x) : Act ι (Notice ι)), s.history) = none := by
        simpa [Annals.recorded?, annals, recorder] using hx
      exact hh.leads_add_of (hs.ignored hx') fun he hr ↦ absurd ⟨he, hr⟩ hx
  | undo =>
    have hs := hs.asked (r := .undo) nofun nofun
    exact Host.leads_undo (fun _ ↦ hs) fun _ _ ↦ hmove _ _ hs
  | redo =>
    have hs := hs.asked (r := .redo) nofun nofun
    exact Host.leads_redo (fun _ ↦ hs) fun _ ↦ hmove _ _ hs
  | clear => exact hh.leads_clear (hs.change fun _ hs ↦ ⟨hs.proper, rfl⟩)
  | setEnabled v =>
    have hs := hs.asked (r := .setEnabled v) nofun nofun
    exact hs.update (f := ({ · with enabled := v })) rfl rfl
  | setLimit v =>
    exact hs.change (f := ({ · with limit := v })) fun hv hs ↦ ⟨hv, hs.entries⟩

end Timeline

/-- Whatever code works on a new history, through whatever code of its own, of those who listen and
of what is described, and however that fails: as long as the limits are proper, what is stored is in
the order in which it was recorded, even where the position has left its range. -/
theorem stored_chronological {ι : Type} :
    (∀ (c : Cast (Journal ι) ι (Journal.Notice ι))
      (logs : Stage (Journal ι) ι (Journal.Notice ι) → Journal.Remark → Script ι) (n : Nat)
      (limit : Value) (code : Script ι) t, limit.room?.isSome →
      (code.play ((Journal.logged logs).serve c n) ⟨{ limit }, []⟩).state? = some t →
      AllProper t.past → Journal.annals.Chronological t) ∧
    ∀ (c : Cast (Timeline ι) ι (Timeline.Notice ι))
      (logs : Stage (Timeline ι) ι (Timeline.Notice ι) → Timeline.Remark → Script ι) (n : Nat)
      (limit : Value) (code : Script ι) t, limit.room?.isSome →
      (code.play ((Timeline.logged logs).serve c n) ⟨{ limit }, []⟩).state? = some t →
      AllProper t.past → (Timeline.annals c).Chronological t := by
  constructor
  · intro c logs n limit code t hl ht hp
    have hserve := Annals.Attested.serve_keeps (g := Journal.logged logs) (c := c)
      (fun _ hserve r _ ↦ Journal.leads_logged hserve r) n
    exact Annals.Attested.chronological_of_play hserve (j := { limit }) rfl hl ht hp
  · intro c logs n limit code t hl ht hp
    have hserve := Annals.Attested.serve_keeps (g := Timeline.logged logs) (c := c)
      (fun _ hserve r _ ↦ Timeline.leads_logged hserve r) n
    exact Annals.Attested.chronological_of_play hserve (j := { limit }) rfl hl ht hp

/-- The code of what is recorded goes back twice more. The last code clears the history, and the one
before that records nine afterwards. -/
def Cast.unsettling : Cast ε Nat ν where
  code s _ _ :=
    match openCodes s.past with
    | 0 => .ask .undo fun _ ↦ .finish
    | 1 => .ask .undo fun _ ↦ .ask (.add 9) fun _ ↦ .finish
    | _ => .ask .clear fun _ ↦ .finish
  hears _ _ := .finish
  describe _ _ := .ok .null
  same _ _ _ := false

/-- When one and two are stored, what is described records eight and then fails to be described. -/
def Script.chatty (stored : List Nat) : Script Nat :=
  if stored = [1, 2] then .ask (.add 8) fun _ ↦ .fail (.scripted .null) else .finish

/-- There is room for two. One is dropped while two is described, and nine is recorded before the
position falls below zero, so that it gives way to five. The pointer is led beyond the entries. -/
theorem stored_chronological_unsettled :
    (∃ t : Stage (Journal Nat) Nat _, ((Script.all [.add 1, .add 2, .undo, .add 5]).play
        ((Journal.logged fun s _ ↦ .chatty s.history.entries).serve Cast.unsettling 6)
        ⟨{ limit := .int 2 }, []⟩).state? = some t ∧ t.history.entries = [5] ∧
      (∃ m ∈ t.past, m.2.entries = [2, 8]) ∧
      (∃ m ∈ t.past, m.2.entries = [9] ∧ m.2.position = -1) ∧ Journal.annals.Chronological t) ∧
    ∃ t : Stage (Timeline Nat) Nat _, ((Script.all [.add 1, .add 2, .undo, .add 5]).play
        ((Timeline.logged fun s _ ↦ .chatty s.history.entries).serve Cast.unsettling 6)
        ⟨{ limit := .int 2 }, []⟩).state? = some t ∧ t.history.entries = [9, 5] ∧
      (∃ m ∈ t.past, m.2.entries = [2, 8]) ∧
      (∃ m ∈ t.past, m.2.entries = [] ∧ m.2.pointer = 0) ∧
      (Timeline.annals Cast.unsettling).Chronological t := by
  obtain ⟨hjournal, htimeline⟩ := stored_chronological (ι := Nat)
  constructor
  · obtain ⟨t, ht, hp, he, h⟩ : ∃ t ∈ ((Script.all [.add 1, .add 2, .undo, .add 5]).play
        ((Journal.logged fun s _ ↦ .chatty s.history.entries).serve Cast.unsettling 6)
        ⟨{ limit := .int 2 }, []⟩).state?, AllProper t.past ∧ t.history.entries = [5] ∧
        (∃ m ∈ t.past, m.2.entries = [2, 8]) ∧
        ∃ m ∈ t.past, m.2.entries = [9] ∧ m.2.position = -1 := by decide +kernel
    exact ⟨t, ht, he, h.1, h.2, hjournal _ _ _ _ _ t rfl ht hp⟩
  · obtain ⟨t, ht, hp, he, h⟩ : ∃ t ∈ ((Script.all [.add 1, .add 2, .undo, .add 5]).play
        ((Timeline.logged fun s _ ↦ .chatty s.history.entries).serve Cast.unsettling 6)
        ⟨{ limit := .int 2 }, []⟩).state?, AllProper t.past ∧ t.history.entries = [9, 5] ∧
        (∃ m ∈ t.past, m.2.entries = [2, 8]) ∧
        ∃ m ∈ t.past, m.2.entries = [] ∧ m.2.pointer = 0 := by decide +kernel
    exact ⟨t, ht, he, h.1, h.2, htimeline _ _ _ _ _ t rfl ht hp⟩

end Rewind
