import Mathlib.Data.List.Nodup
import Rewind.Proofs.Failing
import Rewind.Proofs.Footing

namespace Rewind

open Session (Way)

variable {ι ν : Type}

/-- The occurrences of edits that are stored, each with the number of things that had happened when
it was recorded: those in effect, the oldest first, and those that have been undone, the next one to
redo first. `running` is the one whose code is running. `calls` are the calls that returned, the
latest first. -/
structure Ledger (ι : Type) where
  done : List (Nat × ι) := []
  undone : List (Nat × ι) := []
  running : Option (Nat × ι) := none
  calls : List (Nat × Way) := []

namespace Ledger

variable (l : Ledger ι)

def kept : List (Nat × ι) := l.done ++ l.undone

/-- The occurrence that is to be undone or to be redone next. -/
def next? : Way → Option (Nat × ι)
  | .undo => l.done.getLast?
  | _ => l.undone.head?

/-- The calls to an occurrence that returned, the latest first. -/
def callsTo (k : Nat) : List Way := (l.calls.filter (·.1 = k)).map (·.2)

/-- How many calls have returned since the last one to an occurrence. -/
def since (k : Nat) : Nat := l.calls.findIdx (·.1 = k)

def returned (o : Nat × ι) : Way → Ledger ι
  | .undo => ⟨l.done.dropLast, o :: l.undone, none, (o.1, .undo) :: l.calls⟩
  | way => ⟨l.done ++ [o], l.undone.tail, none, (o.1, way) :: l.calls⟩

/-- After so many things have happened, something happens that concerns edits. -/
def note (n : Nat) : Act ι ν × Journal ι → Ledger ι
  | (.asked (.add x), j) =>
    if j.enabled.truth && !j.replaying then
      { l with
        done := newest (j.limit.room?.getD 0) (l.done ++ [(n, x)])
        undone := []
        running := none }
    else l
  | (.asked .clear, _) => { l with done := [], undone := [], running := none }
  | (.entered way _, _) => { l with running := l.next? way }
  | (.left way _ none, _) => l.running.elim l (l.returned · way)
  | (.left _ _ (some _), _) => { l with running := none }
  | _ => l

end Ledger

def ledger : List (Act ι ν × Journal ι) → Ledger ι
  | [] => {}
  | m :: past => (ledger past).note past.length m

/-- Undoing and redoing in turn, where undoing comes first, and the latest is listed first. -/
def alternating : Nat → List Way
  | 0 => []
  | n + 1 => (if n % 2 = 0 then .undo else .redo) :: alternating n

theorem head?_alternating (n : Nat) : (alternating n).head? = some .undo ↔ n % 2 = 1 := by
  cases n with
  | zero => simp [alternating]
  | succ n =>
    simp only [alternating, List.head?_cons, Option.some.injEq, ite_eq_left_iff]
    constructor
    · intro h
      by_contra hn
      exact absurd (h (by omega)) (by decide)
    · intro h hn
      omega

namespace Ledger

variable {l : Ledger ι} {j : Journal ι} {n : Nat}

/-- The ledger tells of the journal, when no code is running and `n` things have happened: which
edits are in effect and which have been undone, the latest first, and that the calls to each have
been made in turn. -/
structure Fits (l : Ledger ι) (j : Journal ι) (n : Nat) : Prop where
  idle : j.replaying = false
  proper : j.limit.room?.isSome
  entries : j.entries = l.kept.map (·.2)
  position : j.position = l.done.length
  older : ∀ o ∈ l.kept, o.1 < n
  apart : (l.kept.map (·.1)).Nodup
  called : ∀ m ∈ l.calls, m.1 < n
  alternate : ∀ k, ∃ m, l.callsTo k = alternating m
  done : ∀ o ∈ l.done, (l.callsTo o.1).head? ≠ some .undo
  undone : ∀ o ∈ l.undone, (l.callsTo o.1).head? = some .undo
  latest : l.undone.Pairwise fun o o' ↦ l.since o.1 < l.since o'.1

namespace Fits

theorem mono (h : l.Fits j n) {m : Nat} (hm : n ≤ m) : l.Fits j m :=
  { h with
    older := fun o ho ↦ Nat.lt_of_lt_of_le (h.older o ho) hm
    called := fun o ho ↦ Nat.lt_of_lt_of_le (h.called o ho) hm }

theorem inRange (h : l.Fits j n) : j.InRange := by
  have hp := h.position
  have hl := congrArg List.length h.entries
  simp only [kept, List.map_append, List.length_append, List.length_map] at hl
  exact ⟨by omega, by omega⟩

theorem done_eq (h : l.Fits j n) : j.done = l.done.map (·.2) := by
  have hl : l.done.length = (l.done.map (·.2)).length := by rw [List.length_map]
  rw [Journal.done, h.position, Position.before_natCast, h.entries, kept, List.map_append, hl,
    List.take_left]

theorem callsTo_new (h : l.Fits j n) : l.callsTo n = [] := by
  simp only [callsTo, List.map_eq_nil_iff, List.filter_eq_nil_iff, decide_eq_true_eq]
  intro m hm he
  exact absurd (h.called m hm) (by omega)

/-- The ledger goes by nothing else about the journal. -/
theorem congr (h : l.Fits j n) {k : Journal ι} (hr : k.replaying = false) (hl : k.limit = j.limit)
    (he : k.entries = j.entries) (hp : k.position = j.position) : l.Fits k n :=
  { h with
    idle := hr
    proper := hl ▸ h.proper
    entries := he.trans h.entries
    position := hp.trans h.position }

theorem setRunning (h : l.Fits j n) (o : Option (Nat × ι)) : { l with running := o }.Fits j n :=
  ⟨h.idle, h.proper, h.entries, h.position, h.older, h.apart, h.called, h.alternate, h.done,
    h.undone, h.latest⟩

theorem empty (h : l.Fits j n) :
    { l with done := [], undone := [], running := none }.Fits j.empty n where
  idle := h.idle
  proper := h.proper
  entries := rfl
  position := rfl
  older _ ho := absurd ho List.not_mem_nil
  apart := List.nodup_nil
  called := h.called
  alternate := h.alternate
  done _ ho := absurd ho List.not_mem_nil
  undone _ ho := absurd ho List.not_mem_nil
  latest := .nil

theorem record (h : l.Fits j n) (room : Nat) (x : ι) :
    { l with done := newest room (l.done ++ [(n, x)]), undone := [], running := none }.Fits
      { j with
        entries := newest room (j.done ++ [x])
        position := (newest room (j.done ++ [x])).length } (n + 1) := by
  have hmap : newest room (j.done ++ [x]) = (newest room (l.done ++ [(n, x)])).map (·.2) := by
    rw [h.done_eq, ← map_newest, List.map_append, List.map_singleton]
  have hmem {o : Nat × ι} (ho : o ∈ newest room (l.done ++ [(n, x)])) :
      o ∈ l.done ∨ o = (n, x) := by
    simpa using (newest_suffix room _).subset ho
  have hdone {o : Nat × ι} (ho : o ∈ l.done) : o ∈ l.kept := List.mem_append_left _ ho
  -- What is recorded is numbered by all that has happened, so no number comes twice.
  have hnew : n ∉ l.done.map (·.1) := by
    intro hn
    obtain ⟨o, ho, he⟩ := List.mem_map.1 hn
    exact absurd (h.older o (hdone ho)) (by omega)
  have hapart : ((l.done ++ [(n, x)]).map (·.1)).Nodup := by
    have hs : (l.done.map (·.1)).Nodup := h.apart.sublist ((List.sublist_append_left _ _).map _)
    rw [List.map_append, List.map_singleton, ← List.concat_eq_append]
    exact hs.concat hnew
  refine ⟨h.idle, h.proper, ?_, ?_, ?_, ?_, fun m hm ↦ Nat.lt_succ_of_lt (h.called m hm),
    h.alternate, ?_, fun _ ho ↦ absurd ho List.not_mem_nil, .nil⟩
  · simp [kept, hmap]
  · simp [hmap]
  · intro o ho
    rw [kept, List.append_nil] at ho
    rcases hmem ho with ho | rfl
    · exact Nat.lt_succ_of_lt (h.older o (hdone ho))
    · exact n.lt_succ_self
  · rw [kept, List.append_nil]
    exact hapart.sublist ((newest_suffix room _).sublist.map _)
  · intro o ho
    rcases hmem ho with ho | rfl
    · exact h.done o ho
    · show (l.callsTo n).head? ≠ some .undo
      simp [h.callsTo_new]

theorem ne_of_kept (h : l.Fits j n) {before behind : List (Nat × ι)} {o o' : Nat × ι}
    (hk : l.kept = before ++ o :: behind) (ho : o' ∈ before ∨ o' ∈ behind) : o.1 ≠ o'.1 := by
  have ha := h.apart
  rw [hk, List.map_append, List.map_cons, List.nodup_middle] at ha
  rw [← List.mem_append] at ho
  intro he
  apply (List.nodup_cons.1 ha).1
  rw [← List.map_append, he]
  exact List.mem_map_of_mem ho

theorem alternate_cons (h : l.Fits j n) {k : Nat} {way : Way}
    (hway : (l.callsTo k).head? ≠ some .undo ∧ way = .undo ∨
      (l.callsTo k).head? = some .undo ∧ way = .redo) :
    ∃ m, way :: l.callsTo k = alternating m := by
  obtain ⟨m, hm⟩ := h.alternate k
  rw [hm, ne_eq, head?_alternating] at hway
  rcases hway with ⟨ho, rfl⟩ | ⟨ho, rfl⟩
  · exact ⟨m + 1, by rw [hm, alternating, if_pos (by omega)]⟩
  · exact ⟨m + 1, by rw [hm, alternating, if_neg (by omega)]⟩

/-- A call to an occurrence whose turn it is leaves what is stored as it is. The occurrences before
that one stay in effect, and those behind it stay undone. -/
theorem call (h : l.Fits j n) {l' : Ledger ι} {before behind : List (Nat × ι)} {o : Nat × ι}
    {way : Way} (hk : l.kept = before ++ o :: behind) (hkept : l'.kept = l.kept)
    (hcalls : l'.calls = (o.1, way) :: l.calls) (hbefore : before ⊆ l.done)
    (hbehind : behind.Sublist l.undone)
    (hway : (l.callsTo o.1).head? ≠ some .undo ∧ way = .undo ∧ l'.done = before ∧
        l'.undone = o :: behind ∨
      (l.callsTo o.1).head? = some .undo ∧ way = .redo ∧ l'.done = before ++ [o] ∧
        l'.undone = behind)
    {k : Journal ι} (hr : k.replaying = false) (hl : k.limit = j.limit)
    (he : k.entries = j.entries) (hp : k.position = l'.done.length) : l'.Fits k n := by
  -- The one that is called is apart from all others, so that nothing changes for those.
  have hto (m : Nat) : l'.callsTo m = if o.1 = m then way :: l.callsTo m else l.callsTo m := by
    by_cases hm : o.1 = m
    · simp [callsTo, hcalls, hm]
    · simp [callsTo, hcalls, hm]
  have hsince (m : Nat) : l'.since m = if o.1 = m then 0 else l.since m + 1 := by
    by_cases hm : o.1 = m
    · simp [since, hcalls, List.findIdx_cons, hm]
    · simp [since, hcalls, List.findIdx_cons, hm]
  have hdone {o' : Nat × ι} (ho' : o' ∈ before) : (l'.callsTo o'.1).head? ≠ some .undo := by
    rw [hto, if_neg (h.ne_of_kept hk (.inl ho'))]
    exact h.done o' (hbefore ho')
  have hundone {o' : Nat × ι} (ho' : o' ∈ behind) : (l'.callsTo o'.1).head? = some .undo := by
    rw [hto, if_neg (h.ne_of_kept hk (.inr ho'))]
    exact h.undone o' (hbehind.subset ho')
  have hlatest : behind.Pairwise fun o o' ↦ l'.since o.1 < l'.since o'.1 := by
    refine (h.latest.sublist hbehind).imp_of_mem fun {a b} ha hb hab ↦ ?_
    rw [hsince, hsince, if_neg (h.ne_of_kept hk (.inr ha)), if_neg (h.ne_of_kept hk (.inr hb))]
    omega
  refine ⟨hr, hl ▸ h.proper, by rw [he, hkept, h.entries], hp, ?_, ?_, ?_, ?_, ?_, ?_, ?_⟩
  · rw [hkept]
    exact h.older
  · rw [hkept]
    exact h.apart
  · intro m hm
    rw [hcalls] at hm
    rcases List.mem_cons.1 hm with rfl | hm
    · exact h.older o (by simp [hk])
    · exact h.called m hm
  · intro m
    rw [hto]
    split
    · rename_i hm
      subst hm
      exact h.alternate_cons (hway.imp (fun hw ↦ ⟨hw.1, hw.2.1⟩) fun hw ↦ ⟨hw.1, hw.2.1⟩)
    · exact h.alternate m
  · intro o' ho'
    rcases hway with ⟨-, -, hd, -⟩ | ⟨-, rfl, hd, -⟩
    · exact hdone (hd ▸ ho')
    · rw [hd, List.mem_append, List.mem_singleton] at ho'
      rcases ho' with ho' | rfl
      · exact hdone ho'
      · simp [hto]
  · intro o' ho'
    rcases hway with ⟨-, rfl, -, hu⟩ | ⟨-, -, -, hu⟩
    · rw [hu, List.mem_cons] at ho'
      rcases ho' with rfl | ho'
      · simp [hto]
      · exact hundone ho'
    · exact hundone (hu ▸ ho')
  · rcases hway with ⟨-, -, -, hu⟩ | ⟨-, -, -, hu⟩
    · rw [hu]
      refine .cons (fun o' ho' ↦ ?_) hlatest
      rw [hsince, hsince, if_pos rfl, if_neg (h.ne_of_kept hk (.inr ho'))]
      omega
    · rw [hu]
      exact hlatest

theorem undo (h : l.Fits j n) {before : List (Nat × ι)} {o : Nat × ι}
    (hd : l.done = before ++ [o]) {k : Journal ι} (hr : k.replaying = false)
    (hl : k.limit = j.limit) (he : k.entries = j.entries) (hp : k.position = before.length) :
    (l.returned o .undo).Fits k n := by
  have hbefore : (l.returned o .undo).done = before := by rw [returned, hd, List.dropLast_concat]
  have hk : l.kept = before ++ o :: l.undone := by
    rw [kept, hd, List.append_assoc, List.singleton_append]
  refine h.call hk ?_ rfl (by simp [hd]) (.refl _) (.inl ⟨?_, rfl, hbefore, rfl⟩) hr hl he ?_
  · rw [hk, kept, hbefore]
    rfl
  · exact h.done o (by simp [hd])
  · rw [hp, hbefore]

theorem redo (h : l.Fits j n) {behind : List (Nat × ι)} {o : Nat × ι}
    (hu : l.undone = o :: behind) {k : Journal ι} (hr : k.replaying = false)
    (hl : k.limit = j.limit) (he : k.entries = j.entries) (hp : k.position = l.done.length + 1) :
    (l.returned o .redo).Fits k n := by
  have hbehind : (l.returned o .redo).undone = behind := congrArg List.tail hu
  have hdone : (l.returned o .redo).done = l.done ++ [o] := rfl
  have hk : l.kept = l.done ++ o :: behind := by rw [kept, hu]
  refine h.call hk ?_ rfl (List.Subset.refl _) (by simp [hu]) (.inr ⟨?_, rfl, hdone, hbehind⟩) hr
    hl he ?_
  · rw [hk, kept, hdone, hbehind, List.append_assoc, List.singleton_append]
  · exact h.undone o (by simp [hu])
  · simp [hp, hdone]

theorem todo_eq (h : l.Fits j n) : j.todo = l.undone.map (·.2) := by
  rw [Journal.todo, h.done_eq, h.entries, kept, List.map_append, List.drop_left]

theorem exists_last (h : l.Fits j n) {x : ι} (hu : j.canUndo = true) (hx : j.last? = some x) :
    ∃ before o, l.done = before ++ [o] ∧ o.2 = x := by
  rw [h.inRange.last?_eq hu, h.done_eq, List.getLast?_map, Option.map_eq_some_iff] at hx
  obtain ⟨o, ho, rfl⟩ := hx
  exact ⟨l.done.dropLast, o, (List.dropLast_append_getLast? o ho).symm, rfl⟩

theorem exists_next (h : l.Fits j n) {x : ι} (hx : j.next? = some x) :
    ∃ behind o, l.undone = o :: behind ∧ o.2 = x := by
  rw [h.inRange.next?_eq, h.todo_eq, List.head?_map, Option.map_eq_some_iff] at hx
  obtain ⟨o, ho, rfl⟩ := hx
  obtain ⟨behind, hu⟩ := List.head?_eq_some_iff.1 ho
  exact ⟨behind, o, hu, rfl⟩

end Fits

theorem mem_kept_of_next? {way : Way} {o : Nat × ι} (h : l.next? way = some o) : o ∈ l.kept := by
  cases way with
  | undo => exact List.mem_append_left _ (List.mem_of_getLast? h)
  | redo | restore => exact List.mem_append_right _ (List.mem_of_mem_head? h)

theorem mem_of_mem_returned {o o' : Nat × ι} {way : Way} (h : o' ∈ (l.returned o way).kept) :
    o' ∈ l.kept ∨ o' = o := by
  cases way with
  | undo =>
    rcases List.mem_append.1 h with h | h
    · exact .inl (List.mem_append_left _ (List.dropLast_subset _ h))
    · exact (List.mem_cons.1 h).symm.imp_left (List.mem_append_right _)
  | redo | restore =>
    rcases List.mem_append.1 h with h | h
    · exact (List.mem_append.1 h).imp (List.mem_append_left _) List.mem_singleton.1
    · exact .inl (List.mem_append_right _ (List.mem_of_mem_tail h))

/-- Nothing but what is recorded comes to be stored, and only code of what is stored is run. -/
theorem note_cases (h : ∀ o, l.running = some o → o ∈ l.kept) (m : Act ι ν × Journal ι) :
    (∀ o, (l.note n m).running = some o → o ∈ (l.note n m).kept) ∧
      ∀ o ∈ (l.note n m).kept, o ∈ l.kept ∨ o.1 = n := by
  obtain ⟨a, j⟩ := m
  cases a with
  | asked r =>
    cases r with
    | add x =>
      simp only [note]
      split
      · refine ⟨nofun, fun o ho ↦ ?_⟩
        rw [kept, List.append_nil] at ho
        rcases List.mem_append.1 ((newest_suffix _ _).subset ho) with ho | ho
        · exact .inl (List.mem_append_left _ ho)
        · exact .inr (List.mem_singleton.1 ho ▸ rfl)
      · exact ⟨h, fun _ ↦ .inl⟩
    | clear => exact ⟨nofun, nofun⟩
    | undo | redo | setEnabled v | setLimit v => exact ⟨h, fun _ ↦ .inl⟩
  | answered r fault => exact ⟨h, fun _ ↦ .inl⟩
  | announced k => exact ⟨h, fun _ ↦ .inl⟩
  | entered way x => exact ⟨fun _ ho ↦ mem_kept_of_next? ho, fun _ ↦ .inl⟩
  | left way x fault =>
    cases fault with
    | some e => exact ⟨nofun, fun _ ↦ .inl⟩
    | none =>
      simp only [note]
      cases hr : l.running with
      | none => exact ⟨fun o ho ↦ h o ho, fun _ ↦ .inl⟩
      | some o =>
        have hnone : (l.returned o way).running = none := by cases way <;> rfl
        refine ⟨fun o' ho' ↦ ?_, fun o' ho' ↦ ?_⟩
        · rw [Option.elim_some, hnone] at ho'
          cases ho'
        · rcases mem_of_mem_returned ho' with ho' | rfl
          · exact .inl ho'
          · exact .inl (h _ hr)

end Ledger

/-- What has been dropped does not come back. -/
theorem mem_kept_of_suffix {now earlier : List (Act ι ν × Journal ι)} (h : earlier <:+ now)
    {o : Nat × ι} (ho : o ∈ (ledger now).kept) (hn : o.1 < earlier.length) :
    o ∈ (ledger earlier).kept := by
  have hrunning (past : List (Act ι ν × Journal ι)) :
      ∀ o, (ledger past).running = some o → o ∈ (ledger past).kept := by
    induction past with
    | nil => exact nofun
    | cons m past ih => exact (Ledger.note_cases ih m).1
  obtain ⟨later, rfl⟩ := h
  induction later with
  | nil => exact ho
  | cons m later ih =>
    rcases (Ledger.note_cases (hrunning _) m).2 o ho with ho | ho
    · exact ih ho
    · have hl : o.1 = (later ++ earlier).length := ho
      rw [List.length_append] at hl
      omega

/-- Whatever code has been entered was that of the occurrence that was next. -/
def Aimed (past : List (Act ι ν × Journal ι)) : Prop :=
  ∀ way x j earlier, (.entered way x, j) :: earlier <:+ past →
    ∃ o, (ledger earlier).next? way = some o ∧ o.2 = x

namespace Aimed

variable {past : List (Act ι ν × Journal ι)} {m : Act ι ν × Journal ι}

theorem cons (h : Aimed past) (hm : ∀ way x, m.1 ≠ .entered way x) : Aimed (m :: past) := by
  intro way x j earlier hs
  rcases List.suffix_cons_iff.1 hs with he | hs
  · cases he
    exact absurd rfl (hm way x)
  · exact h way x j earlier hs

theorem enter (h : Aimed past) {way : Way} {x : ι} {j : Journal ι} {o : Nat × ι}
    (ho : (ledger past).next? way = some o) (hx : o.2 = x) :
    Aimed ((.entered way x, j) :: past) := by
  intro way' x' j' earlier hs
  rcases List.suffix_cons_iff.1 hs with he | hs
  · cases he
    exact ⟨o, ho, hx⟩
  · exact h way' x' j' earlier hs

end Aimed

/-- As long as the limits are proper, the ledger tells of the journal, and calls have been made to
the occurrences that were next. -/
def Stage.Accounted (s : Stage (Journal ι) ι ν) : Prop :=
  AllProper s.past → (ledger s.past).Fits s.history s.past.length ∧ Aimed s.past

namespace Stage.Accounted

variable {s t : Stage (Journal ι) ι ν}

theorem note (h : s.Accounted) {a : Act ι ν} (ha : ∀ way x, a ≠ .entered way x)
    (hl : (ledger s.past).note s.past.length (a, s.history) = ledger s.past) :
    (s.note a).Accounted := by
  intro hp
  obtain ⟨hfits, haimed⟩ := h fun m hm ↦ hp m (List.mem_cons_of_mem _ hm)
  refine ⟨?_, haimed.cons ha⟩
  rw [past_note, ledger, hl]
  exact hfits.mono (Nat.le_succ _)

theorem asked (h : s.Accounted) {r : Request ι}
    (hl : (ledger s.past).note s.past.length ((.asked r : Act ι ν), s.history) = ledger s.past) :
    (s.note (.asked r)).Accounted := h.note nofun hl

/-- A proper request changes the journal the way the ledger has it. -/
theorem change (h : s.Accounted) {r : Request ι} {f : Journal ι → Journal ι}
    (hf : r.Proper → (ledger s.past).Fits s.history s.past.length →
      (ledger (s.note (.asked r)).past).Fits (f s.history) (s.past.length + 1)) :
    ((s.note (.asked r)).update f).Accounted := by
  intro hp
  obtain ⟨hfits, haimed⟩ := h fun m hm ↦ hp m (List.mem_cons_of_mem _ hm)
  exact ⟨hf (hp _ List.mem_cons_self) hfits, haimed.cons (by nofun)⟩

theorem answered (h : s.Accounted) (r : Request ι) (fault : Option Fault) :
    (s.note (.answered r fault)).Accounted := h.note nofun rfl

theorem announced (h : s.Accounted) (n : ν) : (s.note (.announced n)).Accounted := h.note nofun rfl

end Stage.Accounted

/-- What is ignored is not accounted for. -/
theorem Stage.Idles.ledger_eq {s t : Stage (Journal ι) ι ν} (h : s.Idles t)
    (hs : s.history.replaying = true) :
    ledger t.past = ledger s.past ∧ s.past.length ≤ t.past.length ∧
      (AllProper t.past → AllProper s.past) ∧ (Aimed s.past → Aimed t.past) := by
  induction h with
  | still => exact ⟨rfl, Nat.le_refl _, id, id⟩
  | @ignored t x fault hi ih =>
    obtain ⟨hl, hn, hp, ha⟩ := ih
    have hr : t.history.replaying = true := hi.history_eq ▸ hs
    refine ⟨?_, ?_, fun hp' ↦ hp ?_, fun ha' ↦ ((ha ha').cons (by nofun)).cons (by nofun)⟩
    · simp [ledger, Ledger.note, hr, hl]
    · simp only [past_note, List.length_cons]
      omega
    · intro m hm
      exact hp' m (List.mem_cons_of_mem _ (List.mem_cons_of_mem _ hm))

namespace Journal

variable {c : Cast (Journal ι) ι (Notice ι)} {s : Stage (Journal ι) ι (Notice ι)} {n : Nat}

/-- The code of the occurrence that is next only records something, which is ignored. -/
theorem leads_enter_accounted (hcode : ∀ s way x, (c.code s way x).Adding)
    (hann : ∀ k, (c.announce (engine.serve c n) k).Keeps Stage.Accounted) (hs : s.Accounted)
    {r : Request ι} {way : Way} {x : ι} {d : Int}
    (hr : (ledger s.past).note s.past.length ((.asked r : Act ι (Notice ι)), s.history) =
      ledger s.past)
    (hnext : (ledger s.past).Fits s.history s.past.length →
      ∃ o, (ledger s.past).next? way = some o ∧ o.2 = x ∧
        ((ledger s.past).returned o way).Fits (s.history.move d) s.past.length) :
    (s.history.replayed way x d).Leads c (engine.serve c n) (s.note (.asked r)) Stage.Accounted
      (fun _ ↦ Stage.Accounted) True := by
  set start := ((s.note (.asked r)).update fun _ ↦ { s.history with replaying := true }).note
    (.entered way x) with hstart
  have hentered :
      ledger start.past = { ledger s.past with running := (ledger s.past).next? way } := by
    show ((ledger s.past).note _ _).note _ _ = _
    rw [hr]
    rfl
  have haimed (ha : Aimed s.past) (hf : (ledger s.past).Fits s.history s.past.length) :
      Aimed start.past := by
    obtain ⟨o, ho, hx, -⟩ := hnext hf
    refine (ha.cons (by nofun)).enter (o := o) ?_ hx
    rw [ledger, hr, ho]
  -- Whatever happens when the code is left, it is accounted for if the limits have been proper.
  have hleft {t : Stage (Journal ι) ι (Notice ι)} (ht : start.Idles t) {e : Option Fault}
      {f : Journal ι → Journal ι}
      (hf : (ledger s.past).Fits s.history s.past.length →
        ((ledger t.past).note t.past.length ((.left way x e : Act ι (Notice ι)), t.history)).Fits
          (f t.history) s.past.length) :
      ((t.note (.left way x e)).update f).Accounted := by
    intro hp
    obtain ⟨hl, hn, hproper, hta⟩ := ht.ledger_eq rfl
    have hproper := hproper fun m hm ↦ hp m (List.mem_cons_of_mem _ hm)
    obtain ⟨hfits, ha⟩ := hs fun m hm ↦
      hproper m (List.mem_cons_of_mem _ (List.mem_cons_of_mem _ hm))
    refine ⟨(hf hfits).mono ?_, (hta (haimed ha hfits)).cons (by nofun)⟩
    simp only [hstart, Stage.past_note, Stage.past_update, List.length_cons] at hn ⊢
    omega
  refine (Cast.leads_enter ..).2 ?_
  refine (prompt.idles (fun _ ↦ upshot_add_ignored (.inr rfl)) (hcode _ way x)).mono
    (fun _ t ht ↦ ?_) fun e t ht ↦ hleft ht fun hf ↦ ?_
  · have hdone : ((t.note (.left way x none)).update
        fun k ↦ ({ k with replaying := false } : Journal ι).move d).Accounted := by
      refine hleft ht fun hf ↦ ?_
      obtain ⟨o, ho, -, hfits⟩ := hnext hf
      obtain ⟨hl, -⟩ := ht.ledger_eq rfl
      have hreturned : (ledger t.past).note t.past.length
          ((.left way x none : Act ι (Notice ι)), t.history) = (ledger s.past).returned o way := by
        rw [hl, hentered, ho]
        cases way <;> rfl
      rw [hreturned, ht.history_eq]
      exact hfits.congr rfl rfl rfl rfl
    exact ⟨⟨hdone, fun _ _ _ ↦ hdone⟩, hann⟩
  · obtain ⟨hl, -⟩ := ht.ledger_eq rfl
    rw [hl, hentered, ht.history_eq]
    exact (hf.setRunning none).congr rfl rfl rfl rfl

theorem leads_accounted (hcode : ∀ s way x, (c.code s way x).Adding)
    (hann : ∀ k, (c.announce (engine.serve c n) k).Keeps Stage.Accounted) (hs : s.Accounted)
    (r : Request ι) :
    (s.history.upshot r).Leads c (engine.serve c n) (s.note (.asked r)) Stage.Accounted
      (fun _ ↦ Stage.Accounted) True := by
  have htold {t : Stage (Journal ι) ι (Notice ι)} (ht : t.Accounted) :
      Upshot.Told c Stage.Accounted (fun _ ↦ Stage.Accounted) t := ⟨ht, fun _ _ _ ↦ ht⟩
  cases r with
  | add x =>
    by_cases hi : s.history.enabled.truth = false ∨ s.history.replaying = true
    · rw [upshot_add_ignored hi]
      refine htold (hs.asked ?_)
      have hi : (s.history.enabled.truth && !s.history.replaying) = false := by
        rcases hi with hi | hi <;> simp [hi]
      simp [Ledger.note, hi]
    · obtain ⟨he, hr⟩ : s.history.enabled.truth = true ∧ s.history.replaying = false := by
        simpa using hi
      rw [upshot_add_recorded he hr]
      have hrecorded (hfits : (ledger s.past).Fits s.history s.past.length) :
          ∃ k, (s.history.push x).trim = .ok k ∧
            (ledger (s.note (.asked (.add x))).past).Fits k (s.past.length + 1) := by
        obtain ⟨room, hroom⟩ := Option.isSome_iff_exists.1 hfits.proper
        refine ⟨_, trim_push hroom x, ?_⟩
        simp only [Stage.past_note, ledger, Ledger.note, he, hr, hroom, Bool.not_false,
          Bool.and_true, if_true, Option.getD_some]
        exact (hfits.record room x).congr rfl rfl rfl rfl
      cases ht : (s.history.push x).trim with
      | ok k =>
        refine ⟨htold (hs.change fun _ hfits ↦ ?_), hann⟩
        obtain ⟨k', hk', hfits⟩ := hrecorded hfits
        rwa [← Except.ok.inj (ht.symm.trans hk')] at hfits
      | error e =>
        refine hs.change fun _ hfits ↦ ?_
        obtain ⟨k', hk', -⟩ := hrecorded hfits
        cases ht.symm.trans hk'
  | undo =>
    rcases s.history.upshot_undo with ⟨e, he⟩ | ⟨x, hu, hx, hup⟩
    · rw [he]
      exact hs.asked rfl
    · rw [hup]
      refine leads_enter_accounted hcode hann hs rfl fun hfits ↦ ?_
      obtain ⟨before, o, hd, ho⟩ := hfits.exists_last hu hx
      refine ⟨o, by simp [Ledger.next?, hd], ho, hfits.undo hd hfits.idle rfl rfl ?_⟩
      have hp := hfits.position
      simp only [hd, List.length_append, List.length_singleton] at hp
      simp only [move]
      omega
  | redo =>
    rcases s.history.upshot_redo with ⟨e, he⟩ | ⟨x, -, hx, hup⟩
    · rw [he]
      exact hs.asked rfl
    · rw [hup]
      refine leads_enter_accounted hcode hann hs rfl fun hfits ↦ ?_
      obtain ⟨behind, o, hu, ho⟩ := hfits.exists_next hx
      refine ⟨o, by simp [Ledger.next?, hu], ho, hfits.redo hu hfits.idle rfl rfl ?_⟩
      simp only [move, hfits.position]
  | clear => exact ⟨htold (hs.change fun _ hfits ↦ hfits.empty.mono (Nat.le_succ _)), hann⟩
  | setEnabled v =>
    exact htold (hs.change fun _ hfits ↦ (hfits.mono (Nat.le_succ _)).congr hfits.idle rfl rfl rfl)
  | setLimit v =>
    refine htold (hs.change fun hv hfits ↦ ?_)
    exact { hfits.mono (Nat.le_succ _) with proper := hv }

theorem serve_accounted (hcode : ∀ s way x, (c.code s way x).Adding) (n : Nat) (r : Request ι) :
    (engine.serve c n r).Keeps Stage.Accounted := by
  induction n generalizing r with
  | zero => exact fun _ _ ↦ trivial
  | succ n ih =>
    intro s hs
    -- Those who listen make their requests one level further down.
    have hann (k : Notice ι) : (c.announce (engine.serve c n) k).Keeps Stage.Accounted := by
      intro t ht
      rw [Cast.leads_announce]
      exact Script.play_keeps ih _ _ (ht.announced k)
    rw [Engine.leads_serve]
    refine (prompt c _ r _ Stage.Accounted (fun _ ↦ Stage.Accounted) True
      (leads_accounted hcode hann hs r)).mono (fun _ t ht ↦ ?_) fun e t ht ↦ ?_
    · exact ht.answered r none
    · exact ht.answered r (some e)

end Journal

/-- Whatever code works on a new journal, whatever those who listen ask for, and however the code of
edits fails, if that asks for nothing but to record something: no edit is undone or redone twice in
a row. The entries of the journal are those of the ledger. The calls to each occurrence that have
returned were to undo and to redo it in turn, and all calls were to the occurrence that was next.
What has been dropped does not come back. The occurrences behind the position are those that were
last undone, the latest first, so that they are redone in the reverse order, and the others are
not. -/
theorem undone_and_redone_in_turn {ι : Type} (c : Cast (Journal ι) ι (Journal.Notice ι)) (n : Nat)
    (limit : Value) (code : Script ι) (t : Stage (Journal ι) ι (Journal.Notice ι))
    (hl : limit.room?.isSome) (hcode : ∀ s way x, (c.code s way x).Adding)
    (ht : (code.play (Journal.engine.serve c n) ⟨{ limit }, []⟩).state? = some t)
    (hp : AllProper t.past) :
    (t.history.entries = (ledger t.past).kept.map (·.2) ∧
      t.history.position = (ledger t.past).done.length ∧ ((ledger t.past).kept.map (·.1)).Nodup) ∧
    (∀ k, ∃ m, (ledger t.past).callsTo k = alternating m) ∧
    (∀ way x j earlier, (.entered way x, j) :: earlier <:+ t.past →
      ∃ o ∈ (ledger earlier).kept, (ledger earlier).next? way = some o ∧ o.2 = x) ∧
    (∀ now earlier, now <:+ t.past → earlier <:+ now → ∀ o ∈ (ledger now).kept,
      o.1 < earlier.length → o ∈ (ledger earlier).kept) ∧
    (∀ o ∈ (ledger t.past).done, ((ledger t.past).callsTo o.1).head? ≠ some .undo) ∧
    (∀ o ∈ (ledger t.past).undone, ((ledger t.past).callsTo o.1).head? = some .undo) ∧
    (ledger t.past).undone.Pairwise fun o o' ↦
      (ledger t.past).since o.1 < (ledger t.past).since o'.1 := by
  have hstart : Stage.Accounted (⟨{ limit }, []⟩ : Stage (Journal ι) ι (Journal.Notice ι)) := by
    refine fun _ ↦
      ⟨⟨rfl, hl, rfl, rfl, nofun, .nil, nofun, fun _ ↦ ⟨0, rfl⟩, nofun, nofun, .nil⟩, ?_⟩
    exact fun way x j earlier hs ↦ absurd (List.suffix_nil.1 hs) (List.cons_ne_nil _ _)
  obtain ⟨hfits, haimed⟩ :=
    (Script.play_keeps (Journal.serve_accounted hcode n) code _ hstart).ended ht hp
  refine ⟨⟨hfits.entries, hfits.position, hfits.apart⟩, hfits.alternate,
    fun way x j earlier hs ↦ ?_, fun _ _ _ hs _ ho hn ↦ mem_kept_of_suffix hs ho hn,
    hfits.done, hfits.undone, hfits.latest⟩
  obtain ⟨o, ho, hx⟩ := haimed way x j earlier hs
  exact ⟨o, Ledger.mem_kept_of_next? ho, ho, hx⟩

/-- The code of edits records something, and that of three fails the first time. Those who hear that
two has been undone redo it. -/
def Journal.wavering : Cast (Journal Nat) Nat (Notice Nat) where
  code s _ x := .ask (.add 7) fun _ ↦
    if x = 3 ∧ s.past.all (·.1 ≠ .left .undo 3 (some (.scripted .null))) then
      .fail (.scripted .null)
    else .finish
  hears _
    | .undone 2 => .all [.redo]
    | _ => .finish
  describe _ _ := .ok .null
  same _ _ _ := false

theorem Journal.adding_wavering (s : Stage (Journal Nat) Nat (Notice Nat)) (way : Way) (x : Nat) :
    (wavering.code s way x).Adding := by
  refine .ask fun e ↦ ?_
  split
  · exact .fail _
  · exact .finish

/-- One is recorded twice and once dropped, two is undone and redone at once, and three is undone
the second time. -/
theorem undone_and_redone_in_turn_wavering :
    ∃ t : Stage (Journal Nat) Nat (Journal.Notice Nat),
      ((Script.all [.add 1, .add 1, .add 2, .add 3, .undo, .undo, .undo]).play
        (Journal.engine.serve Journal.wavering 3) ⟨{ limit := .int 3 }, []⟩).state? = some t ∧
      (ledger t.past).kept.map (·.2) = [1, 2, 3] ∧
      (ledger t.past).calls.map (·.2) = [.redo, .undo, .undo] ∧
      (∀ k, ∃ m, (ledger t.past).callsTo k = alternating m) ∧
      ∀ o ∈ (ledger t.past).undone, ((ledger t.past).callsTo o.1).head? = some .undo := by
  obtain ⟨t, ht, hp, he, hc⟩ : ∃ t ∈ ((Script.all [.add 1, .add 1, .add 2, .add 3, .undo, .undo,
      .undo]).play (Journal.engine.serve Journal.wavering 3) ⟨{ limit := .int 3 }, []⟩).state?,
      AllProper t.past ∧ t.history.entries = [1, 2, 3] ∧
        (ledger t.past).calls.map (·.2) = [.redo, .undo, .undo] := by decide +kernel
  obtain ⟨⟨hentries, -⟩, halternate, -, -, -, hundone, -⟩ :=
    undone_and_redone_in_turn _ _ _ _ t rfl Journal.adding_wavering ht hp
  exact ⟨t, ht, hentries.symm.trans he, hc, halternate, hundone⟩

end Rewind
