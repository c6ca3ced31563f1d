import Mathlib.Data.List.Chain
import Rewind.Proofs.Guard

namespace Rewind

open Session (Way)

namespace Timeline

variable {ι : Type} {same : ι → ι → Bool}

/-- No entry is the same as the next one. -/
def Spaced (same : ι → ι → Bool) (xs : List ι) : Prop := xs.IsChain fun x y ↦ same x y = false

theorem Spaced.start {xs ys : List ι} (h : Spaced same ys) (hp : xs <+: ys) : Spaced same xs := by
  obtain ⟨rest, rfl⟩ := hp
  exact List.IsChain.left_of_append h

theorem Spaced.rest {xs ys : List ι} (h : Spaced same ys) (hs : xs <:+ ys) : Spaced same xs := by
  obtain ⟨start, rfl⟩ := hs
  exact List.IsChain.right_of_append h

theorem past_starts (t : Timeline ι) : t.past <+: t.entries := by
  unfold past
  split
  · split
    · exact List.take_prefix _ _
    · exact List.nil_prefix
  · exact List.prefix_rfl

theorem trim_suffix {t u : Timeline ι} (h : t.trim = .ok u) : u.entries <:+ t.entries := by
  unfold trim at h
  cases he : t.limit.excess t.entries.length with
  | error e =>
    rw [he] at h
    cases h
  | ok n =>
    rw [he] at h
    cases h
    exact List.drop_suffix _ _

theorem Spaced.concat {xs : List ι} {x : ι} (h : Spaced same xs)
    (hx : ∀ y ∈ xs.getLast?, same y x = false) : Spaced same (xs ++ [x]) := by
  refine List.IsChain.append h (List.isChain_singleton x) ?_
  intro y hy z hz
  cases hz
  exact hx y hy

/-- A new entry takes the place of an equal one at the end. What stood before that differs from it,
and so from the new one. -/
theorem Spaced.push (he : Equivalence fun x y ↦ same x y = true) {t : Timeline ι}
    (h : Spaced same t.entries) (x : ι) : Spaced same (t.push same x).entries := by
  have hpast : Spaced same t.past := h.start t.past_starts
  show Spaced same (t.kept same x ++ [x])
  unfold kept
  cases hl : t.past.getLast? with
  | none =>
    rw [Option.any_none, if_neg Bool.false_ne_true]
    exact hpast.concat (by simp [hl])
  | some y =>
    rw [Option.any_some]
    have hp : t.past.dropLast ++ [y] = t.past := List.dropLast_append_getLast? y hl
    split
    · rename_i hyx
      have hchain : Spaced same (t.past.dropLast ++ [y]) := by rwa [hp]
      have hchain := List.isChain_append.1 hchain
      refine Spaced.concat hchain.1 ?_
      intro z hz
      have hzy : same z y = false := hchain.2.2 z hz y rfl
      cases hzx : same z x with
      | false => rfl
      | true => exact (he.trans hzx (he.symm hyx)).symm.trans hzy
    · rename_i hyx
      refine hpast.concat ?_
      intro z hz
      cases hl.symm.trans hz
      exact Bool.not_eq_true _ ▸ hyx

section Runs

variable {c : Cast (Timeline ι) ι (Notice ι)}
  {serve : Request ι → Run (Stage (Timeline ι) ι (Notice ι)) Unit}
  {s : Stage (Timeline ι) ι (Notice ι)}

/-- The entries are spaced, and have been each time something happened. -/
def AlwaysSpaced (same : ι → ι → Bool) (s : Stage (Timeline ι) ι (Notice ι)) : Prop :=
  Spaced same s.history.entries ∧ ∀ m ∈ s.past, Spaced same m.2.entries

namespace AlwaysSpaced

theorem note (h : AlwaysSpaced same s) (a : Act ι (Notice ι)) : AlwaysSpaced same (s.note a) := by
  refine ⟨h.1, ?_⟩
  intro m hm
  rcases List.mem_cons.1 hm with rfl | hm
  · exact h.1
  · exact h.2 m hm

theorem update (h : AlwaysSpaced same s) {f : Timeline ι → Timeline ι}
    (hf : Spaced same (f s.history).entries) : AlwaysSpaced same (s.update f) := ⟨hf, h.2⟩

theorem enter_keeps (hserve : ∀ r, (serve r).Keeps (AlwaysSpaced same)) (way : Way) (x : ι) :
    (c.enter serve way x).Keeps (AlwaysSpaced same) := by
  intro s hs
  rw [Cast.leads_enter]
  refine (Script.play_keeps hserve _ _ (hs.note _)).mono ?_ ?_
  · intro _ t ht
    exact ht.note _
  · intro e t ht
    exact ht.note _

theorem heard (hserve : ∀ r, (serve r).Keeps (AlwaysSpaced same)) :
    (c.timelineHost serve).Heard (AlwaysSpaced same) where
  announce n := by
    intro s hs
    rw [Cast.announce_timelineHost, Cast.leads_announce]
    exact Script.play_keeps hserve _ _ (hs.note _)
  log _ := .pure ()

theorem moveTo_keeps (hserve : ∀ r, (serve r).Keeps (AlwaysSpaced same)) (i : Int) :
    ((c.timelineHost serve).moveTo i).Keeps (AlwaysSpaced same) := by
  intro s hs
  apply Host.leads_moveTo
  · intro _
    exact hs
  · intro x _
    refine (enter_keeps hserve .restore x _
      (hs.update (f := ({ · with restoring := true })) hs.1)).mono ?_ ?_
    · intro _ t ht
      have hidle := ht.update (f := ({ · with restoring := false })) ht.1
      exact (heard hserve).leads_settle x (hidle.update (f := ({ · with pointer := i })) ht.1)
    · intro e t ht
      exact ht.update (f := ({ · with restoring := false })) ht.1

theorem handle_keeps (hsame : ∀ s, c.same s = same) (he : Equivalence fun x y ↦ same x y = true)
    (hserve : ∀ r, (serve r).Keeps (AlwaysSpaced same)) (r : Request ι) :
    ((c.timelineHost serve).handle r).Keeps (AlwaysSpaced same) := by
  intro s hs
  cases r with
  | add x =>
    have hpush : AlwaysSpaced same (s.update (·.push (c.same s) x)) :=
      hs.update (hsame s ▸ hs.1.push he x)
    apply (heard hserve).leads_add hs
    · intro t ht
      exact hpush.update (f := fun _ ↦ t) (hpush.1.rest (trim_suffix ht))
    · intro e _
      exact hpush
  | undo => exact Host.leads_undo (fun _ ↦ hs) fun _ _ ↦ moveTo_keeps hserve _ s hs
  | redo => exact Host.leads_redo (fun _ ↦ hs) fun _ ↦ moveTo_keeps hserve _ s hs
  | clear => exact (heard hserve).leads_clear (hs.update List.isChain_nil)
  | setEnabled v => exact hs.update (f := ({ · with enabled := v })) hs.1
  | setLimit v => exact hs.update (f := ({ · with limit := v })) hs.1

theorem serve_keeps (hsame : ∀ s, c.same s = same) (he : Equivalence fun x y ↦ same x y = true)
    (n : Nat) (r : Request ι) : (engine.serve c n r).Keeps (AlwaysSpaced same) := by
  induction n generalizing r with
  | zero => exact fun _ _ ↦ trivial
  | succ n ih =>
    intro s hs
    rw [Engine.leads_serve]
    refine (handle_keeps hsame he ih r _ (hs.note _)).mono ?_ ?_
    · intro _ t ht
      exact ht.note _
    · intro e t ht
      exact ht.note _

end AlwaysSpaced

end Runs

/-- Whatever code works on a new timeline, through whatever code of its states and of its listeners,
and however that fails: as long as being the same is an equivalence that stays what it is, no two
neighbours among the entries are ever the same, whatever limits are set. -/
theorem neighbours_differ (c : Cast (Timeline ι) ι (Notice ι)) (hsame : ∀ s, c.same s = same)
    (he : Equivalence fun x y ↦ same x y = true) (n : Nat) (limit : Value) (code : Script ι)
    (t : Stage (Timeline ι) ι (Notice ι))
    (ht : (code.play (engine.serve c n) ⟨{ limit }, []⟩).state? = some t) :
    (∀ i x y, t.history.entries[i]? = some x → t.history.entries[i + 1]? = some y →
      same x y = false) ∧
    ∀ m ∈ t.past, ∀ i x y, m.2.entries[i]? = some x → m.2.entries[i + 1]? = some y →
      same x y = false := by
  have hstart : AlwaysSpaced same (⟨{ limit }, []⟩ : Stage (Timeline ι) ι (Notice ι)) :=
    ⟨List.isChain_nil, fun _ hm ↦ absurd hm List.not_mem_nil⟩
  have hend : AlwaysSpaced same t :=
    (Script.play_keeps (AlwaysSpaced.serve_keeps hsame he n) code _ hstart).ended ht
  have hnext {xs : List ι} (hs : Spaced same xs) (i : Nat) (x y : ι) (hx : xs[i]? = some x)
      (hy : xs[i + 1]? = some y) : same x y = false := by
    obtain ⟨_, rfl⟩ := List.getElem?_eq_some_iff.1 hx
    obtain ⟨hi, rfl⟩ := List.getElem?_eq_some_iff.1 hy
    exact List.IsChain.getElem hs i hi
  exact ⟨hnext hend.1, fun m hm ↦ hnext (hend.2 m hm)⟩

end Timeline

/-- Numbers with the same last digit are equal, and those from twenty on cannot be described. What
is restored goes back once more, and records something after that. -/
def Cast.digits {ε ν : Type} : Cast ε Nat ν := { Cast.steppingBack with
  describe := fun _ x ↦ if x < 20 then .ok .null else .error .outOfRange
  same := fun _ a b ↦ a % 10 == b % 10 }

/-- What a limit that is none leaves behind is spaced, too. -/
theorem Timeline.neighbours_differ_overgrown :
    let rs : List (Request Nat) :=
      [.add 1, .add 2, .add 14, .undo, .setLimit (.text "two"), .add 22, .add 31]
    ∃ t : Stage (Timeline Nat) Nat (Notice Nat),
      ((Script.all rs).play (engine.serve Cast.digits 3) ⟨{ limit := .int 3 }, []⟩).state? =
        some t ∧
      t.history.entries = [1, 22, 31] ∧ t.history.pointer = 1 ∧
      ∀ i x y, t.history.entries[i]? = some x → t.history.entries[i + 1]? = some y →
        (x % 10 == y % 10) = false := by
  intro rs
  obtain ⟨t, ht, he, hp⟩ : ∃ t ∈ ((Script.all rs).play (engine.serve Cast.digits 3)
      ⟨{ limit := .int 3 }, []⟩).state?,
      t.history.entries = [1, 22, 31] ∧ t.history.pointer = 1 := by decide +kernel
  have hequiv : Equivalence fun x y : Nat ↦ (x % 10 == y % 10) = true := by
    simp only [beq_iff_eq]
    exact ⟨fun _ ↦ rfl, Eq.symm, Eq.trans⟩
  exact ⟨t, ht, he, hp, (neighbours_differ Cast.digits (fun _ ↦ rfl) hequiv 3 _ _ t ht).1⟩

end Rewind
