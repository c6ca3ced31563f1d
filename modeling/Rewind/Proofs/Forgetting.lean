import Rewind.Proofs.Reel

namespace Rewind

open Session (Way)

variable {ε ι ν : Type}

def Request.setsLimit : Request ι → Bool
  | .setLimit _ => true
  | _ => false

/-- Whether a history can do what a request asks for, given whether it can undo and redo. -/
def Request.feasible (canUndo canRedo : Bool) : Request ι → Bool
  | .undo => canUndo
  | .redo => canRedo
  | _ => true

/-- A history that meets requests one after the other can do what each of them asks for. -/
def Feasible (serve : Request ι → Run (Stage ε ι ν) Unit) (able : ε → Request ι → Bool) :
    List (Request ι) → Stage ε ι ν → Prop
  | [], _ => True
  | r :: rs, s => able s.history r = true ∧
      ∀ t, (serve r s).state? = some t → Feasible serve able rs t

instance Feasible.decidable (serve : Request ι → Run (Stage ε ι ν) Unit)
    (able : ε → Request ι → Bool) : ∀ rs s, Decidable (Feasible serve able rs s)
  | [], _ => .isTrue trivial
  | r :: rs, s =>
    match h : (serve r s).state? with
    | none => decidable_of_iff (able s.history r = true) (by simp [Feasible, h])
    | some t =>
      have := Feasible.decidable serve able rs t
      decidable_of_iff (able s.history r = true ∧ Feasible serve able rs t) (by simp [Feasible, h])

/-- If a relation of two histories survives each request that both meet, and each limit that is set
for the first one alone, then it survives any row of requests. -/
theorem Feasible.exists_played {serve : Request ι → Run (Stage ε ι ν) Unit}
    {able : ε → Request ι → Bool} {R : Stage ε ι ν → Stage ε ι ν → Prop}
    {P : Request ι → Prop} {s u : Stage ε ι ν} {rs : List (Request ι)}
    (hf : Feasible serve able rs s)
    (hlimit : ∀ {s u r}, R s u → P r → r.setsLimit = true →
      ∃ s', serve r s = .returned () s' ∧ R s' u)
    (hboth : ∀ {s u r}, R s u → r.setsLimit = false → able s.history r = true →
      ∃ s' u', serve r s = .returned () s' ∧ serve r u = .returned () u' ∧ R s' u')
    (hr : ∀ r ∈ rs, P r) (h : R s u) :
    ∃ s' u', (Script.all rs).play serve s = .returned () s' ∧
      (Script.all (rs.filter (!·.setsLimit))).play serve u = .returned () u' ∧ R s' u' := by
  induction rs generalizing s u with
  | nil => exact ⟨s, u, rfl, rfl, h⟩
  | cons r rs ih =>
    obtain ⟨ha, hf⟩ := hf
    have hrs : ∀ r ∈ rs, P r := fun q hq ↦ hr q (List.mem_cons_of_mem r hq)
    cases hl : r.setsLimit with
    | true =>
      obtain ⟨s₁, hs, h⟩ := hlimit h (hr r List.mem_cons_self) hl
      obtain ⟨s', u', hs', hu', h⟩ := ih (hf s₁ (by rw [hs]; rfl)) hrs h
      refine ⟨s', u', (Script.play_all_cons hs).trans hs', ?_, h⟩
      rwa [List.filter_cons_of_neg (by simp [hl])]
    | false =>
      obtain ⟨s₁, u₁, hs, hu, h⟩ := hboth h hl ha
      obtain ⟨s', u', hs', hu', h⟩ := ih (hf s₁ (by rw [hs]; rfl)) hrs h
      refine ⟨s', u', (Script.play_all_cons hs).trans hs', ?_, h⟩
      rw [List.filter_cons_of_pos (by simp [hl])]
      exact (Script.play_all_cons hu).trans hu'

section Journal

/-- The same two stacks, but for the oldest edits in effect, in a machine without a limit. -/
structure Stacks.Forgets (b u : Stacks ι) : Prop where
  done : b.done <:+ u.done
  todo : b.todo = u.todo
  enabled : b.enabled = u.enabled
  unlimited : u.room = 0

namespace Stacks.Forgets

variable {b u : Stacks ι}

theorem step (h : b.Forgets u) {r : Request ι} (hl : r.setsLimit = false)
    (ha : r.feasible (!b.done.isEmpty) (!b.todo.isEmpty) = true) :
    b.fault? r = none ∧ u.fault? r = none ∧ (b.step r).Forgets (u.step r) ∧
      b.calls r = u.calls r := by
  cases r with
  | add x =>
    refine ⟨rfl, rfl, ?_, rfl⟩
    cases he : u.enabled with
    | false => simpa [Stacks.step, h.enabled, he] using h
    | true =>
      simp only [Stacks.step, h.enabled, he, if_true]
      refine ⟨?_, rfl, rfl, h.unlimited⟩
      rw [h.unlimited, newest_zero]
      exact (newest_suffix _ _).trans (List.suffix_append_self_iff.2 h.done)
  | undo =>
    -- The edits forgotten are the oldest, so the newest is the same as long as there is one.
    obtain ⟨older, hdone⟩ := h.done
    have hne : b.done ≠ [] := by simpa [Request.feasible] using ha
    obtain ⟨done, x, hb⟩ := b.done.eq_nil_or_concat.resolve_left hne
    rw [List.concat_eq_append] at hb
    rw [hb, ← List.append_assoc] at hdone
    have hu : u.done ≠ [] := by simp [← hdone]
    refine ⟨by simp [Stacks.fault?, hb], by simp [Stacks.fault?, hu], ?_, ?_⟩
    · simp only [Stacks.step, hb, ← hdone, List.getLast?_concat, List.dropLast_concat]
      exact ⟨List.suffix_append older done, by rw [h.todo], h.enabled, h.unlimited⟩
    · simp [Stacks.calls, hb, ← hdone]
  | redo =>
    have hb : b.todo ≠ [] := by simpa [Request.feasible] using ha
    obtain ⟨x, todo, hb⟩ := List.exists_cons_of_ne_nil hb
    have hu : u.todo = x :: todo := h.todo.symm.trans hb
    refine ⟨by simp [Stacks.fault?, hb], by simp [Stacks.fault?, hu], ?_, ?_⟩
    · simp only [Stacks.step, hb, hu]
      exact ⟨List.suffix_append_self_iff.2 h.done, rfl, h.enabled, h.unlimited⟩
    · simp [Stacks.calls, hb, hu]
  | clear => exact ⟨rfl, rfl, ⟨List.suffix_refl _, rfl, h.enabled, h.unlimited⟩, rfl⟩
  | setEnabled v => exact ⟨rfl, rfl, ⟨h.done, h.todo, rfl, h.unlimited⟩, rfl⟩
  | setLimit v => cases hl

theorem setLimit (h : b.Forgets u) {r : Request ι} (hl : r.setsLimit = true) :
    b.fault? r = none ∧ (b.step r).Forgets u ∧ b.calls r = [] := by
  cases r with
  | setLimit v => exact ⟨rfl, ⟨h.done, h.todo, h.enabled, h.unlimited⟩, rfl⟩
  | add | undo | redo | clear | setEnabled => cases hl

end Stacks.Forgets

variable {c : Cast (Journal ι) ι (Journal.Notice ι)}

theorem Journal.Holds.exists_served {m : Stacks ι} {s : Stage (Journal ι) ι (Journal.Notice ι)}
    (hs : s.history.Holds m) (hc : c.Quiet) (n : Nat) {r : Request ι} (hr : r.Proper)
    (hf : m.fault? r = none) :
    ∃ t, Journal.engine.serve c (n + 1) r s = .returned () t ∧ t.history.Holds (m.step r) ∧
      t.calls = s.calls ++ m.calls r := by
  have hq : (s.note (.asked r)).history.Holds m := hs
  have hlead : (Journal.engine.serve c (n + 1) r).Leads s (fun _ t ↦
      t.history.Holds (m.step r) ∧ t.calls = s.calls ++ m.calls r) (fun _ _ ↦ False) False := by
    rw [Engine.leads_serve]
    refine (hq.leads_handle hc hr).mono (fun _ t ht ↦ ⟨ht.2.holds, ?_⟩) (fun e t ht ↦ ?_)
    · simp [ht.2.calls]
    · rw [hf] at ht
      cases ht.1
  obtain ⟨_, t, ht, hu⟩ := hlead.exists_returned
  exact ⟨t, ht, hu⟩

/-- Two journals hold the same two stacks, but for the oldest edits in effect, and the same code has
run. -/
def Journal.Abreast (s u : Stage (Journal ι) ι (Journal.Notice ι)) : Prop :=
  ∃ b m : Stacks ι, s.history.Holds b ∧ u.history.Holds m ∧ b.Forgets m ∧ s.calls = u.calls

def Journal.able (j : Journal ι) (r : Request ι) : Bool := r.feasible j.canUndo j.canRedo

theorem Request.proper_of_not_setsLimit {r : Request ι} (h : r.setsLimit = false) : r.Proper := by
  cases r with
  | setLimit v => cases h
  | add | undo | redo | clear | setEnabled => trivial

namespace Journal.Abreast

variable {s u : Stage (Journal ι) ι (Journal.Notice ι)} {r : Request ι}

theorem setLimit (h : Abreast s u) (hc : c.Quiet) (n : Nat) (hr : r.Proper)
    (hl : r.setsLimit = true) :
    ∃ s', Journal.engine.serve c (n + 1) r s = .returned () s' ∧ Abreast s' u := by
  obtain ⟨b, m, hs, hu, hf, hcalls⟩ := h
  obtain ⟨hfault, hf, hnone⟩ := hf.setLimit hl
  obtain ⟨s', hs', hh, hc'⟩ := hs.exists_served hc n hr hfault
  exact ⟨s', hs', _, m, hh, hu, hf, by rw [hc', hnone, List.append_nil, hcalls]⟩

theorem both (h : Abreast s u) (hc : c.Quiet) (n : Nat) (hl : r.setsLimit = false)
    (ha : s.history.able r = true) :
    ∃ s' u', Journal.engine.serve c (n + 1) r s = .returned () s' ∧
      Journal.engine.serve c (n + 1) r u = .returned () u' ∧ Abreast s' u' := by
  obtain ⟨b, m, hs, hu, hf, hcalls⟩ := h
  rw [able, hs.canUndo_eq, hs.canRedo_eq] at ha
  obtain ⟨hb, hm, hf, he⟩ := hf.step hl ha
  have hr := Request.proper_of_not_setsLimit hl
  obtain ⟨s', hs', hh, hc'⟩ := hs.exists_served hc n hr hb
  obtain ⟨u', hu', hh', hc''⟩ := hu.exists_served hc n hr hm
  exact ⟨s', u', hs', hu', _, _, hh, hh', hf, by rw [hc', hc'', hcalls, he]⟩

theorem exists_drop (h : Abreast s u) :
    ∃ k : Nat, s.history.entries = u.history.entries.drop k ∧
      s.history.position = u.history.position - k ∧ s.history.canRedo = u.history.canRedo ∧
      s.calls = u.calls := by
  obtain ⟨b, m, hs, hu, hf, hcalls⟩ := h
  obtain ⟨older, hdone⟩ := hf.done
  refine ⟨older.length, ?_, ?_, ?_, hcalls⟩
  · rw [hs.entries, hu.entries, ← hdone, hf.todo, List.append_assoc, List.drop_left]
  · rw [hs.position, hu.position, ← hdone, List.length_append]
    omega
  · rw [hs.canRedo_eq, hu.canRedo_eq, hf.todo]

end Journal.Abreast

end Journal

section Timeline

namespace Strip

/-- The same strip, but for the oldest of the states before the one shown. -/
inductive Forgets : Strip ι → Strip ι → Prop
  | blank : Forgets blank blank
  | showing {before before' : List ι} (h : before <:+ before') (x : ι) (after : List ι) :
    Forgets (showing before x after) (showing before' x after)

@[simp]
theorem ofList_concat (xs : List ι) (x : ι) : ofList (xs ++ [x]) = showing xs x [] := by
  simp [ofList]

theorem kept_suffix {xs ys : List ι} (h : xs <:+ ys) (same : ι → ι → Bool) (x : ι) :
    kept same x xs <:+ kept same x ys := by
  rcases xs.eq_nil_or_concat with rfl | ⟨xs, z, rfl⟩
  · exact List.nil_suffix
  · obtain ⟨older, rfl⟩ := h
    rw [List.concat_eq_append, ← List.append_assoc]
    simp only [kept, List.getLast?_concat, List.dropLast_concat]
    split
    · exact List.suffix_append older xs
    · exact List.suffix_append_self_iff.2 (List.suffix_append older xs)

namespace Forgets

variable {a b : Strip ι}

theorem shown?_eq (h : a.Forgets b) : a.shown? = b.shown? := by
  cases h <;> rfl

/-- Where the strip with fewer states shows the first of them, and drops it with the later ones, the
other one may still have some to keep. -/
theorem past_suffix (h : a.Forgets b) : a.past <:+ b.past := by
  cases h with
  | blank => exact List.suffix_refl []
  | @showing before before' h x after =>
    have hx : before ++ [x] <:+ before' ++ [x] := List.suffix_append_self_iff.2 h
    cases after with
    | nil => cases before <;> cases before' <;> exact hx
    | cons y after =>
      cases before with
      | nil => exact List.nil_suffix
      | cons z before =>
        cases before' with
        | nil => cases List.suffix_nil.1 h
        | cons z' before' => exact hx

theorem back? (h : a.Forgets b) {a' : Strip ι} (ha : a.back? = some a') :
    ∃ b', b.back? = some b' ∧ a'.Forgets b' := by
  cases h with
  | blank => cases ha
  | @showing before before' h x after =>
    obtain ⟨older, rfl⟩ := h
    rcases before.eq_nil_or_concat with rfl | ⟨before, y, rfl⟩
    · cases ha
    · rw [List.concat_eq_append] at ha ⊢
      simp only [Strip.back?, ← List.append_assoc, List.getLast?_concat, List.dropLast_concat,
        Option.map_some, Option.some.injEq] at ha ⊢
      subst ha
      exact ⟨_, rfl, .showing (List.suffix_append older before) y (x :: after)⟩

theorem forth? (h : a.Forgets b) {a' : Strip ι} (ha : a.forth? = some a') :
    ∃ b', b.forth? = some b' ∧ a'.Forgets b' := by
  cases h with
  | blank => cases ha
  | showing h x after =>
    cases after with
    | nil => cases ha
    | cons y after =>
      cases ha
      exact ⟨_, rfl, .showing (List.suffix_append_self_iff.2 h) y after⟩

theorem isSome_forth?_eq (h : a.Forgets b) : a.forth?.isSome = b.forth?.isSome := by
  cases h with
  | blank => rfl
  | showing h x after => cases after <;> rfl

theorem exists_drop (h : a.Forgets b) :
    ∃ k : Nat, a.entries = b.entries.drop k ∧ a.pointer = b.pointer - k := by
  cases h with
  | blank => exact ⟨0, rfl, rfl⟩
  | showing h x after =>
    obtain ⟨older, rfl⟩ := h
    refine ⟨older.length, ?_, ?_⟩
    · rw [entries, entries, List.append_assoc, List.drop_left]
    · rw [pointer, pointer, List.length_append]
      omega

end Forgets

end Strip

/-- The same reel, but for the oldest states, that has no limit while the other one has. -/
structure Reel.Forgets (b u : Reel ι) : Prop where
  strip : b.strip.Forgets u.strip
  enabled : b.enabled = u.enabled
  limited : 0 ≤ b.limit
  unlimited : u.limit = 0

namespace Reel.Forgets

variable {b u : Reel ι}

theorem step (h : b.Forgets u) (same : ι → ι → Bool) {r : Request ι} (hl : r.setsLimit = false)
    (ha : r.feasible b.strip.back?.isSome b.strip.forth?.isSome = true) :
    (b.step same r).Forgets (u.step same r) ∧ b.calls r = u.calls r := by
  cases r with
  | add x =>
    refine ⟨?_, rfl⟩
    cases he : u.enabled with
    | false => simpa [Reel.step, h.enabled, he] using h
    | true =>
      obtain ⟨ys, hys, hsuffix⟩ := exists_latest_append h.limited (Strip.kept same x b.strip.past) x
      simp only [Reel.step, h.enabled, he, if_true, h.unlimited, hys]
      refine ⟨?_, rfl, h.limited, rfl⟩
      rw [Strip.ofList_concat, latest, if_neg (by decide), Int.toNat_zero, newest_zero,
        Strip.ofList_concat]
      exact .showing (hsuffix.trans (Strip.kept_suffix h.strip.past_suffix same x)) x []
  | undo =>
    obtain ⟨strip, hb⟩ := Option.isSome_iff_exists.1 ha
    obtain ⟨strip', hu, hf⟩ := h.strip.back? hb
    simp only [Reel.step, Reel.calls, hb, hu, Option.getD_some, Option.bind_some, hf.shown?_eq]
    exact ⟨⟨hf, h.enabled, h.limited, h.unlimited⟩, trivial⟩
  | redo =>
    obtain ⟨strip, hb⟩ := Option.isSome_iff_exists.1 ha
    obtain ⟨strip', hu, hf⟩ := h.strip.forth? hb
    simp only [Reel.step, Reel.calls, hb, hu, Option.getD_some, Option.bind_some, hf.shown?_eq]
    exact ⟨⟨hf, h.enabled, h.limited, h.unlimited⟩, trivial⟩
  | clear => exact ⟨⟨.blank, h.enabled, h.limited, h.unlimited⟩, rfl⟩
  | setEnabled v => exact ⟨⟨h.strip, rfl, h.limited, h.unlimited⟩, rfl⟩
  | setLimit v => cases hl

theorem setLimit (h : b.Forgets u) (same : ι → ι → Bool) {r : Request ι} (hr : r.Proper)
    (hl : r.setsLimit = true) : (b.step same r).Forgets u ∧ b.calls r = [] := by
  cases r with
  | setLimit v =>
    obtain ⟨room, hv⟩ := Option.isSome_iff_exists.1 hr
    refine ⟨⟨h.strip, h.enabled, ?_, h.unlimited⟩, rfl⟩
    simp [Reel.step, Value.bound_of_room hv]
  | add | undo | redo | clear | setEnabled => cases hl

end Reel.Forgets

/-- Two timelines show the same strip, but for the oldest states, and the same code has run. -/
def Timeline.Abreast (s u : Stage (Timeline ι) ι (Timeline.Notice ι)) : Prop :=
  ∃ b m : Reel ι, s.history.Shows b ∧ u.history.Shows m ∧ b.Forgets m ∧ s.calls = u.calls

def Timeline.able (t : Timeline ι) (r : Request ι) : Bool := r.feasible t.canUndo t.canRedo

namespace Timeline.Abreast

variable {c : Cast (Timeline ι) ι (Timeline.Notice ι)}
  {s u : Stage (Timeline ι) ι (Timeline.Notice ι)} {r : Request ι}

theorem setLimit (h : Abreast s u) (hc : c.Quiet) (n : Nat) (hr : r.Proper)
    (hl : r.setsLimit = true) :
    ∃ s', Timeline.engine.serve c (n + 1) r s = .returned () s' ∧ Abreast s' u := by
  obtain ⟨b, m, hs, hu, hf, hcalls⟩ := h
  obtain ⟨s', hs', hh, hc', -⟩ := hs.exists_served hc n hr.whole
  obtain ⟨hf, hnone⟩ := hf.setLimit _ hr hl
  exact ⟨s', hs', _, m, hh, hu, hf, by rw [hc', hnone, List.append_nil, hcalls]⟩

theorem both (h : Abreast s u) (hc : c.Quiet) (hsame : ∀ s t, c.same s = c.same t) (n : Nat)
    (hl : r.setsLimit = false) (ha : s.history.able r = true) :
    ∃ s' u', Timeline.engine.serve c (n + 1) r s = .returned () s' ∧
      Timeline.engine.serve c (n + 1) r u = .returned () u' ∧ Abreast s' u' := by
  obtain ⟨b, m, hs, hu, hf, hcalls⟩ := h
  rw [able, hs.canUndo_eq, hs.canRedo_eq] at ha
  have hr := (Request.proper_of_not_setsLimit hl).whole
  obtain ⟨s', hs', hh, hc', -⟩ := hs.exists_served hc n hr
  obtain ⟨u', hu', hh', hc'', -⟩ := hu.exists_served hc n hr
  -- Equal states are told alike although the two stages differ.
  rw [hsame (u.note (.asked r)) (s.note (.asked r))] at hh'
  obtain ⟨hf, he⟩ := hf.step _ hl ha
  exact ⟨s', u', hs', hu', _, _, hh, hh', hf, by rw [hc', hc'', hcalls, he]⟩

theorem exists_drop (h : Abreast s u) :
    ∃ k : Nat, s.history.entries = u.history.entries.drop k ∧
      s.history.pointer = u.history.pointer - k ∧ s.history.canRedo = u.history.canRedo ∧
      s.calls = u.calls := by
  obtain ⟨b, m, hs, hu, hf, hcalls⟩ := h
  obtain ⟨k, he, hp⟩ := hf.strip.exists_drop
  refine ⟨k, ?_, ?_, ?_, hcalls⟩
  · rw [hs.entries, hu.entries, he]
  · rw [hs.pointer, hu.pointer, hp]
  · rw [hs.canRedo_eq, hu.canRedo_eq, hf.strip.isSome_forth?_eq]

end Timeline.Abreast

end Timeline

/-- A limit only forgets. Two new histories are asked the same, except that the first one has limits
set for it and the other one never has any, and nothing is to be undone or redone that the first one
cannot. Then the first one has what the other one has without the oldest entries, it is at the same
one of them, and the same has been undone, redone and restored. -/
theorem limit_only_forgets (n : Nat) (limit : Value) (hl : limit.room?.isSome)
    (rs : List (Request ι)) (hr : ∀ r ∈ rs, r.Proper) :
    (∀ c : Cast (Journal ι) ι (Journal.Notice ι), c.Quiet →
      Feasible (Journal.engine.serve c (n + 1)) Journal.able rs ⟨{ limit }, []⟩ →
      ∃ b u, ∃ k : Nat,
        (Script.all rs).play (Journal.engine.serve c (n + 1)) ⟨{ limit }, []⟩ = .returned () b ∧
        (Script.all (rs.filter (!·.setsLimit))).play (Journal.engine.serve c (n + 1)) ⟨{}, []⟩ =
          .returned () u ∧
        b.history.entries = u.history.entries.drop k ∧
        b.history.position = u.history.position - k ∧
        b.history.canRedo = u.history.canRedo ∧ b.calls = u.calls) ∧
    ∀ c : Cast (Timeline ι) ι (Timeline.Notice ι), c.Quiet → (∀ s t, c.same s = c.same t) →
      Feasible (Timeline.engine.serve c (n + 1)) Timeline.able rs ⟨{ limit }, []⟩ →
      ∃ b u, ∃ k : Nat,
        (Script.all rs).play (Timeline.engine.serve c (n + 1)) ⟨{ limit }, []⟩ = .returned () b ∧
        (Script.all (rs.filter (!·.setsLimit))).play (Timeline.engine.serve c (n + 1)) ⟨{}, []⟩ =
          .returned () u ∧
        b.history.entries = u.history.entries.drop k ∧
        b.history.pointer = u.history.pointer - k ∧
        b.history.canRedo = u.history.canRedo ∧ b.calls = u.calls := by
  obtain ⟨room, hroom⟩ := Option.isSome_iff_exists.1 hl
  constructor
  · intro c hc hf
    have hstart : Journal.Abreast ⟨{ limit }, []⟩ (⟨{}, []⟩ : Stage (Journal ι) ι _) :=
      ⟨{ room }, {}, ⟨rfl, rfl, hroom, rfl, rfl⟩, ⟨rfl, rfl, rfl, rfl, rfl⟩,
        ⟨List.suffix_refl [], rfl, rfl, rfl⟩, rfl⟩
    obtain ⟨b, u, hb, hu, h⟩ := hf.exists_played (fun h hr hl ↦ h.setLimit hc n hr hl)
      (fun h hl ha ↦ h.both hc n hl ha) hr hstart
    obtain ⟨k, hk⟩ := h.exists_drop
    exact ⟨b, u, k, hb, hu, hk⟩
  · intro c hc hsame hf
    have hstart : Timeline.Abreast ⟨{ limit }, []⟩ (⟨{}, []⟩ : Stage (Timeline ι) ι _) :=
      ⟨{ limit := room }, {}, ⟨rfl, rfl, Value.bound_of_room hroom, rfl, rfl⟩,
        ⟨rfl, rfl, rfl, rfl, rfl⟩, ⟨.blank, rfl, Int.natCast_nonneg room, rfl⟩, rfl⟩
    obtain ⟨b, u, hb, hu, h⟩ := hf.exists_played (fun h hr hl ↦ h.setLimit hc n hr hl)
      (fun h hl ha ↦ h.both hc hsame n hl ha) hr hstart
    obtain ⟨k, hk⟩ := h.exists_drop
    exact ⟨b, u, k, hb, hu, hk⟩

/-- The second history still has a state before the one shown, that the new one is equal to, where
the first history has forgotten it and starts over. Then the limit is lowered while there is
something to redo. -/
theorem limit_only_forgets_wiped :
    let rs : List (Request Nat) := [.add 1, .add 2, .add 3, .setLimit (.int 2), .add 4, .undo,
      .add 13, .setLimit .null, .add 6, .undo, .setLimit (.int 1)]
    (∃ b u, ∃ k : Nat,
      (Script.all rs).play (Journal.engine.serve .lastDigit 1) ⟨{}, []⟩ = .returned () b ∧
      (Script.all (rs.filter (!·.setsLimit))).play (Journal.engine.serve .lastDigit 1) ⟨{}, []⟩ =
        .returned () u ∧
      b.history.entries = [3, 13, 6] ∧ u.history.entries = [1, 2, 3, 13, 6] ∧
      b.history.position = u.history.position - k ∧ b.calls = u.calls) ∧
    ∃ b u, ∃ k : Nat,
      (Script.all rs).play (Timeline.engine.serve .lastDigit 1) ⟨{}, []⟩ = .returned () b ∧
      (Script.all (rs.filter (!·.setsLimit))).play (Timeline.engine.serve .lastDigit 1) ⟨{}, []⟩ =
        .returned () u ∧
      b.history.entries = [13, 6] ∧ u.history.entries = [1, 2, 13, 6] ∧
      b.history.pointer = u.history.pointer - k ∧ b.calls = u.calls := by
  intro rs
  have hr : ∀ r ∈ rs, r.Proper := by simp [rs, Request.Proper, Value.room?]
  obtain ⟨hjournal, htimeline⟩ := limit_only_forgets 0 .null rfl rs hr
  obtain ⟨b, u, k, hb, hu, -, hp, -, hcalls⟩ :=
    hjournal .lastDigit Cast.quiet_lastDigit (by decide +kernel)
  obtain ⟨b', u', k', hb', hu', -, hp', -, hcalls'⟩ :=
    htimeline .lastDigit Cast.quiet_lastDigit (fun _ _ ↦ rfl) (by decide +kernel)
  have hseen : ((Script.all rs).play (Journal.engine.serve .lastDigit 1) ⟨{}, []⟩).state?.map
      (·.history.entries) = some [3, 13, 6] := by decide +kernel
  have hseenU : ((Script.all (rs.filter (!·.setsLimit))).play (Journal.engine.serve .lastDigit 1)
      ⟨{}, []⟩).state?.map (·.history.entries) = some [1, 2, 3, 13, 6] := by decide +kernel
  have hseen' : ((Script.all rs).play (Timeline.engine.serve .lastDigit 1) ⟨{}, []⟩).state?.map
      (·.history.entries) = some [13, 6] := by decide +kernel
  have hseenU' : ((Script.all (rs.filter (!·.setsLimit))).play (Timeline.engine.serve .lastDigit 1)
      ⟨{}, []⟩).state?.map (·.history.entries) = some [1, 2, 13, 6] := by decide +kernel
  rw [hb] at hseen
  rw [hu] at hseenU
  rw [hb'] at hseen'
  rw [hu'] at hseenU'
  exact ⟨⟨b, u, k, hb, hu, Option.some.inj hseen, Option.some.inj hseenU, hp, hcalls⟩,
    b', u', k', hb', hu', Option.some.inj hseen', Option.some.inj hseenU', hp', hcalls'⟩

end Rewind
