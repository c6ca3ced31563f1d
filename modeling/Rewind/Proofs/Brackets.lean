import Mathlib.Data.List.TakeWhile
import Rewind.Proofs.Storing

namespace Rewind.Json

/-- Where a document stands after some of its text: between tokens, in a string, or behind a
backslash in a string, with so many brackets open. -/
inductive Cursor where
  | between (opened : Nat)
  | inside (opened : Nat)
  | behind (opened : Nat)

namespace Cursor

/-- How many brackets are open. -/
def depth : Cursor → Nat
  | between n | inside n | behind n => n

def step : Cursor → CodePoint → Cursor
  | between n, c =>
    if c == '"' then inside n
    else if c == '[' || c == '\x7b' then between (n + 1)
    else if c == ']' || c == '\x7d' then between (n - 1)
    else between n
  | inside n, c => if c == '"' then between n else if c == '\\' then behind n else inside n
  | behind n, _ => inside n

def after (k : Cursor) (t : Text) : Cursor := t.foldl step k

theorem after_append (k : Cursor) (t u : Text) : k.after (t ++ u) = (k.after t).after u :=
  List.foldl_append

/-- A character between tokens that is no quote and no bracket. -/
def Neutral (c : CodePoint) : Prop := c ∉ ("\"[]\x7b\x7d" : Text)

instance : DecidablePred Neutral := fun c ↦
  inferInstanceAs (Decidable (c ∉ ("\"[]\x7b\x7d" : Text)))

theorem step_neutral {c : CodePoint} (h : Neutral c) (n : Nat) :
    (between n).step c = between n := by
  have hc : ∀ d ∈ ("\"[]\x7b\x7d" : Text), (c == d) = false := by
    intro d hd
    rw [beq_eq_false_iff_ne]
    rintro rfl
    exact h hd
  rw [step, hc '"' (by decide), hc '[' (by decide), hc '\x7b' (by decide), hc ']' (by decide),
    hc '\x7d' (by decide)]
  rfl

theorem after_neutral {t : Text} (h : ∀ c ∈ t, Neutral c) (n : Nat) :
    (between n).after t = between n := by
  induction t with
  | nil => rfl
  | cons c t ih =>
    obtain ⟨hc, ht⟩ := List.forall_mem_cons.1 h
    rw [after, List.foldl_cons, step_neutral hc]
    exact ih ht

end Cursor

open Cursor

/-- What a text starts with takes the cursor from one place to another. -/
def Passes (k : Cursor) (t : Text) (k' : Cursor) (rest : Text) : Prop :=
  ∃ used, t = used ++ rest ∧ k.after used = k'

section

variable {k k' k'' : Cursor} {t u rest : Text} {n : Nat}

theorem Passes.refl (k : Cursor) (t : Text) : Passes k t k t := ⟨[], rfl, rfl⟩

theorem Passes.trans (h : Passes k t k' u) (h' : Passes k' u k'' rest) : Passes k t k'' rest := by
  obtain ⟨a, rfl, rfl⟩ := h
  obtain ⟨b, rfl, rfl⟩ := h'
  exact ⟨a ++ b, (List.append_assoc a b rest).symm, after_append k a b⟩

theorem Passes.cons {c : CodePoint} (h : Passes (k.step c) t k' rest) : Passes k (c :: t) k' rest :=
  .trans ⟨[c], rfl, rfl⟩ h

theorem passes_neutral (h : ∀ c ∈ t, Neutral c) (n : Nat) (rest : Text) :
    Passes (between n) (t ++ rest) (between n) rest := ⟨t, rfl, after_neutral h n⟩

theorem neutral_of_isSpace {c : CodePoint} (h : isSpace c = true) : Neutral c := by
  simp only [isSpace, Bool.or_eq_true, beq_iff_eq] at h
  rcases h with ((rfl | rfl) | rfl) | rfl <;> decide

theorem neutral_of_isDigit {c : CodePoint} (h : isDigit c = true) : Neutral c := by
  intro hc
  have hd : ("\"[]\x7b\x7d" : Text).all (!isDigit ·) = true := by decide
  have hn := List.all_eq_true.1 hd c hc
  rw [h] at hn
  cases hn

/-- What a test lets pass at the start of a text moves nothing if it only lets pass such
characters. -/
theorem passes_dropWhile {p : CodePoint → Bool} (hp : ∀ c, p c = true → Neutral c) (n : Nat)
    (t : Text) : Passes (between n) t (between n) (t.dropWhile p) := by
  have ht : ∀ c ∈ t.takeWhile p, Neutral c := fun c hc ↦ hp c (List.mem_takeWhile_imp hc)
  have hb := passes_neutral ht n (t.dropWhile p)
  rwa [List.takeWhile_append_dropWhile] at hb

theorem passes_skip (n : Nat) (t : Text) : Passes (between n) t (between n) (skip t) :=
  passes_dropWhile (fun _ ↦ neutral_of_isSpace) n t

theorem passes_digits (n : Nat) (t : Text) : Passes (between n) t (between n) (digits t).2 :=
  passes_dropWhile (fun _ ↦ neutral_of_isDigit) n t

theorem Passes.neutral {c : CodePoint} (hc : Neutral c) (h : Passes (between n) t k' rest) :
    Passes (between n) (c :: t) k' rest := by
  apply Passes.cons
  rwa [step_neutral hc]

theorem passes_whole (n : Nat) (t : Text) : Passes (between n) t (between n) (whole t).2 := by
  cases t with
  | nil => exact .refl _ _
  | cons c t =>
    unfold whole
    dsimp only
    split_ifs with hc
    · rw [eq_of_beq hc]
      exact .neutral (by decide) (.refl _ _)
    · exact passes_digits n _

theorem passes_fraction (n : Nat) (t : Text) :
    Passes (between n) t (between n) (fraction t).2 := by
  cases t with
  | nil => exact .refl _ _
  | cons c t =>
    unfold fraction
    dsimp only
    split_ifs with hc
    · rw [eq_of_beq (Bool.and_eq_true_iff.1 hc).1]
      exact .neutral (by decide) (passes_digits n t)
    · exact .refl _ _

theorem passes_sign (n : Nat) (t : Text) :
    Passes (between n) t (between n) (Numeral.sign t).2 := by
  cases t with
  | nil => exact .refl _ _
  | cons c t =>
    unfold Numeral.sign
    dsimp only
    split_ifs with hm hp
    · rw [eq_of_beq hm]
      exact .neutral (by decide) (.refl _ _)
    · rw [eq_of_beq hp]
      exact .neutral (by decide) (.refl _ _)
    · exact .refl _ _

theorem passes_exponent (n : Nat) (t : Text) :
    Passes (between n) t (between n) (exponent t).2 := by
  cases t with
  | nil => exact .refl _ _
  | cons c t =>
    rw [exponent]
    split
    · rename_i hc
      have he : Neutral c := by
        rcases Bool.or_eq_true_iff.1 hc with hc | hc
        · rw [eq_of_beq hc]
          decide
        · rw [eq_of_beq hc]
          decide
      dsimp only
      split
      · exact .neutral he ((passes_sign n t).trans (passes_digits n _))
      · exact .refl _ _
    · exact .refl _ _

/-- A number moves nothing. -/
theorem passes_number {negative : Bool} {v : Value} (h : number negative t = .ok (v, rest)) :
    Passes (between n) t (between n) rest := by
  have hp := ((passes_whole n t).trans (passes_fraction n _)).trans (passes_exponent n _)
  unfold number at h
  dsimp only at h
  split_ifs at h <;> cases h <;> exact hp

theorem passes_scalar {v : Value} (h : scalar t = .ok (v, rest)) :
    Passes (between n) t (between n) rest := by
  unfold scalar at h
  split at h
  · rename_i r hk
    cases h
    obtain ⟨k, hm, hr⟩ := List.exists_of_findSome?_eq_some hk
    obtain ⟨rest, hp, hr⟩ := Option.map_eq_some_iff.1 hr
    cases hr
    rw [← List.isPrefixOf?_eq_some_iff_append_eq.1 hp]
    have hc : (constants.all fun k ↦ k.1.all fun c ↦ decide (Neutral c)) = true := by
      decide +kernel
    have hk := List.all_eq_true.1 (List.all_eq_true.1 hc k hm)
    exact passes_neutral (fun c hc ↦ of_decide_eq_true (hk c hc)) n _
  · split at h
    · split_ifs at h with hm
      · rw [eq_of_beq hm]
        exact .neutral (by decide) (passes_number h)
      · exact passes_number h
    · cases h

theorem step_inside {c : CodePoint} (hq : ¬ (c == '"') = true) (hb : ¬ (c == '\\') = true)
    (n : Nat) : (inside n).step c = inside n := by
  rw [step, if_neg hq, if_neg hb]

theorem scalar_shallow (t : Text) (place : Nesting) : scalar t ≠ .error (.tooDeep place) := by
  have hn {negative : Bool} {t : Text} : number negative t ≠ .error (.tooDeep place) := by
    intro h
    unfold number at h
    dsimp only at h
    split_ifs at h <;> cases h
  intro h
  unfold scalar at h
  split at h
  · cases h
  · split at h
    · split_ifs at h
      · exact hn h
      · exact hn h
    · cases h

/-- A string ends behind the quote that closes it. -/
theorem passes_body {body : Text} (h : body? t = some (body, rest)) :
    Passes (inside n) t (between n) rest := by
  induction t using body?.induct generalizing body with
  | case1 => cases h
  | case2 c t hq =>
    rw [body?.eq_def] at h
    simp only [if_pos hq, Option.some.injEq, Prod.mk.injEq] at h
    rw [eq_of_beq hq, h.2]
    exact .cons (.refl _ _)
  | case3 c hq hb =>
    rw [body?.eq_def] at h
    simp only [if_neg hq, if_pos hb] at h
    cases h
  | case4 c hq hb d t ih =>
    rw [body?.eq_def] at h
    simp only [if_neg hq, if_pos hb] at h
    obtain ⟨r, hr, he⟩ := Option.map_eq_some_iff.1 h
    cases he
    rw [eq_of_beq hb]
    exact .cons (.cons (ih hr))
  | case5 c t hq hb hc =>
    rw [body?.eq_def] at h
    simp only [if_neg hq, if_neg hb, if_pos hc] at h
    cases h
  | case6 c t hq hb hc ih =>
    rw [body?.eq_def] at h
    simp only [if_neg hq, if_neg hb, if_neg hc] at h
    obtain ⟨r, hr, he⟩ := Option.map_eq_some_iff.1 h
    cases he
    apply Passes.cons
    rw [step_inside hq hb]
    exact ih hr

theorem passes_string {s : Text} (h : string? t = some (s, rest)) (n : Nat) :
    Passes (between n) (CodePoint.ofChar '"' :: t) (between n) rest := by
  simp only [string?, bind, Option.bind_eq_some_iff] at h
  obtain ⟨⟨body, rest'⟩, hb, u, -, hr⟩ := h
  cases hr
  exact .cons (passes_body hb)

end

/-- How something is read where `n` brackets are open: a result leaves `m` brackets open, and if
brackets are found to nest too deep, there are more of them than there was room for. -/
structure Traced {α : Type} (room n m : Nat) (t : Text) (r : Except Fault (α × Text)) : Prop where
  result : ∀ {a rest}, r = .ok (a, rest) → Passes (between n) t (between m) rest
  deep : ∀ {place}, r = .error (.tooDeep place) →
    ∃ k rest, n + room < k ∧ Passes (between n) t (between k) rest

namespace Traced

variable {α β : Type} {room j n m k : Nat} {t u rest : Text}

theorem ok {a : α} (h : Passes (between n) t (between m) rest) :
    Traced room n m t (.ok (a, rest)) := by
  refine ⟨fun hr ↦ ?_, nofun⟩
  cases hr
  exact h

theorem refused : Traced (α := α) room n m t (.error .notDocument) := ⟨nofun, nofun⟩

/-- A fault of a part is one of the whole. -/
theorem error {r : Except Fault (α × Text)} {e : Fault} (h : Traced room n m t r)
    (he : r = .error e) : Traced (α := β) room n k t (.error e) := by
  subst he
  constructor
  · nofun
  · intro place hr
    cases hr
    exact h.deep rfl

/-- What comes first may take room, but only as much as it opens brackets. -/
theorem after {r : Except Fault (α × Text)} (h : Passes (between n) t (between k) u)
    (hr : Traced j k m u r) (hroom : n + room ≤ k + j) : Traced room n m t r := by
  constructor
  · intro a rest ha
    exact h.trans (hr.result ha)
  · intro place hp
    obtain ⟨depth, rest, hd, hp⟩ := hr.deep hp
    exact ⟨depth, rest, Nat.lt_of_le_of_lt hroom hd, h.trans hp⟩

/-- A list or a dictionary behind its opening bracket, which takes the place of one level. -/
theorem opened {r : Except Fault (α × Text)} {c : CodePoint}
    (hc : (between n).step c = between (n + 1)) (h : Traced room (n + 1) m (skip t) r) :
    Traced (room + 1) n m (c :: t) r := by
  have ho : Passes (between n) (c :: t) (between (n + 1)) (skip t) := by
    apply Passes.cons
    rw [hc]
    exact passes_skip (n + 1) t
  exact .after ho h (by omega)

/-- Without room, no bracket can be opened. -/
theorem roomless {place : Nesting} {c : CodePoint}
    (hc : (between n).step c = between (n + 1)) :
    Traced (α := α) 0 n m (c :: t) (.error (.tooDeep place)) :=
  ⟨nofun, fun _ ↦ ⟨n + 1, t, Nat.lt_succ_self n, [c], rfl, hc⟩⟩

/-- A bracket that closes a list or a dictionary is the end of it. -/
theorem closing {a : α} {c : CodePoint} (hc : (between (n + 1)).step c = between n) :
    Traced room (n + 1) n (c :: t) (.ok (a, t)) := .ok ⟨[c], rfl, hc⟩

/-- Behind a colon or a comma, and the space after it, everything is as before. -/
theorem beyond {r : Except Fault (α × Text)} {c : CodePoint} (hc : Neutral c)
    (h : Traced room n m (skip t) r) : Traced room n m (c :: t) r :=
  .after (.neutral hc (passes_skip n t)) h (Nat.le_refl _)

end Traced

/-- Values leave as many brackets open as there were, lists and dictionaries one less, with some
fuel. -/
structure Balanced (fuel : Nat) : Prop where
  value : ∀ room n t, Traced room n n t (Json.value fuel room t)
  items : ∀ room n t, Traced room (n + 1) n t (Json.items fuel room t)
  fields : ∀ room n t, Traced room (n + 1) n t (Json.fields fuel room t)

section

variable {fuel : Nat}

theorem value_traced (hb : Balanced fuel) (room n : Nat) (t : Text) :
    Traced room n n t (value (fuel + 1) room t) := by
  cases t with
  | nil => exact .refused
  | cons c t =>
    rw [value.eq_def]
    dsimp only
    split
    · rename_i hc
      rw [eq_of_beq hc]
      split
      · rename_i hs
        exact .ok (passes_string hs n)
      · exact .refused
    · split
      · rename_i hc
        rw [eq_of_beq hc]
        split
        · exact .roomless rfl
        · exact .refused
        · rename_i room d r hs
          apply Traced.opened rfl
          rw [hs]
          split
          · rename_i hd
            rw [eq_of_beq hd]
            exact .closing rfl
          · split
            · rename_i hi
              exact .ok ((hb.items room n (d :: r)).result hi)
            · rename_i hi
              exact (hb.items room n (d :: r)).error hi
      · split
        · rename_i hc
          rw [eq_of_beq hc]
          split
          · exact .roomless rfl
          · exact .refused
          · rename_i room d r hs
            apply Traced.opened rfl
            rw [hs]
            split
            · rename_i hd
              rw [eq_of_beq hd]
              exact .closing rfl
            · split
              · rename_i hf
                exact .ok ((hb.fields room n (d :: r)).result hf)
              · rename_i hf
                exact (hb.fields room n (d :: r)).error hf
        · cases hs : scalar (c :: t) with
          | ok r => exact .ok (passes_scalar hs)
          | error e =>
            refine ⟨fun hr ↦ ?_, fun he ↦ ?_⟩
            · cases hr
            · cases he
              exact absurd hs (scalar_shallow _ _)

theorem items_traced (hb : Balanced fuel) (room n : Nat) (t : Text) :
    Traced room (n + 1) n t (items (fuel + 1) room t) := by
  rw [items]
  split
  · rename_i hv
    exact (hb.value room (n + 1) t).error hv
  · rename_i v u hv
    have hu := ((hb.value room (n + 1) t).result hv).trans (passes_skip (n + 1) u)
    refine .after hu (j := room) ?_ (Nat.le_refl _)
    split
    · exact .refused
    · rename_i c r hs
      rw [hs]
      split
      · rename_i hc
        rw [eq_of_beq hc]
        exact .closing rfl
      · split
        · rename_i hc
          rw [eq_of_beq hc]
          apply Traced.beyond (by decide)
          split
          · rename_i hm
            exact .ok ((hb.items room n (skip r)).result hm)
          · rename_i hm
            exact (hb.items room n (skip r)).error hm
        · exact .refused

theorem fields_traced (hb : Balanced fuel) (room n : Nat) (t : Text) :
    Traced room (n + 1) n t (fields (fuel + 1) room t) := by
  cases t with
  | nil => exact .refused
  | cons q t =>
    rw [fields]
    split
    · exact .refused
    · rename_i hq
      split
      · exact .refused
      · rename_i key u hs
        have hq : q = '"' := by simpa using hq
        have hu := (passes_string hs (n + 1)).trans (passes_skip (n + 1) u)
        rw [hq]
        refine .after hu (j := room) ?_ (Nat.le_refl _)
        split
        · exact .refused
        · rename_i c r hs
          rw [hs]
          split
          · exact .refused
          · rename_i hc
            have hc : c = ':' := by simpa using hc
            rw [hc]
            apply Traced.beyond (by decide)
            split
            · rename_i hv
              exact (hb.value room (n + 1) (skip r)).error hv
            · rename_i v w hv
              have hw := ((hb.value room (n + 1) (skip r)).result hv).trans (passes_skip (n + 1) w)
              refine .after hw (j := room) ?_ (Nat.le_refl _)
              split
              · exact .refused
              · rename_i c r hs
                rw [hs]
                split
                · rename_i hc
                  rw [eq_of_beq hc]
                  exact .closing rfl
                · split
                  · rename_i hc
                    rw [eq_of_beq hc]
                    apply Traced.beyond (by decide)
                    split
                    · rename_i hm
                      exact .ok ((hb.fields room n (skip r)).result hm)
                    · rename_i hm
                      exact (hb.fields room n (skip r)).error hm
                  · exact .refused

end

theorem balanced (fuel : Nat) : Balanced fuel := by
  induction fuel with
  | zero =>
    refine ⟨fun room n t ↦ ?_, fun room n t ↦ ?_, fun room n t ↦ ?_⟩
    · rw [value.eq_def]
      exact .refused
    · rw [items.eq_def]
      exact .refused
    · rw [fields.eq_def]
      exact .refused
  | succ fuel ih => exact ⟨value_traced ih, items_traced ih, fields_traced ih⟩

variable {room : Nat} {t : Text}

/-- All brackets of a document are closed. -/
theorem after_of_readWithin {v : Value} (h : readWithin room t = .ok v) :
    (between 0).after t = between 0 := by
  unfold readWithin at h
  split_ifs at h
  split at h
  · cases h
  · rename_i rest hv
    split_ifs at h with hr
    have hp := ((passes_skip 0 t).trans ((balanced _).value room 0 _ |>.result hv)).trans
      (passes_skip 0 rest)
    obtain ⟨used, ht, hu⟩ := hp
    rw [List.isEmpty_iff.1 hr, List.append_nil] at ht
    rw [ht]
    exact hu

/-- Where brackets are found to nest too deep, more of them are open than there was room for. -/
theorem exists_deep_of_readWithin {place : Nesting}
    (h : readWithin room t = .error (.tooDeep place)) :
    ∃ u, u <+: t ∧ room < ((between 0).after u).depth := by
  unfold readWithin at h
  split at h
  · cases h
  · split at h
    · rename_i hv
      cases h
      obtain ⟨k, rest, hk, hp⟩ := ((balanced _).value room 0 _).deep hv
      obtain ⟨used, ht, hu⟩ := (passes_skip 0 t).trans hp
      refine ⟨used, ⟨rest, ht.symm⟩, ?_⟩
      rw [hu]
      rwa [Nat.zero_add] at hk
    · split at h <;> cases h

end Rewind.Json
