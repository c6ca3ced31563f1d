import Mathlib.Data.List.DropRight
import Mathlib.Data.Nat.Digits.Defs
import Rewind.Proofs.Numerals
import Rewind.Text.Numeral

namespace Rewind

namespace CodePoint

variable {c : CodePoint} {d : Nat}

theorem exists_zero_of_digit? (h : c.digit? = some d) :
    ∃ z ∈ zeros, d < 10 ∧ c.val = z.val + d := by
  obtain ⟨z, hz, rfl⟩ := Option.map_eq_some_iff.1 h
  have hc := List.find?_some hz
  simp only [Bool.and_eq_true, decide_eq_true_eq, Fin.le_def] at hc
  exact ⟨z, List.mem_of_find?_eq_some hz, by omega, by omega⟩

/-- The digits of no script are white space. -/
theorem not_blank_of_digit? (h : c.digit? = some d) : c.isBlank = false := by
  obtain ⟨z, hz, hd, hc⟩ := exists_zero_of_digit? h
  have hall : (zeros.all fun z ↦ (List.range 10).all fun d ↦ !isBlank (Fin.ofNat _ (z.val + d))) =
      true := by decide +kernel
  rw [List.all_eq_true] at hall
  have hz := List.all_eq_true.1 (hall z hz) d (List.mem_range.2 hd)
  have he : Fin.ofNat 0x110000 (z.val + d) = c := by
    apply Fin.ext
    rw [Fin.val_ofNat, ← hc]
    exact Nat.mod_eq_of_lt c.isLt
  rw [he] at hz
  simpa using hz

theorem digit?_digit (h : d < 10) : (Text.digit d).digit? = some d := by
  have hall : ∀ d < 10, (Text.digit d).digit? = some d := by decide +kernel
  exact hall d h

end CodePoint

namespace Text

theorem strip_eq (t : Text) :
    t.strip = (t.dropWhile CodePoint.isBlank).rdropWhile CodePoint.isBlank := rfl

/-- A text is what is left of it without the white space around, with that white space. -/
theorem exists_around (t : Text) : ∃ before after, t = before ++ t.strip ++ after ∧
    (∀ c ∈ before, c.isBlank = true) ∧ ∀ c ∈ after, c.isBlank = true := by
  let u := t.dropWhile CodePoint.isBlank
  refine ⟨t.takeWhile CodePoint.isBlank, u.rtakeWhile CodePoint.isBlank, ?_, ?_, ?_⟩
  · have hu : t.strip ++ u.rtakeWhile CodePoint.isBlank = u := by
      rw [strip_eq, List.rdropWhile, List.rtakeWhile, ← List.reverse_append,
        List.takeWhile_append_dropWhile, List.reverse_reverse]
    rw [List.append_assoc, hu, List.takeWhile_append_dropWhile]
  · intro c hc
    exact List.mem_takeWhile_imp hc
  · intro c hc
    exact List.mem_rtakeWhile_imp hc

/-- White space is taken away up to a character at either end that is none. -/
theorem strip_around {before after : Text} {c d : CodePoint} {t u : Text}
    (hb : ∀ c ∈ before, c.isBlank = true) (ha : ∀ c ∈ after, c.isBlank = true)
    (hc : c.isBlank = false) (hd : d.isBlank = false) (h : c :: t = u ++ [d]) :
    strip (before ++ (c :: t) ++ after) = c :: t := by
  rw [strip_eq, List.append_assoc, List.dropWhile_append_of_pos hb, List.cons_append,
    List.dropWhile_cons_of_neg (by simp [hc]), ← List.cons_append, List.rdropWhile,
    List.reverse_append, List.dropWhile_append_of_pos (by simpa using ha)]
  show (c :: t).rdropWhile CodePoint.isBlank = c :: t
  rw [h]
  exact List.rdropWhile_concat_neg _ _ _ (by simp [hd])

end Text

namespace Numeral

/-- Digits of any script, between two of which one underscore may stand. -/
inductive Digits : List Nat → Text → Prop where
  | last {c : CodePoint} {d : Nat} : c.digit? = some d → Digits [d] [c]
  | next {c : CodePoint} {d : Nat} {ds : List Nat} {t : Text} :
      c.digit? = some d → Digits ds t → Digits (d :: ds) (c :: t)
  | apart {c : CodePoint} {d : Nat} {ds : List Nat} {t : Text} :
      c.digit? = some d → Digits ds t → Digits (d :: ds) (c :: CodePoint.ofChar '_' :: t)

/-- A sign of either kind, or none at all. -/
inductive Sign : Bool → Text → Prop where
  | missing : Sign false []
  | plus : Sign false [CodePoint.ofChar '+']
  | minus : Sign true [CodePoint.ofChar '-']

/-- The number that a sign and digits make, the last digit counting once. -/
def number (negative : Bool) (ds : List Nat) : Int :=
  if negative then -(Nat.ofDigits 10 ds.reverse : Nat) else (Nat.ofDigits 10 ds.reverse : Nat)

/-- A text spells an integer: a sign and no more digits than the limit, with nothing around them but
white space. -/
def Spells (t : Text) (n : Int) : Prop :=
  ∃ before after signs body : Text, ∃ (negative : Bool) (ds : List Nat),
    t = before ++ (signs ++ body) ++ after ∧ (∀ c ∈ before, c.isBlank = true) ∧
    (∀ c ∈ after, c.isBlank = true) ∧ Sign negative signs ∧ Digits ds body ∧
    ds.length ≤ digitLimit ∧ n = number negative ds

theorem value_eq_ofDigits (ds : List Nat) : value ds = Nat.ofDigits 10 ds.reverse := by
  rw [Nat.ofDigits_eq_foldr, List.foldr_reverse, value]
  simp [Nat.add_comm]

namespace Digits

variable {ds : List Nat} {t : Text}

theorem exists_first (h : Digits ds t) : ∃ c u d, t = c :: u ∧ c.digit? = some d := by
  cases h with
  | last hc | next hc | apart hc => exact ⟨_, _, _, rfl, hc⟩

theorem exists_last (h : Digits ds t) : ∃ u c d, t = u ++ [c] ∧ c.digit? = some d := by
  induction h with
  | last hc => exact ⟨[], _, _, rfl, hc⟩
  | next hc _ ih =>
    obtain ⟨u, e, d, rfl, he⟩ := ih
    exact ⟨_ :: u, e, d, rfl, he⟩
  | apart hc _ ih =>
    obtain ⟨u, e, d, rfl, he⟩ := ih
    exact ⟨_ :: _ :: u, e, d, rfl, he⟩

theorem concat (h : Digits ds t) {c : CodePoint} {d : Nat} (hc : c.digit? = some d) :
    Digits (ds ++ [d]) (t ++ [c]) := by
  induction h with
  | last he => exact .next he (.last hc)
  | next he _ ih => exact .next he ih
  | apart he _ ih => exact .apart he ih

theorem scan_eq (h : Digits ds t) (due : Bool) : scan due t = some (ds, []) := by
  induction h generalizing due with
  | last hc => simp [scan, hc]
  | next hc _ ih => simp [scan, hc, ih]
  | @apart c d ds t hc _ ih =>
    have hu : (CodePoint.ofChar '_').digit? = none := by decide
    simp [scan, hc, hu, ih]

end Digits

/-- What is scanned to the end is nothing, or digits, which an underscore may come before if no
digit is due. -/
theorem digits_of_scan {due : Bool} {t : Text} {ds : List Nat} (h : scan due t = some (ds, [])) :
    Digits ds t ∨ due = false ∧
      (t = [] ∧ ds = [] ∨ ∃ u, t = CodePoint.ofChar '_' :: u ∧ Digits ds u) := by
  induction t generalizing due ds with
  | nil =>
    rw [scan] at h
    split at h
    · cases h
    · rename_i hdue
      cases h
      exact .inr ⟨Bool.eq_false_iff.2 hdue, .inl ⟨rfl, rfl⟩⟩
  | cons c t ih =>
    rw [scan] at h
    cases hc : c.digit? with
    | some d =>
      rw [hc] at h
      obtain ⟨⟨es, rest⟩, hs, he⟩ := Option.map_eq_some_iff.1 h
      cases he
      left
      rcases ih hs with hd | ⟨-, ⟨rfl, rfl⟩ | ⟨u, rfl, hd⟩⟩
      · exact .next hc hd
      · exact .last hc
      · exact .apart hc hd
    | none =>
      rw [hc] at h
      dsimp only at h
      split_ifs at h with hdue hu
      · rcases ih h with hd | ⟨hf, -⟩
        · exact .inr ⟨Bool.eq_false_iff.2 hdue, .inr ⟨t, by rw [eq_of_beq hu], hd⟩⟩
        · cases hf
      · cases h

theorem sign_eq {negative : Bool} {signs body : Text} {ds : List Nat} (hs : Sign negative signs)
    (hd : Digits ds body) : sign (signs ++ body) = (negative, body) := by
  cases hs with
  | plus | minus => rfl
  | missing =>
    obtain ⟨c, u, d, rfl, hc⟩ := hd.exists_first
    have hne {e : CodePoint} (he : e.digit? = none) : c ≠ e := by
      rintro rfl
      cases hc.symm.trans he
    simp [sign, hne (e := CodePoint.ofChar '-') (by decide),
      hne (e := CodePoint.ofChar '+') (by decide)]

theorem exists_sign (t : Text) : ∃ signs, t = signs ++ (sign t).2 ∧ Sign (sign t).1 signs := by
  cases t with
  | nil => exact ⟨[], rfl, .missing⟩
  | cons c t =>
    rw [sign]
    split_ifs with hm hp
    · exact ⟨[c], rfl, eq_of_beq hm ▸ .minus⟩
    · exact ⟨[c], rfl, eq_of_beq hp ▸ .plus⟩
    · exact ⟨[], rfl, .missing⟩

theorem Sign.not_blank {negative : Bool} {signs : Text} (h : Sign negative signs) :
    ∀ c ∈ signs, c.isBlank = false := by
  intro c hc
  cases h with
  | missing => cases hc
  | plus | minus =>
    rw [List.mem_singleton.1 hc]
    decide

/-- Nothing is stripped from a sign and digits. -/
theorem strip_eq {before after signs body : Text} {negative : Bool} {ds : List Nat}
    (hb : ∀ c ∈ before, c.isBlank = true) (ha : ∀ c ∈ after, c.isBlank = true)
    (hs : Sign negative signs) (hd : Digits ds body) :
    Text.strip (before ++ (signs ++ body) ++ after) = signs ++ body := by
  obtain ⟨u, c, d, hu, hc⟩ := hd.exists_last
  have hlast : signs ++ body = (signs ++ u) ++ [c] := by rw [hu, List.append_assoc]
  have hfirst : ∃ e t, signs ++ body = e :: t ∧ e.isBlank = false := by
    cases signs with
    | nil =>
      obtain ⟨e, t, d', ht, he⟩ := hd.exists_first
      exact ⟨e, t, ht, CodePoint.not_blank_of_digit? he⟩
    | cons e t => exact ⟨e, t ++ body, rfl, hs.not_blank e List.mem_cons_self⟩
  obtain ⟨e, t, ht, he⟩ := hfirst
  rw [ht] at hlast ⊢
  exact Text.strip_around hb ha he (CodePoint.not_blank_of_digit? hc) hlast

/-- Texts that spell an integer are read as that integer, and no others are read. -/
theorem read_eq_ok_iff {t : Text} {n : Int} : read t = .ok n ↔ Spells t n := by
  constructor
  · intro h
    obtain ⟨before, after, ht, hb, ha⟩ := t.exists_around
    obtain ⟨signs, hs, hsign⟩ := exists_sign t.strip
    rw [read] at h
    dsimp only at h
    split at h
    · cases h
    · rename_i ds rest hscan
      split_ifs at h with hlimit hrest hneg
      all_goals
        obtain rfl := List.isEmpty_iff.1 hrest
        rcases digits_of_scan hscan with hd | ⟨hf, -⟩
        · refine ⟨before, after, signs, _, _, ds, ?_, hb, ha, hsign, hd, Nat.not_lt.1 hlimit, ?_⟩
          · rw [← hs]
            exact ht
          · cases h
            simp [number, hneg, value_eq_ofDigits]
        · cases hf
  · rintro ⟨before, after, signs, body, negative, ds, rfl, hb, ha, hs, hd, hl, rfl⟩
    rw [read, strip_eq hb ha hs hd, sign_eq hs hd]
    simp [hd.scan_eq, Nat.not_lt.2 hl, number, value_eq_ofDigits]

theorem digits_ofNat (n : Nat) : ∃ ds, Digits ds (Text.ofNat n) ∧
    Nat.ofDigits 10 ds.reverse = n ∧ ds.length = (Text.ofNat n).length := by
  induction n using Text.ofNat_cases with
  | one n h =>
    rw [Text.ofNat_one h]
    exact ⟨[n], .last (CodePoint.digit?_digit h), by simp, rfl⟩
  | more n d hn hd ih =>
    obtain ⟨ds, hds, hv, hl⟩ := ih
    rw [Text.ofNat_more hn hd]
    refine ⟨ds ++ [d], hds.concat (CodePoint.digit?_digit hd), ?_, by simp [hl]⟩
    rw [List.reverse_append, List.reverse_singleton, List.singleton_append, Nat.ofDigits_cons, hv]
    omega

/-- Every integer of no more digits than the limit is spelled by its decimal digits. -/
theorem spells_ofInt {n : Int} (h : n.natAbs < 10 ^ digitLimit) : Spells (Text.ofInt n) n := by
  obtain ⟨ds, hds, hv, hl⟩ := digits_ofNat n.natAbs
  have hlimit : ds.length ≤ digitLimit := hl ▸ Text.length_ofNat (by decide) h
  cases n with
  | ofNat n => exact ⟨[], [], [], _, false, ds, by simp [Text.ofInt], nofun, nofun, .missing, hds,
      hlimit, by simp [number, hv]⟩
  | negSucc n => exact ⟨[], [], [_], _, true, ds, by simp [Text.ofInt], nofun, nofun, .minus, hds,
      hlimit, by simp [number, hv]; omega⟩

end Numeral

end Rewind
