import Mathlib.Algebra.Group.Nat.Defs
import Mathlib.Data.List.Infix
import Mathlib.Tactic.SplitIfs
import Rewind.Json.Reader
import Rewind.Json.Writer

namespace Rewind

namespace Text

theorem digit_val {n : Nat} (h : n < 10) : (digit n).val = 48 + n := by
  simp only [digit, Fin.val_ofNat]
  omega

theorem isDigit_digit {n : Nat} (h : n < 10) : Json.isDigit (digit n) = true := by
  have hv := digit_val h
  simp only [Json.isDigit, hv, Bool.and_eq_true, decide_eq_true_eq]
  omega

/-- Every number is a digit, or one more digit after another positive number. -/
theorem ofNat_cases {P : Nat → Prop} (one : ∀ n, n < 10 → P n)
    (more : ∀ n d, 0 < n → d < 10 → P n → P (10 * n + d)) (n : Nat) : P n := by
  induction n using ofNat.induct with
  | case1 n h => exact one n h
  | case2 n h ih =>
    have hn : 10 * (n / 10) + n % 10 = n := Nat.div_add_mod n 10
    rw [← hn]
    exact more (n / 10) (n % 10) (by omega) (by omega) ih

theorem ofNat_one {n : Nat} (h : n < 10) : ofNat n = [digit n] := by
  rw [ofNat, if_pos h]

theorem ofNat_more {n d : Nat} (hn : 0 < n) (hd : d < 10) :
    ofNat (10 * n + d) = ofNat n ++ [digit d] := by
  have hq : (10 * n + d) / 10 = n := by omega
  have hr : (10 * n + d) % 10 = d := by omega
  rw [ofNat, if_neg (by omega), hq, hr]

theorem ofNat_digits (n : Nat) : ∀ c ∈ ofNat n, Json.isDigit c = true := by
  induction n using ofNat_cases with
  | one n h =>
    rw [ofNat_one h]
    intro c hc
    rw [List.mem_singleton.1 hc]
    exact isDigit_digit h
  | more n d hn hd ih =>
    rw [ofNat_more hn hd]
    intro c hc
    rcases List.mem_append.1 hc with hc | hc
    · exact ih c hc
    · rw [List.mem_singleton.1 hc]
      exact isDigit_digit hd

theorem digitsValue_ofNat (n : Nat) : Json.digitsValue (ofNat n) = n := by
  induction n using ofNat_cases with
  | one n h =>
    rw [ofNat_one h]
    simp [Json.digitsValue, Numeral.value, digit_val h]
  | more n d hn hd ih =>
    rw [ofNat_more hn hd]
    simp only [Json.digitsValue, Numeral.value] at ih
    simp [Json.digitsValue, Numeral.value, digit_val hd, ih]

/-- The first digit is a zero only where it is the only one. -/
theorem ofNat_head (n : Nat) : ∃ c t, ofNat n = c :: t ∧ (c = '0' → n = 0 ∧ t = []) := by
  induction n using ofNat_cases with
  | one n h =>
    refine ⟨digit n, [], ofNat_one h, fun hz ↦ ⟨?_, rfl⟩⟩
    have hv : 48 + n = 48 := (digit_val h).symm.trans (congrArg Fin.val hz)
    omega
  | more n d hn hd ih =>
    obtain ⟨c, t, ht, hc⟩ := ih
    refine ⟨c, t ++ [digit d], ?_, fun hz ↦ ?_⟩
    · rw [ofNat_more hn hd, ht, List.cons_append]
    · exact absurd (hc hz).1 (Nat.ne_of_gt hn)

theorem length_ofNat {n k : Nat} (hk : 0 < k) (h : n < 10 ^ k) : (ofNat n).length ≤ k := by
  induction n using ofNat_cases generalizing k with
  | one n hn =>
    rw [ofNat_one hn]
    exact hk
  | more n d hn hd ih =>
    obtain ⟨j, rfl⟩ : ∃ j, k = j + 1 := ⟨k - 1, by omega⟩
    rw [Nat.pow_succ] at h
    have hj : 0 < j := by
      rcases Nat.eq_zero_or_pos j with rfl | hj
      · omega
      · exact hj
    rw [ofNat_more hn hd, List.length_append, List.length_singleton]
    exact Nat.succ_le_succ (ih hj (by omega))

end Text

namespace Json

/-- What follows a value in a document as it is written: a comma, a line break, or nothing. -/
def Ends (rest : Text) : Prop := ∀ c ∈ rest.head?, c = ',' ∨ c = '\n'

theorem ends_nil : Ends [] := nofun

variable {rest : Text}

theorem Ends.head_cases (h : Ends rest) :
    rest = [] ∨ (∃ t, rest = CodePoint.ofChar ',' :: t) ∨
      ∃ t, rest = CodePoint.ofChar '\n' :: t := by
  cases rest with
  | nil => exact .inl rfl
  | cons c t =>
    rcases h c rfl with rfl | rfl
    · exact .inr (.inl ⟨t, rfl⟩)
    · exact .inr (.inr ⟨t, rfl⟩)

theorem digits_append {ds : Text} (hd : ∀ c ∈ ds, isDigit c = true) (h : Ends rest) :
    digits (ds ++ rest) = (ds, rest) := by
  have hr : digits rest = ([], rest) := by
    rcases h.head_cases with rfl | ⟨t, rfl⟩ | ⟨t, rfl⟩ <;> rfl
  simp only [digits, Prod.mk.injEq] at hr ⊢
  rw [List.takeWhile_append_of_pos hd, List.dropWhile_append_of_pos hd, hr.1, hr.2,
    List.append_nil]
  exact ⟨rfl, rfl⟩

theorem whole_ofNat (n : Nat) (h : Ends rest) :
    whole (Text.ofNat n ++ rest) = (Text.ofNat n, rest) := by
  obtain ⟨c, t, ht, hc⟩ := Text.ofNat_head n
  have hd := digits_append (Text.ofNat_digits n) h
  rw [ht, List.cons_append] at hd ⊢
  rw [whole]
  split_ifs with hz
  · rw [(hc (eq_of_beq hz)).2]
    rfl
  · exact hd

/-- Which integers are written, in terms of the power that Mathlib reckons with. -/
theorem integer_eq (n : Int) : integer n =
    if n.natAbs < 10 ^ Numeral.digitLimit then .ok (Text.ofInt n) else .error .integerTooLong := by
  have hpow (k m : Nat) : Nat.pow k m = k ^ m := rfl
  rw [integer, hpow]

theorem number_ofNat (negative : Bool) {n : Nat} (hn : n < 10 ^ Numeral.digitLimit)
    (h : Ends rest) : number negative (Text.ofNat n ++ rest) =
      .ok (.int (if negative then -(n : Int) else n), rest) := by
  obtain ⟨c, t, ht, -⟩ := Text.ofNat_head n
  have hf : fraction rest = ([], rest) := by
    rcases h.head_cases with rfl | ⟨t, rfl⟩ | ⟨t, rfl⟩ <;> rfl
  have he : exponent rest = (none, rest) := by
    rcases h.head_cases with rfl | ⟨t, rfl⟩ | ⟨t, rfl⟩ <;> rfl
  have hl : ¬ Numeral.digitLimit < (Text.ofNat n).length :=
    Nat.not_lt.2 (Text.length_ofNat (by decide) hn)
  have hu : (Text.ofNat n).isEmpty = false := by rw [ht]; rfl
  simp only [number, whole_ofNat n h, hf, he, hu, if_neg hl, Text.digitsValue_ofNat]
  rfl

/-- No constant has a digit for one of its first two characters. -/
theorem constants_start :
    ∀ k ∈ constants, 2 ≤ k.1.length ∧ ∀ c ∈ k.1.take 2, isDigit c = false := by
  have h : (constants.all fun k ↦ 2 ≤ k.1.length && (k.1.take 2).all (!isDigit ·)) = true := by
    decide +kernel
  simpa [List.all_eq_true] using h

theorem not_constant {t : Text} (ht : ∃ c ∈ t.take 2, isDigit c = true) :
    (constants.findSome? fun k ↦ (k.1.isPrefixOf? t).map fun rest ↦ (k.2, rest)) = none := by
  rw [List.findSome?_eq_none_iff]
  intro k hk
  rw [Option.map_eq_none_iff, Option.eq_none_iff_forall_not_mem]
  intro z hz
  obtain ⟨hl, hs⟩ := constants_start k hk
  obtain ⟨c, hc, hd⟩ := ht
  rw [Option.mem_def, List.isPrefixOf?_eq_some_iff_append_eq] at hz
  rw [← hz, List.take_append_of_le_length hl] at hc
  rw [hs c hc] at hd
  cases hd

theorem scalar_ofInt {n : Int} (hn : n.natAbs < 10 ^ Numeral.digitLimit) (h : Ends rest) :
    scalar (Text.ofInt n ++ rest) = .ok (.int n, rest) := by
  cases n with
  | ofNat n =>
    obtain ⟨c, t, ht, -⟩ := Text.ofNat_head n
    have hc : isDigit c = true := Text.ofNat_digits n c (by rw [ht]; exact List.mem_cons_self)
    have hm : c ≠ '-' := by
      rintro rfl
      cases hc
    have hnum := number_ofNat false (n := n) hn h
    rw [Text.ofInt]
    simp only [ht, List.cons_append] at hnum ⊢
    rw [scalar, not_constant ⟨c, List.mem_cons_self, hc⟩]
    simp only [beq_eq_false_iff_ne.2 hm, Bool.false_eq_true, if_false]
    exact hnum
  | negSucc n =>
    obtain ⟨c, t, ht, -⟩ := Text.ofNat_head (n + 1)
    have hc : isDigit c = true :=
      Text.ofNat_digits (n + 1) c (by rw [ht]; exact List.mem_cons_self)
    have hnum := number_ofNat true hn h
    rw [Text.ofInt, List.cons_append, scalar, not_constant ⟨c, by simp [ht], hc⟩]
    exact hnum

end Json

end Rewind
