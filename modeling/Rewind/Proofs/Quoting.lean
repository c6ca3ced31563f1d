import Mathlib.Tactic.SplitIfs
import Rewind.Json.Reader
import Rewind.Json.Writer

namespace Rewind

namespace Text

/-- A text in which no half of a surrogate pair stands. -/
def Whole (t : Text) : Prop := ∀ c ∈ t, c.isSurrogate = false

instance : DecidablePred Whole := fun t ↦
  decidable_of_iff (t.all fun c ↦ !c.isSurrogate) (by simp [Whole])

theorem whole_append {t u : Text} : Whole (t ++ u) ↔ Whole t ∧ Whole u := by
  simp only [Whole, List.mem_append, or_imp, forall_and]

theorem hexValue?_hexDigit {n : Nat} (h : n < 16) : Json.hexValue? (hexDigit n) = some n := by
  have hall : ∀ n < 16, Json.hexValue? (hexDigit n) = some n := by decide
  exact hall n h

theorem hexDigit_val {n : Nat} (h : n < 16) : 0x20 ≤ (hexDigit n).val ∧ hexDigit n ≠ '"' ∧
    hexDigit n ≠ '\\' := by
  have hall : ∀ n < 16, 0x20 ≤ (hexDigit n).val ∧ hexDigit n ≠ '"' ∧ hexDigit n ≠ '\\' := by decide
  exact hall n h

theorem hex_four (n : Nat) : hex 4 n =
    [hexDigit (n / 16 / 16 / 16 % 16), hexDigit (n / 16 / 16 % 16), hexDigit (n / 16 % 16),
      hexDigit (n % 16)] := rfl

end Text

namespace Json

theorem unit?_hex {n : Nat} (h : n < 0x10000) :
    unit? (Text.hexDigit (n / 16 / 16 / 16 % 16)) (Text.hexDigit (n / 16 / 16 % 16))
      (Text.hexDigit (n / 16 % 16)) (Text.hexDigit (n % 16)) = some (Fin.ofNat _ n) := by
  have hn : n / 16 / 16 / 16 % 16 * 0x1000 + n / 16 / 16 % 16 * 0x100 + n / 16 % 16 * 0x10 +
      n % 16 = n := by omega
  rw [unit?]
  simp only [Text.hexValue?_hexDigit (Nat.mod_lt _ (by decide : 0 < 16)), bind, Option.bind, hn]
  rfl

/-- How a code point is written between quotes: as it is, by a character after a backslash, or by
its number. -/
inductive Escape (c : CodePoint) : Text → Prop where
  | plain (hq : c ≠ '"') (hb : c ≠ '\\') (hc : 0x20 ≤ c.val) : Escape c [c]
  | short (d : CodePoint) (hd : escape? d = some c) (hu : d ≠ 'u') (hv : 0x20 ≤ d.val)
    (hs : c.isSurrogate = false) : Escape c ['\\', d]
  | long (hc : c.val < 0x20) : Escape c ('\\' :: 'u' :: Text.hex 4 c.val)

theorem escape_escaped (c : CodePoint) : Escape c (escaped c) := by
  unfold escaped
  split_ifs with hq hb hn hr ht hf hs hc
  · rw [eq_of_beq hq]
    exact .short '"' (by decide) (by decide) (by decide) (by decide)
  · rw [eq_of_beq hb]
    exact .short '\\' (by decide) (by decide) (by decide) (by decide)
  · rw [eq_of_beq hn]
    exact .short 'n' (by decide) (by decide) (by decide) (by decide)
  · rw [eq_of_beq hr]
    exact .short 'r' (by decide) (by decide) (by decide) (by decide)
  · rw [eq_of_beq ht]
    exact .short 't' (by decide) (by decide) (by decide) (by decide)
  · rw [eq_of_beq hf]
    exact .short 'f' (by decide) (by decide) (by decide) (by decide)
  · rw [eq_of_beq hs]
    exact .short 'b' (by decide) (by decide) (by decide) (by decide)
  · exact .long hc
  · exact .plain (by simpa using hq) (by simpa using hb) (Nat.not_lt.1 hc)

theorem body?_quote (t : Text) : body? (CodePoint.ofChar '"' :: t) = some ([], t) := by
  rw [body?.eq_def]
  rfl

theorem body?_backslash (d : CodePoint) (t : Text) :
    body? (CodePoint.ofChar '\\' :: d :: t) =
      (body? t).map fun r ↦ (CodePoint.ofChar '\\' :: d :: r.1, r.2) := by
  rw [body?.eq_def]
  rfl

theorem body?_plain {c : CodePoint} (hq : c ≠ '"') (hb : c ≠ '\\') (hc : 0x20 ≤ c.val) (t : Text) :
    body? (c :: t) = (body? t).map fun r ↦ (c :: r.1, r.2) := by
  rw [body?.eq_def]
  simp only [beq_eq_false_iff_ne.2 hq, beq_eq_false_iff_ne.2 hb, Bool.false_eq_true, if_false,
    if_neg (Nat.not_lt.2 hc)]

theorem Escape.body? {c : CodePoint} {u : Text} (h : Escape c u) (t : Text) :
    Json.body? (u ++ t) = (Json.body? t).map fun r ↦ (u ++ r.1, r.2) := by
  cases h with
  | plain hq hb hc => exact body?_plain hq hb hc t
  | short d hd hu hv hs => exact body?_backslash d t
  | long hc =>
    have hd (n : Nat) (r : Text) : Json.body? (Text.hexDigit (n % 16) :: r) =
        (Json.body? r).map fun r ↦ (Text.hexDigit (n % 16) :: r.1, r.2) := by
      obtain ⟨hv, hq, hb⟩ := Text.hexDigit_val (Nat.mod_lt n (by decide : 0 < 16))
      exact body?_plain hq hb hv r
    simp only [Text.hex_four, List.cons_append, List.nil_append, body?_backslash, hd,
      Option.map_map]
    rfl

theorem Escape.unescape? {c : CodePoint} {u : Text} (h : Escape c u) (t : Text) :
    Json.unescape? (u ++ t) = (Json.unescape? t).map (c :: ·) := by
  rw [Json.unescape?.eq_def]
  cases h with
  | plain hq hb hc => simp [hb]
  | short d hd hu hv hs =>
    simp only [List.cons_append, List.nil_append, bne_self_eq_false, Bool.false_eq_true, if_false,
      beq_eq_false_iff_ne.2 hu, hd]
    cases Json.unescape? t <;> rfl
  | long hc =>
    simp only [List.cons_append, List.nil_append, Text.hex_four, bne_self_eq_false,
      Bool.false_eq_true, if_false, beq_self_eq_true, if_true,
      unit?_hex (Nat.lt_trans hc (by decide)), Fin.ofNat_val_eq_self]
    cases Json.unescape? t <;> rfl

theorem Escape.clear {c : CodePoint} {u : Text} (h : Escape c u) : ∀ d ∈ u, 0x20 ≤ d.val := by
  cases h with
  | plain hq hb hc => simpa using hc
  | short d hd hu hv hs =>
    intro e he
    simp only [List.mem_cons, List.not_mem_nil, or_false] at he
    rcases he with rfl | rfl
    · decide
    · exact hv
  | long hc =>
    have hd (n : Nat) : 0x20 ≤ (Text.hexDigit (n % 16)).val :=
      (Text.hexDigit_val (Nat.mod_lt n (by decide : 0 < 16))).1
    intro e he
    simp only [Text.hex_four, List.mem_cons, List.not_mem_nil, or_false] at he
    rcases he with rfl | rfl | rfl | rfl | rfl | rfl
    · decide
    · decide
    · exact hd _
    · exact hd _
    · exact hd _
    · exact hd _

theorem Escape.not_surrogate {c : CodePoint} {u : Text} (h : Escape c u) (hu : Text.Whole u) :
    c.isSurrogate = false := by
  cases h with
  | plain hq hb hc => exact hu c List.mem_cons_self
  | short d hd hu hv hs => exact hs
  | long hc =>
    rw [CodePoint.isSurrogate, Bool.and_eq_false_iff]
    left
    rw [decide_eq_false_iff_not, Fin.le_def]
    exact Nat.not_le.2 (Nat.lt_trans hc (by decide))

theorem isSurrogate_of_high {c : CodePoint} (h : c.isHighSurrogate = true) :
    c.isSurrogate = true := by
  simp only [CodePoint.isHighSurrogate, Bool.and_eq_true, decide_eq_true_eq] at h
  simp only [CodePoint.isSurrogate, Bool.and_eq_true, decide_eq_true_eq]
  exact ⟨h.1, Fin.le_trans h.2 (by decide)⟩

theorem joinPairs_eq {t : Text} (ht : Text.Whole t) : joinPairs t = t := by
  induction t using joinPairs.induct with
  | case1 h l t hp ih =>
    have hs := ht h List.mem_cons_self
    rw [isSurrogate_of_high (Bool.and_eq_true_iff.1 hp).1] at hs
    cases hs
  | case2 h l t hp ih =>
    rw [joinPairs, if_neg hp, ih fun c hc ↦ ht c (List.mem_cons_of_mem h hc)]
  | case3 t hn =>
    rw [joinPairs.eq_def]
    split
    · exact absurd rfl (hn _ _ _)
    · rfl

/-- A text between quotes is taken back character by character. -/
theorem string?_escaped {t : Text} (ht : Text.Whole t) (rest : Text) :
    string? (t.flatMap escaped ++ CodePoint.ofChar '"' :: rest) = some (t, rest) := by
  have hb : body? (t.flatMap escaped ++ CodePoint.ofChar '"' :: rest) =
      some (t.flatMap escaped, rest) := by
    clear ht
    induction t with
    | nil => exact body?_quote rest
    | cons c t ih =>
      rw [List.flatMap_cons, List.append_assoc, (escape_escaped c).body?, ih]
      rfl
  have hu : unescape? (t.flatMap escaped) = some t := by
    clear ht hb
    induction t with
    | nil => rfl
    | cons c t ih =>
      rw [List.flatMap_cons, (escape_escaped c).unescape?, ih]
      rfl
  simp only [string?, hb, hu, joinPairs_eq ht, bind, Option.bind]
  rfl

theorem quoted_append (s rest : Text) : quoted s ++ rest =
    CodePoint.ofChar '"' :: (s.flatMap escaped ++ CodePoint.ofChar '"' :: rest) := by
  have h : quoted s = CodePoint.ofChar '"' :: (s.flatMap escaped ++ [CodePoint.ofChar '"']) := rfl
  rw [h, List.cons_append, List.append_assoc]
  rfl

theorem whole_of_quoted {s : Text} (h : Text.Whole (quoted s)) : Text.Whole s := by
  intro c hc
  apply (escape_escaped c).not_surrogate
  intro d hd
  apply h
  have hm : d ∈ s.flatMap escaped := List.mem_flatMap.2 ⟨c, hc, hd⟩
  exact List.mem_append_left _ (List.mem_append_right _ hm)

end Json

end Rewind
