import Rewind.Proofs.Numerals
import Rewind.Proofs.Quoting

namespace Rewind

namespace Value

mutual

/-- How deep lists and dictionaries nest. -/
def depth : Value → Nat
  | null | bool _ | int _ | float _ | text _ => 0
  | list vs => itemsDepth vs + 1
  | dict fs => fieldsDepth fs + 1

def itemsDepth : List Value → Nat
  | [] => 0
  | v :: vs => max v.depth (itemsDepth vs)

def fieldsDepth : List (Text × Value) → Nat
  | [] => 0
  | f :: fs => max f.2.depth (fieldsDepth fs)

end

mutual

/-- Whether no floating-point number stands in a value and the keys of every dictionary differ. -/
def exact : Value → Bool
  | null | bool _ | int _ | text _ => true
  | float _ => false
  | list vs => exactItems vs
  | dict fs => decide (fs.map Prod.fst).Nodup && exactFields fs

def exactItems : List Value → Bool
  | [] => true
  | v :: vs => v.exact && exactItems vs

def exactFields : List (Text × Value) → Bool
  | [] => true
  | f :: fs => f.2.exact && exactFields fs

end

theorem exactItems_iff {vs : List Value} : exactItems vs = true ↔ ∀ v ∈ vs, v.exact = true := by
  induction vs with
  | nil => simp [exactItems]
  | cons v vs ih => rw [exactItems, Bool.and_eq_true, ih, List.forall_mem_cons]

theorem exactFields_iff {fs : List (Text × Value)} :
    exactFields fs = true ↔ ∀ f ∈ fs, f.2.exact = true := by
  induction fs with
  | nil => simp [exactFields]
  | cons f fs ih => rw [exactFields, Bool.and_eq_true, ih, List.forall_mem_cons]

/-- What holds of lists and dictionaries whenever it holds of all in them, and of all else, holds of
every value. -/
theorem tree_induction {P : Value → Prop} (null : P null) (bool : ∀ b, P (bool b))
    (int : ∀ n, P (int n)) (float : ∀ x, P (float x)) (text : ∀ t, P (text t))
    (list : ∀ vs, (∀ v ∈ vs, P v) → P (list vs))
    (dict : ∀ fs, (∀ f ∈ fs, P f.2) → P (dict fs)) (v : Value) : P v := by
  refine @Value.rec P (fun vs ↦ ∀ v ∈ vs, P v) (fun fs ↦ ∀ f ∈ fs, P f.2) (fun f ↦ P f.2)
    null bool int float text list dict nofun ?_ nofun ?_ ?_ v
  · intro v vs hv hvs
    exact List.forall_mem_cons.2 ⟨hv, hvs⟩
  · intro f fs hf hfs
    exact List.forall_mem_cons.2 ⟨hf, hfs⟩
  · intro k v hv
    exact hv

end Value

/-- A text in which no carriage return stands. -/
def Text.Folded (t : Text) : Prop := CodePoint.ofChar '\r' ∉ t

instance : DecidablePred Text.Folded := fun t ↦
  inferInstanceAs (Decidable (CodePoint.ofChar '\r' ∉ t))

theorem Text.folded_append {t u : Text} : Folded (t ++ u) ↔ Folded t ∧ Folded u := by
  simp only [Folded, List.mem_append, not_or]

namespace Json

/-- The text that pieces make when none of them fails. -/
def Spells : List Piece → Text → Prop
  | [], t => t = []
  | p :: ps, t => ∃ u w, p = .ok u ∧ Spells ps w ∧ t = u ++ w

theorem spells_ok {u t : Text} {ps : List Piece} :
    Spells (.ok u :: ps) t ↔ ∃ w, Spells ps w ∧ t = u ++ w := by
  constructor
  · rintro ⟨u', w, hu, hw, ht⟩
    cases hu
    exact ⟨w, hw, ht⟩
  · rintro ⟨w, hw, ht⟩
    exact ⟨u, w, rfl, hw, ht⟩

theorem spells_append {ps qs : List Piece} {t : Text} :
    Spells (ps ++ qs) t ↔ ∃ u w, Spells ps u ∧ Spells qs w ∧ t = u ++ w := by
  induction ps generalizing t with
  | nil =>
    constructor
    · intro h
      exact ⟨[], t, rfl, h, rfl⟩
    · rintro ⟨u, w, rfl, hw, rfl⟩
      exact hw
  | cons p ps ih =>
    constructor
    · rintro ⟨u, w, hu, hw, rfl⟩
      obtain ⟨a, b, ha, hb, rfl⟩ := ih.1 hw
      exact ⟨u ++ a, b, ⟨u, a, hu, ha, rfl⟩, hb, (List.append_assoc u a b).symm⟩
    · rintro ⟨-, b, ⟨u, a, hu, ha, rfl⟩, hb, rfl⟩
      exact ⟨u, a ++ b, hu, ih.2 ⟨a, b, ha, hb, rfl⟩, List.append_assoc u a b⟩

theorem spells_singleton {p : Piece} {t : Text} : Spells [p] t ↔ p = .ok t := by
  constructor
  · rintro ⟨u, w, hu, rfl, rfl⟩
    rw [List.append_nil]
    exact hu
  · intro h
    exact ⟨t, [], h, rfl, (List.append_nil t).symm⟩

/-- What is spelled is not too deep. -/
theorem spells_of_called {level : Nat} {place : Nesting} {ps : List Piece} {t : Text}
    (h : Spells (called level place ps) t) : Spells ps t := by
  unfold called at h
  split at h
  · cases spells_singleton.1 h
  · exact h

theorem skip_of_not_space {c : CodePoint} (hc : isSpace c = false) (t : Text) :
    skip (c :: t) = c :: t := by
  rw [skip, List.dropWhile_cons, hc]
  rfl

/-- Between a line break and what stands on the line there is nothing but space. -/
theorem skip_line (level : Nat) {c : CodePoint} (hc : isSpace c = false) (t : Text) :
    skip (line level ++ c :: t) = c :: t := by
  have hs : ∀ d ∈ line level, isSpace d = true := by
    intro d hd
    rcases List.mem_append.1 hd with hd | hd
    · rw [List.mem_singleton.1 hd]
      decide
    · rw [List.eq_of_mem_replicate hd]
      decide
  rw [skip, List.dropWhile_append_of_pos hs]
  exact skip_of_not_space hc t

theorem length_line (level : Nat) : (line level).length = 4 * level + 1 := by
  have h : line level = CodePoint.ofChar '\n' :: List.replicate (4 * level) ' ' := rfl
  rw [h, List.length_cons, List.length_replicate]

theorem folded_line (level : Nat) : Text.Folded (line level) := by
  intro h
  rcases List.mem_cons.1 h with h | h
  · exact absurd h (by decide)
  · exact absurd (List.eq_of_mem_replicate h) (by decide)

theorem folded_comma (level : Nat) : Text.Folded ("," ++ line level) :=
  Text.folded_append.2 ⟨by decide, folded_line level⟩

theorem folded_quoted (s : Text) : Text.Folded (quoted s) := by
  intro h
  rcases List.mem_append.1 h with h | h
  · rcases List.mem_append.1 h with h | h
    · exact absurd h (by decide)
    · obtain ⟨c, -, hc⟩ := List.mem_flatMap.1 h
      exact absurd ((escape_escaped c).clear _ hc) (by decide)
  · exact absurd h (by decide)

theorem ends_line (level : Nat) (t : Text) : Ends (line level ++ t) := by
  rintro c hc
  cases hc
  exact .inr rfl

theorem ends_comma (t : Text) : Ends (CodePoint.ofChar ',' :: t) := by
  rintro c hc
  cases hc
  exact .inl rfl

/-- A character that is no space, and neither a byte-order mark nor the bracket that closes a
list. -/
def Opens (c : CodePoint) : Prop := isSpace c = false ∧ c ≠ ']' ∧ c ≠ 0xFEFF

instance : DecidablePred Opens := fun c ↦
  inferInstanceAs (Decidable (isSpace c = false ∧ c ≠ ']' ∧ c ≠ 0xFEFF))

/-- A value is read back from the text that its pieces spell. No carriage return stands in such a
text. -/
structure ReadsBack (v : Value) : Prop where
  folded : ∀ {level t}, Spells (pieces level v) t → Text.Folded t
  head : ∀ {level t}, Spells (pieces level v) t → ∃ c u, t = c :: u ∧ Opens c
  read : ∀ {level t rest fuel room}, Spells (pieces level v) t → Text.Whole t → Ends rest →
    t.length ≤ fuel → v.depth ≤ room → value fuel room (t ++ rest) = .ok (v, rest)

/-- A character that starts neither a text nor a value that holds others. -/
def Starts (c : CodePoint) : Prop := Opens c ∧ c ≠ '"' ∧ c ≠ '[' ∧ c ≠ '\x7b'

instance : DecidablePred Starts := fun c ↦
  inferInstanceAs (Decidable (Opens c ∧ c ≠ '"' ∧ c ≠ '[' ∧ c ≠ '\x7b'))

theorem readsBack_of_scalar {v : Value} (h : ∀ {level t}, Spells (pieces level v) t →
    Text.Folded t ∧ ∃ c u, t = c :: u ∧ Starts c ∧
      ∀ rest, Ends rest → scalar (t ++ rest) = .ok (v, rest)) : ReadsBack v := by
  constructor
  · intro level t ht
    exact (h ht).1
  · intro level t ht
    obtain ⟨-, c, u, hc, ⟨ho, -⟩, -⟩ := h ht
    exact ⟨c, u, hc, ho⟩
  · intro level t rest fuel room ht hw hr hf hd
    obtain ⟨-, c, u, rfl, ⟨-, hq, hl, hb⟩, hv⟩ := h ht
    cases fuel with
    | zero => cases hf
    | succ fuel =>
      rw [← hv rest hr, List.cons_append, value.eq_def]
      dsimp only
      rw [if_neg (by simpa using hq), if_neg (by simpa using hl), if_neg (by simpa using hb)]

theorem readsBack_null : ReadsBack .null := by
  apply readsBack_of_scalar
  intro level t ht
  rw [pieces, spells_singleton] at ht
  cases ht
  exact ⟨by decide, 'n', _, rfl, by decide, fun rest _ ↦ rfl⟩

theorem readsBack_bool (b : Bool) : ReadsBack (.bool b) := by
  apply readsBack_of_scalar
  intro level t ht
  cases b with
  | false =>
    rw [pieces, spells_singleton] at ht
    cases ht
    exact ⟨by decide, 'f', _, rfl, by decide, fun rest _ ↦ rfl⟩
  | true =>
    rw [pieces, spells_singleton] at ht
    cases ht
    exact ⟨by decide, 't', _, rfl, by decide, fun rest _ ↦ rfl⟩

theorem starts_of_digit {c : CodePoint} (h : isDigit c = true) : Starts c := by
  have hne {d : CodePoint} (hd : isDigit d = false) : c ≠ d := by
    rintro rfl
    rw [h] at hd
    cases hd
  refine ⟨⟨?_, hne (by decide), hne (by decide)⟩, hne (by decide), hne (by decide),
    hne (by decide)⟩
  simp only [isSpace, Bool.or_eq_false_iff, beq_eq_false_iff_ne]
  exact ⟨⟨⟨hne (by decide), hne (by decide)⟩, hne (by decide)⟩, hne (by decide)⟩

theorem readsBack_int (n : Int) : ReadsBack (.int n) := by
  apply readsBack_of_scalar
  intro level t ht
  rw [pieces, spells_singleton, integer_eq] at ht
  split at ht
  · rename_i hn
    cases ht
    have hs (rest : Text) (hr : Ends rest) := scalar_ofInt hn hr
    have hd (n : Nat) : Text.Folded (Text.ofNat n) := by
      intro hr
      exact absurd (Text.ofNat_digits n _ hr) (by decide)
    cases n with
    | ofNat n =>
      obtain ⟨c, u, hu, -⟩ := Text.ofNat_head n
      refine ⟨hd n, c, u, hu, starts_of_digit (Text.ofNat_digits n c ?_), hs⟩
      rw [hu]
      exact List.mem_cons_self
    | negSucc n =>
      refine ⟨?_, '-', Text.ofNat (n + 1), rfl, by decide, hs⟩
      exact List.not_mem_cons_of_ne_of_not_mem (by decide) (hd (n + 1))
  · cases ht

theorem value_text {t s rest : Text} (h : string? t = some (s, rest)) (fuel room : Nat) :
    value (fuel + 1) room (CodePoint.ofChar '"' :: t) = .ok (.text s, rest) := by
  rw [value.eq_def]
  dsimp only
  rw [if_pos (by decide), h]

theorem readsBack_text (s : Text) : ReadsBack (.text s) := by
  constructor
  · intro level t ht
    rw [pieces, spells_singleton] at ht
    cases ht
    exact folded_quoted s
  · intro level t ht
    rw [pieces, spells_singleton] at ht
    cases ht
    exact ⟨'"', _, rfl, by decide⟩
  · intro level t rest fuel room ht hw hr hf hd
    rw [pieces, spells_singleton] at ht
    cases ht
    cases fuel with
    | zero => cases hf
    | succ fuel =>
      rw [quoted_append]
      exact value_text (string?_escaped (whole_of_quoted hw) rest) fuel room

theorem exists_piece_of_isScalar {v : Value} (hv : isScalar v = true) (level : Nat) :
    ∃ p, pieces level v = [p] := by
  cases v with
  | null | int | text => exact ⟨_, rfl⟩
  | bool b => cases b <;> exact ⟨_, rfl⟩
  | float x =>
    rw [pieces, called]
    split <;> exact ⟨_, rfl⟩
  | list | dict => cases hv

theorem spells_lead {level : Nat} {lead t : Text} {v : Value}
    (h : Spells (if isScalar v then (pieces level v).map fun p ↦ p.map (lead ++ ·)
      else .ok lead :: pieces level v) t) :
    ∃ u, Spells (pieces level v) u ∧ t = lead ++ u := by
  cases hv : isScalar v with
  | false =>
    rw [hv] at h
    exact spells_ok.1 h
  | true =>
    rw [hv] at h
    obtain ⟨p, hp⟩ := exists_piece_of_isScalar hv level
    rw [hp] at h ⊢
    obtain ⟨u, w, hu, rfl, rfl⟩ := h
    cases p with
    | error e => cases hu
    | ok a =>
      cases hu
      exact ⟨a, spells_singleton.2 rfl, List.append_nil _⟩

theorem spells_item {level : Nat} {lead t : Text} {v : Value} {vs : List Value}
    (h : Spells (itemPieces level lead (v :: vs)) t) :
    ∃ a b, Spells (pieces level v) a ∧ Spells (itemPieces level ("," ++ line level) vs) b ∧
      t = lead ++ (a ++ b) := by
  rw [itemPieces, spells_append] at h
  obtain ⟨t, b, ht, hb, rfl⟩ := h
  obtain ⟨a, ha, rfl⟩ := spells_lead ht
  exact ⟨a, b, ha, hb, List.append_assoc lead a b⟩

theorem items_folded {vs : List Value} (hv : ∀ v ∈ vs, ReadsBack v) {level : Nat} {lead t : Text}
    (hl : Text.Folded lead) (h : Spells (itemPieces level lead vs) t) : Text.Folded t := by
  induction vs generalizing lead t with
  | nil =>
    cases h
    exact List.not_mem_nil
  | cons v vs ih =>
    obtain ⟨a, b, ha, hb, rfl⟩ := spells_item h
    obtain ⟨hr, hrs⟩ := List.forall_mem_cons.1 hv
    rw [Text.folded_append, Text.folded_append]
    exact ⟨hl, hr.folded ha, ih hrs (folded_comma level) hb⟩

/-- The items of a list are read back from the text that their pieces spell, up to the bracket. -/
theorem items_readsBack {vs : List Value} (hv : ∀ v ∈ vs, ReadsBack v) (hn : vs ≠ [])
    {level : Nat} {lead t : Text} (h : Spells (itemPieces level lead vs) t) (hw : Text.Whole t) :
    ∃ c u, t = lead ++ c :: u ∧ Opens c ∧
      ∀ {outer rest fuel room}, (c :: u).length < fuel → Value.itemsDepth vs ≤ room →
        items fuel room (c :: u ++ (line outer ++ CodePoint.ofChar ']' :: rest)) =
          .ok (vs, rest) := by
  induction vs generalizing lead t with
  | nil => exact absurd rfl hn
  | cons v vs ih =>
    obtain ⟨a, b, hp, hb, rfl⟩ := spells_item h
    obtain ⟨hr, hrs⟩ := List.forall_mem_cons.1 hv
    obtain ⟨c, u, rfl, hc⟩ := hr.head hp
    obtain ⟨-, hw⟩ := Text.whole_append.1 hw
    obtain ⟨hwa, hwb⟩ := Text.whole_append.1 hw
    cases vs with
    | nil =>
      cases hb
      refine ⟨c, u, by rw [List.append_nil], hc, ?_⟩
      intro outer rest fuel room hf hd
      cases fuel with
      | zero => cases hf
      | succ fuel =>
        have hd : v.depth ≤ room := (Nat.max_le.1 hd).1
        rw [items, hr.read hp hwa (ends_line outer _) (Nat.le_of_lt_succ hf) hd]
        dsimp only
        rw [skip_line outer (by decide)]
        dsimp only
        rw [if_pos (by decide)]
    | cons v' vs =>
      obtain ⟨c', u', rfl, hc', hi⟩ := ih hrs (List.cons_ne_nil v' vs) hb hwb
      refine ⟨c, u ++ CodePoint.ofChar ',' :: (line level ++ c' :: u'), ?_, hc, ?_⟩
      · rfl
      · intro outer rest fuel room hf hd
        cases fuel with
        | zero => cases hf
        | succ fuel =>
          obtain ⟨hd, hds⟩ := Nat.max_le.1 hd
          simp only [List.length_cons, List.length_append] at hf
          have hu : c :: (u ++ CodePoint.ofChar ',' :: (line level ++ c' :: u')) ++
              (line outer ++ CodePoint.ofChar ']' :: rest) =
            c :: u ++ CodePoint.ofChar ',' :: (line level ++
              (c' :: u' ++ (line outer ++ CodePoint.ofChar ']' :: rest))) := by simp
          rw [hu, items, hr.read hp hwa (ends_comma _) (by simp; omega) hd]
          dsimp only
          rw [skip_of_not_space (by decide)]
          dsimp only
          rw [if_neg (by decide), if_pos (by decide), List.cons_append, skip_line level hc'.1,
            ← List.cons_append, hi (by simp; omega) hds]

theorem spells_member {lead next k t : Text} {qs : List Piece} {ms : List (Text × List Piece)}
    (h : Spells (memberPieces lead next ((k, qs) :: ms)) t) :
    ∃ a b, Spells qs a ∧ Spells (memberPieces next next ms) b ∧
      t = lead ++ (quoted k ++ (": " ++ a ++ b)) := by
  obtain ⟨t₁, h₁, rfl⟩ := spells_ok.1 h
  obtain ⟨t₂, h₂, rfl⟩ := spells_ok.1 h₁
  obtain ⟨t₃, h₃, rfl⟩ := spells_ok.1 h₂
  obtain ⟨a, b, ha, hb, rfl⟩ := spells_append.1 h₃
  exact ⟨a, b, ha, hb, by rw [List.append_assoc]⟩

theorem fields_folded {fs : List (Text × Value)} (hv : ∀ f ∈ fs, ReadsBack f.2) {level : Nat}
    {lead t : Text} (hl : Text.Folded lead)
    (h : Spells (memberPieces lead ("," ++ line level) (members level fs)) t) : Text.Folded t := by
  induction fs generalizing lead t with
  | nil =>
    cases h
    exact List.not_mem_nil
  | cons f fs ih =>
    obtain ⟨a, b, ha, hb, rfl⟩ := spells_member h
    obtain ⟨hr, hrs⟩ := List.forall_mem_cons.1 hv
    simp only [Text.folded_append]
    exact ⟨hl, folded_quoted f.1, ⟨by decide, hr.folded ha⟩, ih hrs (folded_comma level) hb⟩

section

variable {fuel room : Nat} {t u w rest k : Text} {v : Value}

theorem fields_last (hk : string? t = some (k, CodePoint.ofChar ':' :: u))
    (hv : value fuel room (skip u) = .ok (v, w)) (hw : skip w = CodePoint.ofChar '\x7d' :: rest) :
    fields (fuel + 1) room (CodePoint.ofChar '"' :: t) = .ok ([(k, v)], rest) := by
  rw [fields, if_neg (by decide), hk]
  dsimp only
  rw [skip_of_not_space (by decide)]
  dsimp only
  rw [if_neg (by decide), hv]
  dsimp only
  rw [hw]
  dsimp only
  rw [if_pos (by decide)]

theorem fields_more {fs : List (Text × Value)} {r : Text}
    (hk : string? t = some (k, CodePoint.ofChar ':' :: u))
    (hv : value fuel room (skip u) = .ok (v, w)) (hw : skip w = CodePoint.ofChar ',' :: r)
    (hf : fields fuel room (skip r) = .ok (fs, rest)) :
    fields (fuel + 1) room (CodePoint.ofChar '"' :: t) = .ok ((k, v) :: fs, rest) := by
  rw [fields, if_neg (by decide), hk]
  dsimp only
  rw [skip_of_not_space (by decide)]
  dsimp only
  rw [if_neg (by decide), hv]
  dsimp only
  rw [hw]
  dsimp only
  rw [if_neg (by decide), if_pos (by decide), hf]

end

/-- The fields of a dictionary are read back from the text that their pieces spell, up to the
brace. -/
theorem fields_readsBack {fs : List (Text × Value)} (hv : ∀ f ∈ fs, ReadsBack f.2) (hn : fs ≠ [])
    {level : Nat} {lead t : Text}
    (h : Spells (memberPieces lead ("," ++ line level) (members level fs)) t) (hw : Text.Whole t) :
    ∃ u, t = lead ++ CodePoint.ofChar '"' :: u ∧
      ∀ {outer rest fuel room}, u.length + 1 < fuel → Value.fieldsDepth fs ≤ room →
        fields fuel room (CodePoint.ofChar '"' :: (u ++
          (line outer ++ CodePoint.ofChar '\x7d' :: rest))) = .ok (fs, rest) := by
  induction fs generalizing lead t with
  | nil => exact absurd rfl hn
  | cons f fs ih =>
    obtain ⟨k, v⟩ := f
    obtain ⟨a, b, ha, hb, rfl⟩ := spells_member h
    obtain ⟨hr, hrs⟩ := List.forall_mem_cons.1 hv
    obtain ⟨-, hw⟩ := Text.whole_append.1 hw
    obtain ⟨hk, hw⟩ := Text.whole_append.1 hw
    obtain ⟨hw, hwb⟩ := Text.whole_append.1 hw
    have hwa := (Text.whole_append.1 hw).2
    obtain ⟨c, w, rfl, hc⟩ := hr.head ha
    -- The key and what follows its quote, up to any rest.
    have hkey (rest : Text) : string? (k.flatMap escaped ++
        CodePoint.ofChar '"' :: (": " ++ (c :: w) ++ rest)) =
          some (k, CodePoint.ofChar ':' :: CodePoint.ofChar ' ' :: (c :: w ++ rest)) :=
      string?_escaped (whole_of_quoted hk) _
    have hval {rest : Text} {fuel room : Nat} (he : Ends rest) (hf : (c :: w).length ≤ fuel)
        (hd : v.depth ≤ room) :
        value fuel room (skip (CodePoint.ofChar ' ' :: (c :: w ++ rest))) = .ok (v, rest) := by
      rw [List.cons_append, skip, List.dropWhile_cons, if_pos (by decide)]
      rw [← skip, skip_of_not_space hc.1]
      exact hr.read ha hwa he hf hd
    cases fs with
    | nil =>
      cases hb
      refine ⟨k.flatMap escaped ++ CodePoint.ofChar '"' :: (": " ++ (c :: w)), ?_, ?_⟩
      · rw [List.append_nil, quoted_append]
      · intro outer rest fuel room hf hd
        cases fuel with
        | zero => cases hf
        | succ fuel =>
          simp only [List.length_append, List.length_cons] at hf
          rw [List.append_assoc, List.cons_append]
          exact fields_last (hkey _) (hval (ends_line outer _) (by simp; omega) (Nat.max_le.1 hd).1)
            (skip_line outer (by decide) rest)
    | cons f' fs =>
      obtain ⟨u, rfl, hi⟩ := ih hrs (List.cons_ne_nil f' fs) hb hwb
      refine ⟨k.flatMap escaped ++ CodePoint.ofChar '"' :: (": " ++ (c :: w) ++
        CodePoint.ofChar ',' :: (line level ++ CodePoint.ofChar '"' :: u)), ?_, ?_⟩
      · rw [quoted_append]
        rfl
      · intro outer rest fuel room hf hd
        cases fuel with
        | zero => cases hf
        | succ fuel =>
          obtain ⟨hd, hds⟩ := Nat.max_le.1 hd
          simp only [List.length_append, List.length_cons] at hf
          simp only [List.append_assoc _ _ (line outer ++ _), List.cons_append]
          refine fields_more (hkey _) (hval (ends_comma _) (by simp; omega) hd)
            (skip_of_not_space (by decide) _) ?_
          rw [skip_line level (by decide)]
          exact hi (by omega) hds

theorem put_of_new {fs : List (Text × Value)} {k : Text} (h : k ∉ fs.map Prod.fst) (v : Value) :
    put fs k v = fs ++ [(k, v)] := by
  induction fs with
  | nil => rfl
  | cons f fs ih =>
    simp only [List.map_cons, List.mem_cons, not_or] at h
    rw [put, if_neg (Ne.symm h.1), ih h.2, List.cons_append]

/-- Fields with distinct keys are collected as they stand. -/
theorem collect_of_nodup {fs : List (Text × Value)} (h : (fs.map Prod.fst).Nodup) :
    collect fs = fs := by
  have hall (done : List (Text × Value)) (hd : ((done ++ fs).map Prod.fst).Nodup) :
      fs.foldl (fun fs f ↦ put fs f.1 f.2) done = done ++ fs := by
    induction fs generalizing done with
    | nil => rw [List.append_nil]; rfl
    | cons f fs ih =>
      have hn : f.1 ∉ done.map Prod.fst := by
        intro hm
        rw [List.map_append, List.nodup_append] at hd
        exact hd.2.2 _ hm _ List.mem_cons_self rfl
      rw [List.foldl_cons, put_of_new hn, ih (List.nodup_cons.1 h).2 _ (by simpa using hd)]
      simp
  exact hall [] h

section

variable {fuel room : Nat} {t u rest : Text} {c : CodePoint}

theorem value_list {vs : List Value} (ht : skip t = c :: u) (hc : c ≠ ']')
    (hi : items fuel room (c :: u) = .ok (vs, rest)) :
    value (fuel + 1) (room + 1) (CodePoint.ofChar '[' :: t) = .ok (.list vs, rest) := by
  rw [value.eq_def]
  dsimp only
  rw [if_neg (by decide), if_pos (by decide), ht]
  dsimp only
  rw [if_neg (by simpa using hc), hi]

theorem value_dict {fs : List (Text × Value)} (ht : skip t = c :: u) (hc : c ≠ '\x7d')
    (hf : fields fuel room (c :: u) = .ok (fs, rest)) (hk : (fs.map Prod.fst).Nodup) :
    value (fuel + 1) (room + 1) (CodePoint.ofChar '\x7b' :: t) = .ok (.dict fs, rest) := by
  rw [value.eq_def]
  dsimp only
  rw [if_neg (by decide), if_neg (by decide), if_pos (by decide), ht]
  dsimp only
  rw [if_neg (by simpa using hc), hf]
  dsimp only
  rw [collect_of_nodup hk]

end

theorem readsBack_nil : ReadsBack (.list []) := by
  constructor
  · intro level t ht
    rw [pieces, spells_singleton] at ht
    cases ht
    decide
  · intro level t ht
    rw [pieces, spells_singleton] at ht
    cases ht
    exact ⟨'[', _, rfl, by decide⟩
  · intro level t rest fuel room ht hw hr hf hd
    rw [pieces, spells_singleton] at ht
    cases ht
    cases fuel with
    | zero => cases hf
    | succ fuel =>
      cases room with
      | zero => cases hd
      | succ room => rfl

theorem readsBack_empty : ReadsBack (.dict []) := by
  constructor
  · intro level t ht
    cases spells_singleton.1 ht
    decide
  · intro level t ht
    cases spells_singleton.1 ht
    exact ⟨'\x7b', _, rfl, by decide⟩
  · intro level t rest fuel room ht hw hr hf hd
    cases spells_singleton.1 ht
    cases fuel with
    | zero => cases hf
    | succ fuel =>
      cases room with
      | zero => cases hd
      | succ room => rfl

theorem readsBack_list {vs : List Value} (hv : ∀ v ∈ vs, ReadsBack v) : ReadsBack (.list vs) := by
  cases vs with
  | nil => exact readsBack_nil
  | cons v vs =>
    have hparts {level : Nat} {t : Text} (ht : Spells (pieces level (.list (v :: vs))) t) :
        ∃ a, Spells (itemPieces (level + 1) ("[" ++ line (level + 1)) (v :: vs)) a ∧
          t = a ++ (line level ++ "]") := by
      rw [pieces] at ht
      obtain ⟨a, b, ha, hb, rfl⟩ := spells_append.1 (spells_of_called ht)
      obtain ⟨b', hb', rfl⟩ := spells_ok.1 hb
      cases spells_singleton.1 hb'
      exact ⟨a, ha, rfl⟩
    constructor
    · intro level t ht
      obtain ⟨a, ha, rfl⟩ := hparts ht
      have hl : Text.Folded ("[" ++ line (level + 1)) :=
        Text.folded_append.2 ⟨by decide, folded_line (level + 1)⟩
      rw [Text.folded_append, Text.folded_append]
      exact ⟨items_folded hv hl ha, folded_line level, by decide⟩
    · intro level t ht
      obtain ⟨a, ha, rfl⟩ := hparts ht
      obtain ⟨a, b, -, -, rfl⟩ := spells_item ha
      exact ⟨'[', _, rfl, by decide⟩
    · intro level t rest fuel room ht hw hr hf hd
      obtain ⟨a, ha, rfl⟩ := hparts ht
      obtain ⟨hw, -⟩ := Text.whole_append.1 hw
      obtain ⟨c, u, rfl, hc, hi⟩ := items_readsBack hv (List.cons_ne_nil v vs) ha hw
      cases fuel with
      | zero => cases hf
      | succ fuel =>
        cases room with
        | zero => cases hd
        | succ room =>
          have ht : "[" ++ line (level + 1) ++ c :: u ++ (line level ++ "]") ++ rest =
              CodePoint.ofChar '[' :: (line (level + 1) ++
                c :: (u ++ (line level ++ CodePoint.ofChar ']' :: rest))) := by
            simp only [List.append_assoc, List.cons_append]
            rfl
          have hl : (c :: u).length < fuel := by
            simp only [List.length_append, List.length_cons, length_line] at hf ⊢
            omega
          rw [ht]
          exact value_list (skip_line _ hc.1 _) hc.2.1 (hi hl (Nat.le_of_succ_le_succ hd))

theorem readsBack_dict {fs : List (Text × Value)} (hk : (fs.map Prod.fst).Nodup)
    (hv : ∀ f ∈ fs, ReadsBack f.2) : ReadsBack (.dict fs) := by
  cases fs with
  | nil => exact readsBack_empty
  | cons f fs =>
    have hparts {level : Nat} {t : Text} (ht : Spells (pieces level (.dict (f :: fs))) t) :
        ∃ a, Spells (memberPieces (line (level + 1)) ("," ++ line (level + 1))
            (members (level + 1) (f :: fs))) a ∧
          t = "\x7b" ++ (a ++ (line level ++ "\x7d")) := by
      rw [pieces] at ht
      obtain ⟨t', ht', rfl⟩ := spells_ok.1 (spells_of_called ht)
      obtain ⟨a, b, ha, hb, rfl⟩ := spells_append.1 ht'
      obtain ⟨b', hb', rfl⟩ := spells_ok.1 hb
      cases spells_singleton.1 hb'
      exact ⟨a, ha, rfl⟩
    constructor
    · intro level t ht
      obtain ⟨a, ha, rfl⟩ := hparts ht
      simp only [Text.folded_append]
      exact ⟨by decide, fields_folded hv (folded_line (level + 1)) ha, folded_line level, by decide⟩
    · intro level t ht
      obtain ⟨a, ha, rfl⟩ := hparts ht
      exact ⟨'\x7b', _, rfl, by decide⟩
    · intro level t rest fuel room ht hw hr hf hd
      obtain ⟨a, ha, rfl⟩ := hparts ht
      obtain ⟨-, hw⟩ := Text.whole_append.1 hw
      obtain ⟨hw, -⟩ := Text.whole_append.1 hw
      obtain ⟨u, rfl, hi⟩ := fields_readsBack hv (List.cons_ne_nil f fs) ha hw
      cases fuel with
      | zero => cases hf
      | succ fuel =>
        cases room with
        | zero => cases hd
        | succ room =>
          have ht : "\x7b" ++ (line (level + 1) ++ CodePoint.ofChar '"' :: u ++
              (line level ++ "\x7d")) ++ rest =
            CodePoint.ofChar '\x7b' :: (line (level + 1) ++ CodePoint.ofChar '"' ::
              (u ++ (line level ++ CodePoint.ofChar '\x7d' :: rest))) := by
            simp only [List.append_assoc, List.cons_append]
            rfl
          have hl : u.length + 1 < fuel := by
            simp only [List.length_append, List.length_cons, length_line] at hf
            omega
          rw [ht]
          exact value_dict (skip_line _ (by decide) _) (by decide)
            (hi hl (Nat.le_of_succ_le_succ hd)) hk

theorem readsBack_of_exact {v : Value} (h : v.exact = true) : ReadsBack v := by
  induction v using Value.tree_induction with
  | null => exact readsBack_null
  | bool b => exact readsBack_bool b
  | int n => exact readsBack_int n
  | float x => cases h
  | text t => exact readsBack_text t
  | list vs ih =>
    apply readsBack_list
    intro v hv
    exact ih v hv (Value.exactItems_iff.1 h v hv)
  | dict fs ih =>
    obtain ⟨hk, hf⟩ := Bool.and_eq_true_iff.1 h
    apply readsBack_dict (of_decide_eq_true hk)
    intro f hm
    exact ih f hm (Value.exactFields_iff.1 hf f hm)

/-- A document that was written is read as the value that it was written for. -/
theorem readWithin_spelled {v : Value} (h : v.exact = true) {level room : Nat} {t : Text}
    (ht : Spells (pieces level v) t) (hw : Text.Whole t) (hd : v.depth ≤ room) :
    readWithin room t = .ok v := by
  have hr := readsBack_of_exact h
  have hv (fuel : Nat) (hf : t.length ≤ fuel) : value fuel room t = .ok (v, []) := by
    have hv := hr.read ht hw ends_nil hf hd
    rwa [List.append_nil] at hv
  obtain ⟨c, u, rfl, hs, -, hm⟩ := hr.head ht
  rw [readWithin, if_neg (by simpa using hm), skip_of_not_space hs, hv _ (by omega)]
  rfl

end Json

end Rewind
