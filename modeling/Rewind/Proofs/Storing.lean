import Rewind.Proofs.Saving

namespace Rewind

namespace Route

/-- A text whose code points all have bytes for names: no zero, and no half of a surrogate pair
except for those that hold a byte. -/
def Nameable (path : Text) : Prop :=
  ∀ c ∈ path, c ≠ 0 ∧ (c.isSurrogate = true → 0xDC80 ≤ c ∧ c ≤ 0xDCFF)

theorem ofNat_ne_zero {n : Nat} (h : 0 < n) (hn : n < 0x100) : UInt8.ofNat n ≠ 0 := by
  intro he
  have hv := congrArg UInt8.toNat he
  rw [UInt8.toNat_ofNat'] at hv
  have hz : (0 : UInt8).toNat = 0 := rfl
  omega

/-- The only code point with a zero byte is zero. -/
theorem zero_notMem_encodePoint {c : CodePoint} (h : c ≠ 0) : (0 : UInt8) ∉ Utf8.encodePoint c := by
  have hc : 0 < c.val := Nat.pos_of_ne_zero fun hv ↦ h (Fin.ext hv)
  have hn := c.isLt
  have hcont (n : Nat) : (0 : UInt8) ≠ Utf8.continuation n :=
    (ofNat_ne_zero (by omega) (by omega)).symm
  have hlead {n : Nat} (hp : 0 < n) (hl : n < 0x100) : (0 : UInt8) ≠ .ofNat n :=
    (ofNat_ne_zero hp hl).symm
  unfold Utf8.encodePoint
  split_ifs
  · simp only [List.mem_singleton]
    exact hlead hc (by omega)
  · simp only [List.mem_cons, List.not_mem_nil, or_false, not_or]
    exact ⟨hlead (by omega) (by omega), hcont _⟩
  · simp only [List.mem_cons, List.not_mem_nil, or_false, not_or]
    exact ⟨hlead (by omega) (by omega), hcont _, hcont _⟩
  · simp only [List.mem_cons, List.not_mem_nil, or_false, not_or]
    exact ⟨hlead (by omega) (by omega), hcont _, hcont _, hcont _⟩

theorem named_iff {c : CodePoint} :
    (c ≠ 0 ∧ (c.isSurrogate = true → 0xDC80 ≤ c ∧ c ≤ 0xDCFF)) ↔
      ∃ bytes, pointBytes? c = some bytes ∧ (0 : UInt8) ∉ bytes := by
  unfold pointBytes?
  split_ifs with hb hs
  · have hv : 0xDC80 ≤ c.val ∧ c.val ≤ 0xDCFF := hb
    have hz : (0 : UInt8) ≠ .ofNat (c.val - 0xDC00) := (ofNat_ne_zero (by omega) (by omega)).symm
    have hc : c ≠ 0 := by
      rintro rfl
      exact absurd hb.1 (by decide)
    simp [hb, hz, hc]
  · simp [hs, hb]
  · constructor
    · rintro ⟨hc, -⟩
      exact ⟨_, rfl, zero_notMem_encodePoint hc⟩
    · rintro ⟨bytes, hb, hz⟩
      cases hb
      refine ⟨?_, fun hc ↦ absurd hc hs⟩
      rintro rfl
      exact hz (by decide)

/-- The bytes of all code points, if every one of them has any. -/
theorem mapM_pointBytes?_cases (path : Text) :
    (path.mapM pointBytes? = none ∧ ¬ Nameable path) ∨
      ∃ parts, path.mapM pointBytes? = some parts ∧
        (parts.flatten.contains 0 = false ↔ Nameable path) := by
  induction path with
  | nil => exact .inr ⟨[], rfl, by simp [Nameable]⟩
  | cons c path ih =>
    have hn : Nameable (c :: path) ↔
        (∃ bytes, pointBytes? c = some bytes ∧ (0 : UInt8) ∉ bytes) ∧ Nameable path := by
      rw [← named_iff]
      exact List.forall_mem_cons
    rw [List.mapM_cons, hn]
    cases hc : pointBytes? c with
    | none => exact .inl ⟨rfl, by simp⟩
    | some bytes =>
      rcases ih with ⟨hm, hp⟩ | ⟨parts, hm, hp⟩
      · exact .inl ⟨by rw [hm]; rfl, fun h ↦ hp h.2⟩
      · refine .inr ⟨bytes :: parts, by rw [hm]; rfl, ?_⟩
        rw [← hp]
        simp

end Route

namespace Directory

variable {d : Directory} {path : Text}

/-- A path that is not made of names leads nowhere, and that is no fault of the storage. -/
theorem writable_of_not_nameable (h : ¬ Route.Nameable path) :
    ∃ e, d.writable path = .error e ∧ (e = .notEncodable ∨ e = .nullByte) := by
  unfold writable follow Route.ofText
  rcases Route.mapM_pointBytes?_cases path with ⟨hm, -⟩ | ⟨parts, hm, hp⟩
  · rw [hm]
    exact ⟨_, rfl, .inl rfl⟩
  · have hz : parts.flatten.contains 0 = true := by
      rw [← hp] at h
      simpa using h
    rw [hm]
    dsimp only
    rw [if_pos hz]
    exact ⟨_, rfl, .inr rfl⟩

theorem storage_of_writable (h : Route.Nameable path) {e : Fault}
    (he : d.writable path = .error e) : e.kind = .storage := by
  unfold writable follow at he
  cases hr : Route.ofText path with
  | error e' =>
    rw [hr] at he
    cases he
    unfold Route.ofText at hr
    rcases Route.mapM_pointBytes?_cases path with ⟨-, hp⟩ | ⟨parts, hm, hp⟩
    · exact absurd h hp
    · rw [hm] at hr
      dsimp only at hr
      rw [hp.2 h, if_neg Bool.false_ne_true] at hr
      split_ifs at hr <;> cases hr <;> rfl
  | ok r =>
    rw [hr] at he
    simp only [bind, Except.bind] at he
    split at he
    · cases he
    · cases he
      rfl

end Directory

/-- A character as it stands in numbers and names of constants: no quote, backslash or bracket, and
neither a carriage return nor half of a surrogate pair. -/
def CodePoint.Bare (c : CodePoint) : Prop :=
  c ∉ ("\"\\[]\x7b\x7d\r" : Text) ∧ c.isSurrogate = false

instance : DecidablePred CodePoint.Bare := fun c ↦
  inferInstanceAs (Decidable (c ∉ ("\"\\[]\x7b\x7d\r" : Text) ∧ c.isSurrogate = false))

namespace Text

/-- A text of characters that all stand for themselves. -/
def Bare (t : Text) : Prop := ∀ c ∈ t, c.Bare

instance : DecidablePred Bare := fun t ↦
  decidable_of_iff (t.all fun c ↦ decide c.Bare) (by simp [Bare])

variable {t u : Text}

theorem bare_append : Bare (t ++ u) ↔ Bare t ∧ Bare u := by
  simp only [Bare, List.mem_append, or_imp, forall_and]

theorem Bare.mono (h : Bare t) (hs : u ⊆ t) : Bare u := fun c hc ↦ h c (hs hc)

theorem Bare.whole (h : Bare t) : Whole t := fun c hc ↦ (h c hc).2

theorem bare_ofNat (n : Nat) : Bare (ofNat n) := by
  have hd : ∀ n < 10, (digit n).Bare := by decide
  induction n using ofNat_cases with
  | one n h =>
    rw [ofNat_one h]
    exact List.forall_mem_singleton.2 (hd n h)
  | more n d hn h ih =>
    rw [ofNat_more hn h]
    exact bare_append.2 ⟨ih, List.forall_mem_singleton.2 (hd d h)⟩

theorem bare_ofInt (n : Int) : Bare (ofInt n) := by
  cases n with
  | ofNat n => exact bare_ofNat n
  | negSucc n => exact List.forall_mem_cons.2 ⟨by decide, bare_ofNat (n + 1)⟩

end Text

namespace Binary64

theorem bare_zeros (n : Nat) : Text.Bare (zeros n) := by
  intro c hc
  rw [List.eq_of_mem_replicate hc]
  decide

theorem bare_exponentText (e : Int) : Text.Bare (exponentText e) := by
  have hs : Text.Bare (if e < 0 then "-" else "+" : String) := by split_ifs <;> decide
  exact Text.bare_append.2 ⟨Text.bare_append.2 ⟨hs, bare_zeros _⟩, Text.bare_ofNat _⟩

theorem bare_decimal (s : Spelling) (n : Nat) (e : Int) : Text.Bare (s.decimal n e) := by
  have hd : Text.Bare (withoutTrailingZeros (Text.ofNat n)) := by
    apply (Text.bare_ofNat n).mono
    intro c hc
    rw [withoutTrailingZeros, List.mem_reverse] at hc
    exact List.mem_reverse.1 ((List.dropWhile_suffix _).mem hc)
  have htake (k : Nat) : Text.Bare ((withoutTrailingZeros (Text.ofNat n)).take k) :=
    hd.mono (List.take_subset _ _)
  have hdrop (k : Nat) : Text.Bare ((withoutTrailingZeros (Text.ofNat n)).drop k) :=
    hd.mono (List.drop_subset _ _)
  unfold Spelling.decimal
  dsimp only
  split_ifs <;> simp only [Text.bare_append]
  · exact ⟨⟨by decide, bare_zeros _⟩, hd⟩
  · exact ⟨⟨⟨htake _, bare_zeros _⟩, by decide⟩, bare_zeros _⟩
  · exact ⟨⟨⟨htake _, bare_zeros _⟩, by decide⟩, hdrop _⟩
  · exact ⟨⟨⟨htake _, nofun⟩, by decide⟩, bare_exponentText _⟩
  · refine ⟨⟨⟨htake _, ?_⟩, by decide⟩, bare_exponentText _⟩
    exact Text.bare_append.2 ⟨by decide, hdrop _⟩

theorem bare_write (x : Binary64) : Text.Bare (Spelling.stored.write x) := by
  have hs (negative : Bool) : Text.Bare (sign negative) := by cases negative <;> decide
  cases x with
  | nan => exact (by decide : Text.Bare "NaN")
  | infinity negative => exact Text.bare_append.2 ⟨hs negative, by decide⟩
  | finite negative mantissa shift =>
    rw [Spelling.write]
    refine Text.bare_append.2 ⟨hs negative, ?_⟩
    split_ifs
    · decide
    · exact bare_decimal _ _ _

end Binary64

/-- Why a text is not written, if it is not. -/
def Text.flaw? (t : Text) : Option Fault := if Text.Whole t then none else some .notEncodable

/-- Why a level takes no more calls, if it does not. -/
def Nesting.flaw? (place : Nesting) (level : Nat) : Option Fault :=
  if Json.deepest < level then some (.tooDeep place) else none

namespace Value

mutual

/-- Why a value is not written at a level, if it is not: the first such reason in the order of its
document. -/
def flaw? (level : Nat) : Value → Option Fault
  | null | bool _ => none
  | int n => if n.natAbs < 10 ^ Numeral.digitLimit then none else some .integerTooLong
  | float _ => Nesting.comparison.flaw? level
  | text t => t.flaw?
  | list [] | dict [] => none
  | list (v :: vs) => (Nesting.call.flaw? level).or (itemsFlaw? (level + 1) (v :: vs))
  | dict (f :: fs) => (Nesting.call.flaw? level).or (fieldsFlaw? (level + 1) (f :: fs))

def itemsFlaw? (level : Nat) : List Value → Option Fault
  | [] => none
  | v :: vs => (v.flaw? level).or (itemsFlaw? level vs)

def fieldsFlaw? (level : Nat) : List (Text × Value) → Option Fault
  | [] => none
  | (k, v) :: fs => (k.flaw?.or (v.flaw? level)).or (fieldsFlaw? level fs)

end

theorem itemsFlaw?_eq (level : Nat) (vs : List Value) :
    itemsFlaw? level vs = vs.findSome? (flaw? level) := by
  induction vs with
  | nil => rfl
  | cons v vs ih =>
    rw [itemsFlaw?, ih, List.findSome?_cons]
    cases v.flaw? level <;> rfl

theorem fieldsFlaw?_eq (level : Nat) (fs : List (Text × Value)) :
    fieldsFlaw? level fs = fs.findSome? fun f ↦ f.1.flaw?.or (f.2.flaw? level) := by
  induction fs with
  | nil => rfl
  | cons f fs ih =>
    rw [fieldsFlaw?, ih, List.findSome?_cons]
    cases f.1.flaw?.or (f.2.flaw? level) <;> rfl

end Value

namespace Json

/-- Why a piece is not written, if it is not. -/
def flaw? : Piece → Option Fault
  | .error e => some e
  | .ok t => t.flaw?

theorem whole_quoted {s : Text} : Text.Whole (quoted s) ↔ Text.Whole s := by
  refine ⟨whole_of_quoted, fun h ↦ ?_⟩
  have hx (n : Nat) : (Text.hexDigit (n % 16)).isSurrogate = false := by
    have hall : ∀ n < 16, (Text.hexDigit n).isSurrogate = false := by decide
    exact hall _ (Nat.mod_lt n (by decide))
  have hc {c : CodePoint} (hc : c.isSurrogate = false) : Text.Whole (escaped c) := by
    unfold escaped
    split_ifs
    · decide
    · decide
    · decide
    · decide
    · decide
    · decide
    · decide
    · rw [Text.hex_four, Text.whole_append]
      refine ⟨by decide, ?_⟩
      simp only [Text.Whole, List.forall_mem_cons, hx, List.not_mem_nil, false_imp_iff,
        implies_true, and_self]
    · exact List.forall_mem_singleton.2 hc
  refine Text.whole_append.2 ⟨Text.whole_append.2 ⟨by decide, ?_⟩, by decide⟩
  intro d hd
  obtain ⟨c, hm, hd⟩ := List.mem_flatMap.1 hd
  exact hc (h c hm) d hd

theorem flaw?_ok {t : Text} (h : Text.Whole t) : flaw? (.ok t) = none := if_pos h

theorem flaw?_quoted (s : Text) : flaw? (.ok (quoted s)) = s.flaw? := by
  simp only [flaw?, Text.flaw?, whole_quoted]

/-- A text in front of a piece changes nothing if there is nothing wrong with that text. -/
theorem flaw?_lead {lead : Text} (h : Text.Whole lead) (p : Piece) :
    flaw? (p.map (lead ++ ·)) = flaw? p := by
  cases p with
  | error e => rfl
  | ok t => simp only [Except.map, flaw?, Text.flaw?, Text.whole_append, h, true_and]

theorem whole_line (level : Nat) : Text.Whole (line level) := by
  refine Text.whole_append.2 ⟨by decide, fun c hc ↦ ?_⟩
  rw [List.eq_of_mem_replicate hc]
  decide

theorem whole_comma (level : Nat) : Text.Whole ("," ++ line level) :=
  Text.whole_append.2 ⟨by decide, whole_line level⟩

/-- Named members are written up to the first name or piece that is not. -/
theorem findSome?_memberPieces {lead next : Text} (hl : Text.Whole lead) (hn : Text.Whole next)
    (ms : List (Text × List Piece)) : (memberPieces lead next ms).findSome? flaw? =
      ms.findSome? fun m ↦ m.1.flaw?.or (m.2.findSome? flaw?) := by
  induction ms generalizing lead with
  | nil => rfl
  | cons m ms ih =>
    have hc : flaw? (.ok (Text.ofString ": ")) = none := flaw?_ok (by decide)
    rw [memberPieces, List.cons_append, List.cons_append, List.cons_append, List.findSome?_cons,
      flaw?_ok hl, List.findSome?_cons, flaw?_quoted, List.findSome?_cons, hc,
      List.findSome?_append, ih hn, List.findSome?_cons]
    cases m.1.flaw? with
    | some e => rfl
    | none => cases m.2.findSome? flaw? <;> rfl

theorem findSome?_called (level : Nat) (place : Nesting) (ps : List Piece) :
    (called level place ps).findSome? flaw? =
      (place.flaw? level).or (ps.findSome? flaw?) := by
  unfold called Nesting.flaw?
  split_ifs <;> rfl

theorem findSome?_objectPieces (level : Nat) (m : Text × List Piece)
    (ms : List (Text × List Piece)) : (objectPieces level (m :: ms)).findSome? flaw? =
      (Nesting.call.flaw? level).or
        ((m :: ms).findSome? fun m ↦ m.1.flaw?.or (m.2.findSome? flaw?)) := by
  have he : [Except.ok (line level), .ok (Text.ofString "\x7d")].findSome? flaw? = none := by
    rw [List.findSome?_cons, flaw?_ok (whole_line level)]
    rfl
  rw [objectPieces, if_neg (by simp), findSome?_called, List.findSome?_append, he, Option.or_none,
    List.findSome?_cons, flaw?_ok (by decide),
    findSome?_memberPieces (whole_line _) (whole_comma _)]

theorem members_eq_map (level : Nat) (fs : List (Text × Value)) :
    members level fs = fs.map fun f ↦ (f.1, pieces level f.2) := by
  induction fs with
  | nil => rfl
  | cons f fs ih => rw [members, ih, List.map_cons]

/-- The items of a list are written up to the first one that is not. -/
theorem findSome?_itemPieces {vs : List Value}
    (h : ∀ v ∈ vs, ∀ level, (pieces level v).findSome? flaw? = v.flaw? level) {lead : Text}
    (hl : Text.Whole lead) (level : Nat) :
    (itemPieces level lead vs).findSome? flaw? = Value.itemsFlaw? level vs := by
  induction vs generalizing lead with
  | nil => rfl
  | cons v vs ih =>
    obtain ⟨hv, hvs⟩ := List.forall_mem_cons.1 h
    rw [itemPieces, List.findSome?_append, ih hvs (whole_comma level), Value.itemsFlaw?, ← hv level]
    congr 1
    split_ifs
    · rw [List.findSome?_map]
      exact congrArg (List.findSome? · _) (funext (flaw?_lead hl))
    · rw [List.findSome?_cons, flaw?_ok hl]

/-- The fields of a dictionary are written up to the first one that is not. -/
theorem findSome?_members {fs : List (Text × Value)}
    (h : ∀ f ∈ fs, ∀ level, (pieces level f.2).findSome? flaw? = f.2.flaw? level) (level : Nat) :
    ((members level fs).findSome? fun m ↦ m.1.flaw?.or (m.2.findSome? flaw?)) =
      Value.fieldsFlaw? level fs := by
  rw [members_eq_map, List.findSome?_map, Value.fieldsFlaw?_eq]
  induction fs with
  | nil => rfl
  | cons f fs ih =>
    obtain ⟨hf, hfs⟩ := List.forall_mem_cons.1 h
    rw [List.findSome?_cons, List.findSome?_cons, ih hfs, Function.comp, hf]

/-- A value is written up to what is wrong with it. -/
theorem findSome?_pieces (v : Value) (level : Nat) :
    (pieces level v).findSome? flaw? = v.flaw? level := by
  induction v using Value.tree_induction generalizing level with
  | null => rfl
  | bool b => cases b <;> rfl
  | int n =>
    rw [pieces, integer_eq, List.findSome?_singleton, Value.flaw?]
    split_ifs
    · exact flaw?_ok (Text.bare_ofInt n).whole
    · rfl
  | float x =>
    rw [pieces, findSome?_called, List.findSome?_singleton,
      flaw?_ok (Binary64.bare_write x).whole, Option.or_none, Value.flaw?]
  | text t => rw [pieces, List.findSome?_singleton, flaw?_quoted, Value.flaw?]
  | list vs ih =>
    cases vs with
    | nil => rfl
    | cons v vs =>
      have hl : Text.Whole ("[" ++ line (level + 1)) :=
        Text.whole_append.2 ⟨by decide, whole_line _⟩
      have he : [Except.ok (line level), .ok (Text.ofString "]")].findSome? flaw? = none := by
        rw [List.findSome?_cons, flaw?_ok (whole_line level)]
        rfl
      rw [pieces, findSome?_called, List.findSome?_append, he, Option.or_none,
        findSome?_itemPieces ih hl, Value.flaw?]
  | dict fs ih =>
    cases fs with
    | nil => rfl
    | cons f fs =>
      have hf := findSome?_members ih (level + 1)
      rw [members] at hf
      rw [pieces, members, findSome?_objectPieces, hf, Value.flaw?]

end Json

namespace Settings

/-- Why a field is not written, if it is not. -/
def Field.flaw? : Field → Option Fault
  | value v => v.flaw? 1
  | bytes => some .bytes

/-- Why settings are not written, if they are not: the first such reason in their order. -/
def flaw? (s : Settings Field) : Option Fault :=
  s.commandLimit.flaw?.or (s.snapshotLimit.flaw?.or s.mode.flaw?)

theorem written_fault (ps : List Json.Piece) : (written ps).2 = ps.findSome? Json.flaw? := by
  induction ps with
  | nil => rfl
  | cons p ps ih =>
    cases p with
    | error e => rfl
    | ok t =>
      rw [written, List.findSome?_cons, Json.flaw?, Text.flaw?, ← ih]
      unfold Utf8.encode?
      by_cases ht : Text.Whole t
      · rw [if_neg (by simpa [Text.Whole] using ht), if_pos ht]
      · rw [if_pos (by simpa [Text.Whole] using ht), if_neg ht]

/-- The fault that ends the writing of settings is the first thing that is wrong with them. -/
theorem fault_of_document (s : Settings Field) : (written (document s)).2 = s.flaw? := by
  have hf (f : Field) : (f.pieces 1).findSome? Json.flaw? = f.flaw? := by
    cases f with
    | value v => exact Json.findSome?_pieces v 1
    | bytes => rfl
  have hc : commandLimitKey.flaw? = none := if_pos (by decide)
  have hs : snapshotLimitKey.flaw? = none := if_pos (by decide)
  have hm : modeKey.flaw? = none := if_pos (by decide)
  have hn : Nesting.call.flaw? 0 = none := rfl
  rw [written_fault, document, fields, List.map_cons, Json.findSome?_objectPieces, hn,
    Option.none_or]
  simp only [List.map_cons, List.map_nil, List.findSome?_cons, List.findSome?_nil, hc, hs, hm,
    Option.none_or, hf, flaw?]
  cases s.commandLimit.flaw? <;> cases s.snapshotLimit.flaw? <;> cases s.mode.flaw? <;> rfl

variable {d : Directory} {path : Text} {s : Settings Field}

/-- How saving is to end: with an answer and no fault. The answer is yes just where the whole
document has been written to the file; where it is no, that is reported once, and nothing is
reported otherwise. -/
structure Saves (d : Directory) (path : Text) (s : Settings Field) : Prop where
  handled : ∃ b, (save d path s).1.answer = .ok b
  saved : (save d path s).1.answer = .ok true ↔ ∃ p t content, d.writable path = .ok p ∧
    Json.Spells (document s) t ∧ Utf8.encode? t = some content ∧
      (save d path s).2 = d.put p (.file content .free)
  reported : (save d path s).1.answer = .ok false →
    ∃ e, (save d path s).1.reports = [.notSaved e]
  silent : (save d path s).1.answer = .ok true → (save d path s).1.reports = []

theorem save_of_writable {p : Place} (h : d.writable path = .ok p) :
    save d path s = ((s.flaw?.map Saving.ofFault).getD { answer := .ok true },
      d.put p (.file (written (document s)).1 .free)) := by
  rw [save, h, ← fault_of_document]
  dsimp only
  cases (written (document s)).2 <;> rfl

/-- A save succeeds without a word, or gives up because of a fault. -/
theorem save_cases (d : Directory) (path : Text) (s : Settings Field) :
    (save d path s).1 = { answer := .ok true } ∨ ∃ e, (save d path s).1 = .ofFault e := by
  cases hp : d.writable path with
  | error e => exact .inr ⟨e, by rw [save, hp]⟩
  | ok p =>
    rw [save_of_writable hp]
    cases s.flaw? with
    | none => exact .inl rfl
    | some e => exact .inr ⟨e, rfl⟩

theorem Saving.ofFault_cases (e : Fault) :
    ofFault e = { answer := .ok false, reports := [.notSaved e] } ∨
      ofFault e = { answer := .error e } := by
  unfold ofFault
  split_ifs
  · exact .inl rfl
  · exact .inr rfl

theorem raised_of_textFlaw {t : Text} {e : Fault} (h : t.flaw? = some e) :
    Saving.ofFault e = { answer := .error e } := by
  unfold Text.flaw? at h
  split_ifs at h
  cases h
  rfl

theorem raised_of_nestingFlaw {place : Nesting} {level : Nat} {e : Fault}
    (h : place.flaw? level = some e) : Saving.ofFault e = { answer := .error e } := by
  unfold Nesting.flaw? at h
  split_ifs at h
  cases h
  rfl

/-- What is wrong with a value is left to the caller. -/
theorem raised_of_flaw {v : Value} {level : Nat} {e : Fault} (h : v.flaw? level = some e) :
    Saving.ofFault e = { answer := .error e } := by
  induction v using Value.tree_induction generalizing level with
  | null | bool => cases h
  | int n =>
    rw [Value.flaw?] at h
    split_ifs at h
    cases h
    rfl
  | float x => exact raised_of_nestingFlaw h
  | text t => exact raised_of_textFlaw h
  | list vs ih =>
    cases vs with
    | nil => cases h
    | cons v vs =>
      rcases Option.or_eq_some_iff.1 h with h | ⟨-, h⟩
      · exact raised_of_nestingFlaw h
      · rw [Value.itemsFlaw?_eq] at h
        obtain ⟨u, hu, hf⟩ := List.exists_of_findSome?_eq_some h
        exact ih u hu hf
  | dict fs ih =>
    cases fs with
    | nil => cases h
    | cons f fs =>
      rcases Option.or_eq_some_iff.1 h with h | ⟨-, h⟩
      · exact raised_of_nestingFlaw h
      · rw [Value.fieldsFlaw?_eq] at h
        obtain ⟨g, hg, hf⟩ := List.exists_of_findSome?_eq_some h
        rcases Option.or_eq_some_iff.1 hf with hf | ⟨-, hf⟩
        · exact raised_of_textFlaw hf
        · exact ih g hg hf

theorem bytes_or_raised {e : Fault} (h : s.flaw? = some e) :
    e = .bytes ∨ Saving.ofFault e = { answer := .error e } := by
  have hf {f : Field} (h : f.flaw? = some e) :
      e = .bytes ∨ Saving.ofFault e = { answer := .error e } := by
    cases f with
    | value v => exact .inr (raised_of_flaw h)
    | bytes =>
      cases h
      exact .inl rfl
  rcases Option.or_eq_some_iff.1 h with h | ⟨-, h⟩
  · exact hf h
  · rcases Option.or_eq_some_iff.1 h with h | ⟨-, h⟩
    · exact hf h
    · exact hf h

/-- A save that comes to an answer ends as it has to. -/
theorem saves_of_handled (h : ∃ b, (save d path s).1.answer = .ok b) : Saves d path s := by
  rcases save_cases d path s with hs | ⟨e, hs⟩
  · refine ⟨h, saved_iff, fun hn ↦ ?_, fun _ ↦ by rw [hs]⟩
    rw [hs] at hn
    cases hn
  · refine ⟨h, saved_iff, fun _ ↦ ⟨e, ?_⟩, fun hn ↦ ?_⟩
    · obtain ⟨b, hb⟩ := h
      rcases Saving.ofFault_cases e with hr | hr
      · rw [hs, hr]
      · rw [hs, hr] at hb
        cases hb
    · rw [hs] at hn
      exact absurd hn (Saving.answer_ofFault_ne e)

/-- Saving ends as it has to, whatever the path leads to and whatever stands in the fields, if the
path can be one and if the first thing that cannot be written, should there be any, is bytes. -/
theorem saves_iff (d : Directory) (path : Text) (s : Settings Field) :
    Saves d path s ↔ Route.Nameable path ∧
      ((∃ p, d.writable path = .ok p) → s.flaw? = none ∨ s.flaw? = some .bytes) := by
  constructor
  · intro h
    constructor
    · by_contra hn
      obtain ⟨e, he, hk⟩ := Directory.writable_of_not_nameable (d := d) hn
      obtain ⟨b, hb⟩ := h.handled
      rw [save, he] at hb
      rcases hk with rfl | rfl <;> cases hb
    · rintro ⟨p, hp⟩
      cases hf : s.flaw? with
      | none => exact .inl rfl
      | some e =>
        rcases bytes_or_raised hf with rfl | hr
        · exact .inr rfl
        · obtain ⟨b, hb⟩ := h.handled
          rw [save_of_writable hp, hf, Option.map_some, Option.getD_some, hr] at hb
          cases hb
  · rintro ⟨hn, hf⟩
    apply saves_of_handled
    cases hp : d.writable path with
    | error e =>
      rw [save, hp]
      dsimp only
      rw [Saving.ofFault, if_pos (.inl (Directory.storage_of_writable hn hp))]
      exact ⟨false, rfl⟩
    | ok p =>
      rw [save_of_writable hp]
      rcases hf ⟨p, hp⟩ with hf | hf
      · rw [hf]
        exact ⟨true, rfl⟩
      · rw [hf]
        exact ⟨false, rfl⟩

/-- Settings with half of a surrogate pair for a mode. -/
def halved : Settings Value := { standard with mode := .text [0xD800] }

/-- A file can be written, but saving such settings there leaves the fault to the caller. -/
theorem not_saves_halved :
    (∃ p, ({} : Directory).writable "s" = .ok p) ∧
      (save {} "s" (halved.map .value)).1 = { answer := .error .notEncodable } ∧
        ¬ Saves {} "s" (halved.map .value) := by
  have hp : ({} : Directory).writable "s" = .ok (Place.home ++ [[0x73]]) := rfl
  have hf : (halved.map .value).flaw? = some .notEncodable := by decide +kernel
  have hr : (save {} "s" (halved.map .value)).1 = { answer := .error .notEncodable } := by
    rw [save_of_writable hp, hf]
    rfl
  refine ⟨⟨_, hp⟩, hr, fun h ↦ ?_⟩
  obtain ⟨b, hb⟩ := h.handled
  rw [hr] at hb
  cases hb

end Settings

end Rewind
