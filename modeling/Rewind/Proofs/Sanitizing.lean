import Rewind.Proofs.Likeness
import Rewind.Proofs.Saving
import Rewind.Proofs.Spelled

namespace Rewind

namespace Value

/-- The integer that a value stands for: truth values count as zero and one, fractions are cut off,
and a text has to spell it. -/
inductive StandsFor : Value → Int → Prop where
  | no : StandsFor (bool false) 0
  | yes : StandsFor (bool true) 1
  | int (n : Int) : StandsFor (int n) n
  | float {x : Binary64} {units : Int} :
      Number.ofBinary64 x = .finite units → StandsFor (float x) (units.tdiv Binary64.one)
  | text {t : Text} {n : Int} : Numeral.Spells t n → StandsFor (text t) n

/-- What is wrong with a value that stands for no integer. -/
def refusal : Value → Fault.Kind
  | float (.infinity _) => .overflow
  | float _ | text _ => .value
  | _ => .type

variable {v : Value} {n : Int} {e : Fault}

theorem truncated_eq (negative : Bool) (mantissa shift : Nat) {units : Int}
    (h : Number.ofBinary64 (.finite negative mantissa shift) = .finite units) :
    Binary64.truncated negative mantissa shift = units.tdiv Binary64.one := by
  cases h
  rw [Binary64.truncated]
  cases negative with
  | false => exact Int.ofNat_tdiv _ _
  | true =>
    rw [if_pos rfl, if_pos rfl, Int.neg_tdiv]
    exact congrArg _ (Int.ofNat_tdiv _ _)

theorem toInt_text {t : Text} : (text t).toInt = .ok n ↔ Numeral.Spells t n := by
  rw [toInt, ← Numeral.read_eq_ok_iff]
  cases Numeral.read t with
  | ok m => simp
  | error refusal => cases refusal <;> simp

theorem toInt_eq_ok_iff : v.toInt = .ok n ↔ v.StandsFor n := by
  constructor
  · intro h
    cases v with
    | bool b =>
      cases b <;> cases h
      · exact .no
      · exact .yes
    | int m =>
      cases h
      exact .int n
    | float x =>
      cases x with
      | finite negative mantissa shift =>
        cases h
        rw [truncated_eq negative mantissa shift rfl]
        exact .float rfl
      | nan | infinity => cases h
    | text t => exact .text (toInt_text.1 h)
    | null | list | dict => cases h
  · intro h
    cases h with
    | no | yes | int => rfl
    | @float x units hx =>
      cases x with
      | finite negative mantissa shift => rw [toInt, truncated_eq negative mantissa shift hx]
      | nan | infinity => cases hx
    | text ht => exact toInt_text.2 ht

theorem kind_of_toInt (h : v.toInt = .error e) : e.kind = v.refusal := by
  cases v with
  | float x => cases x <;> cases h <;> rfl
  | text t =>
    rw [toInt] at h
    split at h <;> cases h <;> rfl
  | bool | int => cases h
  | null | list | dict =>
    cases h
    rfl

end Value

namespace Mode

variable {v : Value} {m : Mode}

theorem ofValue?_text (m : Mode) : ofValue? (.text m.text) = some m := by
  cases m <;> rfl

theorem ofValue?_eq_some_iff : ofValue? v = some m ↔ v = .text m.text := by
  constructor
  · intro h
    rw [ofValue?] at h
    have hs := List.find?_some h
    exact Value.same_text.1 hs
  · rintro rfl
    exact ofValue?_text m

end Mode

namespace Settings

/-- The key of the limit of a history. -/
def limitKey : Mode → Text
  | .commands => commandLimitKey
  | .snapshots => snapshotLimitKey

section

variable {φ : Type}

def limitOf (s : Settings φ) : Mode → φ
  | .commands => s.commandLimit
  | .snapshots => s.snapshotLimit

def withLimit (s : Settings φ) (m : Mode) (limit : φ) : Settings φ :=
  match m with
  | .commands => { s with commandLimit := limit }
  | .snapshots => { s with snapshotLimit := limit }

end

variable {data : List (Text × Value)} {m : Mode} {v : Value} {s : Settings Value} {e : Fault}

/-- The limit that a dictionary gives to a history: the integer at its key, or zero if that is
negative. -/
inductive Limits (data : List (Text × Value)) (m : Mode) : Value → Prop where
  | missing : Value.field? (limitKey m) data = none → Limits data m (standard.limitOf m)
  | given {v : Value} {n : Int} : Value.field? (limitKey m) data = some v → v.StandsFor n →
      Limits data m (.int (max 0 n))

/-- The mode that a dictionary gives: the one at its key if that is known. -/
inductive Chooses (data : List (Text × Value)) : Value → Prop where
  | known {m : Mode} : Value.field? modeKey data = some (.text m.text) → Chooses data (.text m.text)
  | unknown : (∀ m : Mode, Value.field? modeKey data ≠ some (.text m.text)) →
      Chooses data standard.mode

/-- Settings are those that a dictionary gives, made fit for use. -/
structure Sanitized (data : List (Text × Value)) (s : Settings Value) : Prop where
  limit : ∀ m, Limits data m (s.limitOf m)
  mode : Chooses data s.mode

/-- The value at the key of a limit stands for no integer. -/
def Offends (data : List (Text × Value)) (m : Mode) (e : Fault) : Prop :=
  ∃ v, Value.field? (limitKey m) data = some v ∧ v.toInt = .error e

/-- The limit of a history from a dictionary. -/
def limitFrom (data : List (Text × Value)) (m : Mode) : Except Fault Value :=
  limit (limitKey m) (standard.limitOf m) data

theorem limitFrom_missing (h : Value.field? (limitKey m) data = none) :
    limitFrom data m = .ok (standard.limitOf m) := by
  rw [limitFrom, limit, h]
  cases m <;> rfl

theorem limitFrom_given (h : Value.field? (limitKey m) data = some v) :
    limitFrom data m = (fun n ↦ .int (max 0 n)) <$> v.toInt := by
  rw [limitFrom, limit, h, Option.getD_some, bind_pure_comp]

theorem limitFrom_eq_ok_iff : limitFrom data m = .ok v ↔ Limits data m v := by
  cases hv : Value.field? (limitKey m) data with
  | none =>
    rw [limitFrom_missing hv]
    constructor
    · rintro ⟨⟩
      exact .missing hv
    · intro h
      cases h with
      | missing => rfl
      | given hw => cases hv.symm.trans hw
  | some w =>
    rw [limitFrom_given hv]
    constructor
    · intro h
      cases hn : w.toInt with
      | ok n =>
        rw [hn] at h
        cases h
        exact .given hv (Value.toInt_eq_ok_iff.1 hn)
      | error e =>
        rw [hn] at h
        cases h
    · intro h
      cases h with
      | missing hn => cases hv.symm.trans hn
      | given hw hn =>
        cases hv.symm.trans hw
        rw [Value.toInt_eq_ok_iff.2 hn]
        rfl

theorem limitFrom_eq_error_iff : limitFrom data m = .error e ↔ Offends data m e := by
  cases hv : Value.field? (limitKey m) data with
  | none =>
    rw [limitFrom_missing hv]
    constructor
    · rintro ⟨⟩
    · rintro ⟨w, hw, -⟩
      cases hv.symm.trans hw
  | some w =>
    have hw : Offends data m e ↔ w.toInt = .error e := by
      simp [Offends, hv]
    rw [limitFrom_given hv, hw]
    cases w.toInt with
    | ok n => exact ⟨nofun, nofun⟩
    | error e' => exact ⟨fun h ↦ by cases h; rfl, fun h ↦ by cases h; rfl⟩

theorem not_offends_of_limits (h : Limits data m v) : ¬ Offends data m e := by
  intro ho
  cases (limitFrom_eq_ok_iff.2 h).symm.trans (limitFrom_eq_error_iff.2 ho)

/-- The mode from a dictionary. -/
def modeFrom (data : List (Text × Value)) : Value :=
  .text (((Value.field? modeKey data).bind Mode.ofValue?).getD .commands).text

theorem modeFrom_known (h : Value.field? modeKey data = some (.text m.text)) :
    modeFrom data = .text m.text := by
  rw [modeFrom, h, Option.bind_some, Mode.ofValue?_text, Option.getD_some]

theorem modeFrom_unknown (h : ∀ m : Mode, Value.field? modeKey data ≠ some (.text m.text)) :
    modeFrom data = standard.mode := by
  have hn : (Value.field? modeKey data).bind Mode.ofValue? = none := by
    refine Option.eq_none_iff_forall_ne_some.2 fun m hm ↦ ?_
    obtain ⟨v, hv, hm⟩ := Option.bind_eq_some_iff.1 hm
    exact h m (Mode.ofValue?_eq_some_iff.1 hm ▸ hv)
  rw [modeFrom, hn]
  rfl

theorem modeFrom_eq_iff : modeFrom data = v ↔ Chooses data v := by
  constructor
  · rintro rfl
    by_cases h : ∃ m : Mode, Value.field? modeKey data = some (.text m.text)
    · obtain ⟨m, hm⟩ := h
      rw [modeFrom_known hm]
      exact .known hm
    · have h : ∀ m : Mode, Value.field? modeKey data ≠ some (.text m.text) := not_exists.1 h
      rw [modeFrom_unknown h]
      exact .unknown h
  · intro h
    cases h with
    | known hm => exact modeFrom_known hm
    | unknown hn => exact modeFrom_unknown hn

theorem ofValue_dict : ofValue (.dict data) = (do
    let commandLimit ← limitFrom data .commands
    let snapshotLimit ← limitFrom data .snapshots
    return ⟨commandLimit, snapshotLimit, modeFrom data⟩) := rfl

/-- What is wrong with a value that gives no settings. The limit for commands is looked at first. -/
inductive Refuses : Value → Fault → Prop where
  | notDictionary {v : Value} : (∀ data, v ≠ .dict data) → Refuses v (.notDictionary v.kind)
  | commands {data : List (Text × Value)} {e : Fault} :
      Offends data .commands e → Refuses (.dict data) e
  | snapshots {data : List (Text × Value)} {e : Fault} : (∀ e', ¬ Offends data .commands e') →
      Offends data .snapshots e → Refuses (.dict data) e

theorem ofValue_dict_eq_ok_iff : ofValue (.dict data) = .ok s ↔ Sanitized data s := by
  constructor
  · intro h
    rw [ofValue_dict] at h
    cases hc : limitFrom data .commands with
    | error e =>
      rw [hc] at h
      cases h
    | ok c =>
      cases hs : limitFrom data .snapshots with
      | error e =>
        rw [hc, hs] at h
        cases h
      | ok n =>
        rw [hc, hs] at h
        cases h
        refine ⟨fun m ↦ ?_, modeFrom_eq_iff.1 rfl⟩
        cases m with
        | commands => exact limitFrom_eq_ok_iff.1 hc
        | snapshots => exact limitFrom_eq_ok_iff.1 hs
  · intro h
    rw [ofValue_dict, limitFrom_eq_ok_iff.2 (h.limit .commands),
      limitFrom_eq_ok_iff.2 (h.limit .snapshots), modeFrom_eq_iff.2 h.mode]
    rfl

theorem ofValue_eq_error_iff : ofValue v = .error e ↔ Refuses v e := by
  cases v with
  | dict data =>
    rw [ofValue_dict]
    constructor
    · intro h
      cases hc : limitFrom data .commands with
      | error e' =>
        rw [hc] at h
        cases h
        exact .commands (limitFrom_eq_error_iff.1 hc)
      | ok c =>
        cases hs : limitFrom data .snapshots with
        | error e' =>
          rw [hc, hs] at h
          cases h
          exact .snapshots (fun _ ↦ not_offends_of_limits (limitFrom_eq_ok_iff.1 hc))
            (limitFrom_eq_error_iff.1 hs)
        | ok n =>
          rw [hc, hs] at h
          cases h
    · intro h
      cases h with
      | notDictionary hd => exact absurd rfl (hd data)
      | commands ho =>
        rw [limitFrom_eq_error_iff.2 ho]
        rfl
      | snapshots hn ho =>
        cases hc : limitFrom data .commands with
        | error e' => exact absurd (limitFrom_eq_error_iff.1 hc) (hn e')
        | ok c =>
          rw [limitFrom_eq_error_iff.2 ho]
          rfl
  | null | bool | int | float | text | list =>
    constructor
    · rintro ⟨⟩
      exact .notDictionary nofun
    · intro h
      cases h with
      | notDictionary _ => rfl

theorem Refuses.blame (h : Refuses v e) :
    (∀ data, v ≠ .dict data) ∧ e.kind = .member ∨ ∃ data m w, v = .dict data ∧
      Value.field? (limitKey m) data = some w ∧ e.kind = w.refusal := by
  cases h with
  | notDictionary hd => exact .inl ⟨hd, rfl⟩
  | commands ho | snapshots _ ho =>
    obtain ⟨w, hw, he⟩ := ho
    exact .inr ⟨_, _, w, rfl, hw, Value.kind_of_toInt he⟩

theorem Proper.exists_checked (h : Proper s) : ∃ m n mode, s = checked m n mode := by
  obtain ⟨⟨m, hm⟩, ⟨n, hn⟩, ⟨mode, hmode⟩⟩ := h
  obtain ⟨c, l, d⟩ := s
  exact ⟨m, n, mode, by rw [checked, ← hm, ← hn, ← hmode]⟩

/-- Only the values at the known keys matter. -/
theorem ofValue_congr {data data' : List (Text × Value)}
    (hl : ∀ m, Value.field? (limitKey m) data' = Value.field? (limitKey m) data)
    (hm : Value.field? modeKey data' = Value.field? modeKey data) :
    ofValue (.dict data') = ofValue (.dict data) := by
  have hlimit (m : Mode) : limitFrom data' m = limitFrom data m := by
    rw [limitFrom, limit, hl m]
    rfl
  rw [ofValue_dict, ofValue_dict, hlimit, hlimit, modeFrom, hm]
  rfl

/-- How a value becomes settings: a dictionary does if its limits stand for integers, whatever else
is in it and in whatever order, and what it becomes stays as it is from then on. -/
structure Sanitizes (v : Value) : Prop where
  accepts : (∃ s, ofValue v = .ok s) ↔ ∃ data, v = .dict data ∧
    ∀ m w, Value.field? (limitKey m) data = some w → ∃ n, w.StandsFor n
  gives : ∀ s, ofValue v = .ok s ↔ ∃ data, v = .dict data ∧ Sanitized data s
  proper : ∀ s, ofValue v = .ok s → Proper s
  again : ∀ s, ofValue v = .ok s → ofValue s.toValue = .ok s
  known : ∀ data data', v = .dict data →
    (∀ m, Value.field? (limitKey m) data' = Value.field? (limitKey m) data) →
    Value.field? modeKey data' = Value.field? modeKey data → ofValue (.dict data') = ofValue v
  order : ∀ data data', v = .dict data → (data.map Prod.fst).Nodup → data.Perm data' →
    ofValue (.dict data') = ofValue v
  refuses : ∀ e, ofValue v = .error e ↔ Refuses v e
  blame : ∀ e, ofValue v = .error e → (∀ data, v ≠ .dict data) ∧ e.kind = .member ∨
    ∃ data m w, v = .dict data ∧ Value.field? (limitKey m) data = some w ∧ e.kind = w.refusal

theorem gives_iff : ofValue v = .ok s ↔ ∃ data, v = .dict data ∧ Sanitized data s := by
  constructor
  · intro h
    cases v with
    | dict data => exact ⟨data, rfl, ofValue_dict_eq_ok_iff.1 h⟩
    | null | bool | int | float | text | list => cases h
  · rintro ⟨data, rfl, h⟩
    exact ofValue_dict_eq_ok_iff.2 h

theorem accepts_iff : (∃ s, ofValue v = .ok s) ↔ ∃ data, v = .dict data ∧
    ∀ m w, Value.field? (limitKey m) data = some w → ∃ n, w.StandsFor n := by
  constructor
  · rintro ⟨s, hs⟩
    obtain ⟨data, rfl, h⟩ := gives_iff.1 hs
    refine ⟨data, rfl, fun m w hw ↦ ?_⟩
    have hm := h.limit m
    generalize s.limitOf m = l at hm
    cases hm with
    | missing hn => cases hn.symm.trans hw
    | given hv hn =>
      cases hv.symm.trans hw
      exact ⟨_, hn⟩
  · rintro ⟨data, rfl, h⟩
    cases ho : ofValue (.dict data) with
    | ok s => exact ⟨s, rfl⟩
    | error e =>
      have hno (m : Mode) : ¬ Offends data m e := by
        rintro ⟨w, hw, he⟩
        obtain ⟨n, hn⟩ := h m w hw
        cases (Value.toInt_eq_ok_iff.2 hn).symm.trans he
      cases ofValue_eq_error_iff.1 ho with
      | notDictionary hd => exact absurd rfl (hd data)
      | commands ho => exact absurd ho (hno .commands)
      | snapshots _ ho => exact absurd ho (hno .snapshots)

theorem sanitizes (v : Value) : Sanitizes v where
  accepts := accepts_iff
  gives _ := gives_iff
  proper _ := proper_of_ofValue
  again s h := by
    obtain ⟨m, n, mode, rfl⟩ := (proper_of_ofValue h).exists_checked
    exact ofValue_checked mode m n
  known data data' hv hl hm := hv ▸ ofValue_congr hl hm
  order data data' hv hk hp := by
    subst hv
    have hf := Value.field?_perm hp hk
    exact ofValue_congr (fun m ↦ (hf _).symm) (hf _).symm
  refuses _ := ofValue_eq_error_iff
  blame _ h := (ofValue_eq_error_iff.1 h).blame

section

variable {t : Text} {n : Int}

theorem limitKey_ne {m m' : Mode} (h : m' ≠ m) : limitKey m' ≠ limitKey m := by
  cases m <;> cases m' <;> first | exact absurd rfl h | decide

theorem modeKey_ne (m : Mode) : modeKey ≠ limitKey m := by
  cases m <;> decide

theorem limitOf_withLimit (m m' : Mode) (limit : Value) :
    (s.withLimit m limit).limitOf m' = if m' = m then limit else s.limitOf m' := by
  cases m <;> cases m' <;> rfl

/-- A dictionary that holds nothing but a limit leaves the rest as it is. -/
theorem sanitized_singleton (h : v.StandsFor n) :
    Sanitized [(limitKey m, v)] (standard.withLimit m (.int (max 0 n))) := by
  constructor
  · intro m'
    rw [limitOf_withLimit]
    split
    · rename_i hm
      subst hm
      exact .given (by rw [Value.field?_cons, if_pos rfl]) h
    · rename_i hm
      exact .missing (by rw [Value.field?_cons, if_neg (limitKey_ne hm)]; rfl)
  · have hmode : (standard.withLimit m (.int (max 0 n))).mode = standard.mode := by
      cases m <;> rfl
    rw [hmode]
    refine .unknown fun m' hm' ↦ ?_
    rw [Value.field?_cons, if_neg (modeKey_ne m)] at hm'
    cases hm'

theorem field?_singleton (m : Mode) (v : Value) :
    Value.field? (limitKey m) [(limitKey m, v)] = some v := by
  rw [Value.field?_cons, if_pos rfl]

/-- A limit that is a text is the number that the text spells, and a text that spells none is no
limit. -/
theorem limit_spelled (m : Mode) (t : Text) :
    ((∃ s, ofValue (.dict [(limitKey m, .text t)]) = .ok s) ↔ ∃ n, Numeral.Spells t n) ∧
      (∀ n, Numeral.Spells t n →
        ofValue (.dict [(limitKey m, .text t)]) = .ok (standard.withLimit m (.int (max 0 n))) ∧
        ofValue (.dict [(limitKey m, .text t)]) = ofValue (.dict [(limitKey m, .int n)])) ∧
      ((¬ ∃ n, Numeral.Spells t n) →
        ∃ e, ofValue (.dict [(limitKey m, .text t)]) = .error e ∧ e.kind = .value) ∧
      ∀ n : Int, n.natAbs < 10 ^ Numeral.digitLimit → ∃ u, Numeral.Spells u n := by
  have hgiven {v : Value} {n : Int} (h : v.StandsFor n) :
      ofValue (.dict [(limitKey m, v)]) = .ok (standard.withLimit m (.int (max 0 n))) :=
    ofValue_dict_eq_ok_iff.2 (sanitized_singleton h)
  have hspells : (∃ s, ofValue (.dict [(limitKey m, .text t)]) = .ok s) →
      ∃ n, Numeral.Spells t n := by
    intro h
    obtain ⟨data, hd, h⟩ := accepts_iff.1 h
    cases hd
    obtain ⟨n, hn⟩ := h m _ (field?_singleton m _)
    exact ⟨n, Value.toInt_text.1 (Value.toInt_eq_ok_iff.2 hn)⟩
  refine ⟨⟨hspells, ?_⟩, ?_, ?_, fun n hn ↦ ⟨_, Numeral.spells_ofInt hn⟩⟩
  · rintro ⟨n, hn⟩
    exact ⟨_, hgiven (.text hn)⟩
  · intro n hn
    exact ⟨hgiven (.text hn), (hgiven (.text hn)).trans (hgiven (.int n)).symm⟩
  · intro hno
    cases ho : ofValue (.dict [(limitKey m, .text t)]) with
    | ok s => exact absurd (hspells ⟨s, ho⟩) hno
    | error e =>
      refine ⟨e, rfl, ?_⟩
      rcases (ofValue_eq_error_iff.1 ho).blame with ⟨hd, -⟩ | ⟨data, m', w, hd, hw, he⟩
      · exact absurd rfl (hd _)
      · cases hd
        rw [Value.field?_cons] at hw
        split at hw
        · cases hw
          exact he
        · cases hw

end

end Settings

end Rewind
