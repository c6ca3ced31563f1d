import Mathlib.Tactic.SplitIfs
import Rewind.Settings.Store

namespace Rewind

theorem Fault.kind_eq_depth {e : Fault} : e.kind = .depth ↔ ∃ place, e = .tooDeep place := by
  cases e <;> simp [kind]

namespace Directory

/-- What can be wrong with a path, or with what it leads to. -/
def faults : List Fault.Kind := [.encoding, .value, .storage]

theorem ofText_fault {path : Text} {e : Fault} (h : Route.ofText path = .error e) :
    e.kind ∈ faults := by
  unfold Route.ofText at h
  split at h
  · cases h
    decide
  · dsimp only at h
    split_ifs at h <;> cases h <;> decide

variable {α : Type}

theorem follow_fault {path : Text} {f : Route → Except Obstacle α} {e : Fault}
    (h : follow path f = .error e) : e.kind ∈ faults := by
  unfold follow at h
  cases hr : Route.ofText path with
  | error e' =>
    rw [hr] at h
    cases h
    exact ofText_fault hr
  | ok r =>
    rw [hr] at h
    simp only [bind, Except.bind] at h
    split at h
    · cases h
    · cases h
      simp [faults, Fault.kind]

/-- What has a content is there. -/
theorem holds_of_read {d : Directory} {path : Text} {content : Utf8.Bytes}
    (h : d.read path = .ok content) : d.holds path = true := by
  unfold read follow at h
  unfold holds follow
  cases hr : Route.ofText path with
  | error e =>
    rw [hr] at h
    cases h
  | ok r =>
    rw [hr] at h
    cases hf : d.find r with
    | error o => simp [hf, bind, Except.bind] at h
    | ok entry => simp [hf, bind, Except.bind, Except.isOk, Except.toBool]

end Directory

namespace Json

/-- What can be wrong with a text that is read as a document. -/
def faults : List Fault.Kind := [.grammar, .value, .depth]

theorem number_fault {negative : Bool} {t : Text} {e : Fault} (h : number negative t = .error e) :
    e.kind ∈ faults := by
  unfold number at h
  dsimp only at h
  split_ifs at h <;> cases h <;> simp [faults, Fault.kind]

theorem scalar_fault {t : Text} {e : Fault} (h : scalar t = .error e) : e.kind ∈ faults := by
  unfold scalar at h
  split at h
  · cases h
  · split at h
    · split at h <;> exact number_fault h
    · cases h
      decide

/-- What can be wrong with values, lists and dictionaries read with some fuel. -/
structure Reads (fuel : Nat) : Prop where
  value : ∀ {room t e}, Json.value fuel room t = .error e → e.kind ∈ faults
  items : ∀ {room t e}, Json.items fuel room t = .error e → e.kind ∈ faults
  fields : ∀ {room t e}, Json.fields fuel room t = .error e → e.kind ∈ faults

section

variable {fuel room : Nat} {t : Text} {e : Fault}

theorem value_fault (hr : Reads fuel) (h : Json.value (fuel + 1) room t = .error e) :
    e.kind ∈ faults := by
  cases t with
  | nil =>
    cases h
    decide
  | cons c t =>
    unfold Json.value at h
    split_ifs at h
    · split at h <;> cases h
      decide
    · split at h
      · cases h
        decide
      · cases h
        decide
      · split_ifs at h
        split at h
        · cases h
        · rename_i hi
          cases h
          exact hr.items hi
    · split at h
      · cases h
        decide
      · cases h
        decide
      · split_ifs at h
        split at h
        · cases h
        · rename_i hi
          cases h
          exact hr.fields hi
    · exact scalar_fault h

theorem items_fault (hr : Reads fuel) (h : Json.items (fuel + 1) room t = .error e) :
    e.kind ∈ faults := by
  unfold Json.items at h
  split at h
  · rename_i hv
    cases h
    exact hr.value hv
  · split at h
    · cases h
      decide
    · split_ifs at h
      · split at h
        · cases h
        · rename_i hi
          cases h
          exact hr.items hi
      · cases h
        decide

theorem fields_fault (hr : Reads fuel) (h : Json.fields (fuel + 1) room t = .error e) :
    e.kind ∈ faults := by
  cases t with
  | nil =>
    cases h
    decide
  | cons q t =>
    unfold Json.fields at h
    split_ifs at h
    · cases h
      decide
    · split at h
      · cases h
        decide
      · split at h
        · cases h
          decide
        · split_ifs at h
          · cases h
            decide
          · split at h
            · rename_i hv
              cases h
              exact hr.value hv
            · split at h
              · cases h
                decide
              · split_ifs at h
                · split at h
                  · cases h
                  · rename_i hf
                    cases h
                    exact hr.fields hf
                · cases h
                  decide

end

theorem reads (fuel : Nat) : Reads fuel := by
  induction fuel with
  | zero =>
    refine ⟨?_, ?_, ?_⟩
    · intro room t e h
      unfold Json.value at h
      cases h
      decide
    · intro room t e h
      unfold Json.items at h
      cases h
      decide
    · intro room t e h
      unfold Json.fields at h
      cases h
      decide
  | succ fuel ih => exact ⟨value_fault ih, items_fault ih, fields_fault ih⟩

theorem readWithin_fault {room : Nat} {t : Text} {e : Fault} (h : readWithin room t = .error e) :
    e.kind ∈ faults := by
  unfold readWithin at h
  split_ifs at h
  · cases h
    decide
  · split at h
    · rename_i hv
      cases h
      exact (reads _).value hv
    · split_ifs at h
      cases h
      decide

end Json

namespace Settings

/-- Settings that can be put to use: limits that are whole and not negative, and a known mode. -/
structure Proper (s : Settings Value) : Prop where
  commandLimit : ∃ n : Nat, s.commandLimit = .int n
  snapshotLimit : ∃ n : Nat, s.snapshotLimit = .int n
  mode : ∃ m : Mode, s.mode = .text m.text

theorem proper_standard : Proper standard := ⟨⟨100, rfl⟩, ⟨50, rfl⟩, ⟨.commands, rfl⟩⟩

/-- What can be wrong with a value that is taken for settings, overflow aside. -/
def faults : List Fault.Kind := [.member, .type, .value]

theorem toInt_fault {v : Value} {e : Fault} (h : v.toInt = .error e) :
    e.kind ∈ faults ∨ e = .infiniteInteger ∧ ∃ negative, v = .float (.infinity negative) := by
  cases v with
  | null | list vs | dict fs =>
    cases h
    left
    simp [faults, Fault.kind]
  | bool b | int n => cases h
  | float x =>
    cases x with
    | nan =>
      cases h
      left
      decide
    | infinity negative =>
      cases h
      right
      exact ⟨rfl, negative, rfl⟩
    | finite negative mantissa shift => cases h
  | text t =>
    left
    rw [Value.toInt] at h
    split at h <;> cases h <;> simp [faults, Fault.kind]

/-- A field that is an infinite number. -/
def Infinite (key : Text) (data : List (Text × Value)) : Prop :=
  ∃ negative, Value.field? key data = some (.float (.infinity negative))

/-- A dictionary in which the first limit that is no integer is an infinite number. -/
def Overflowing (data : List (Text × Value)) : Prop :=
  Infinite commandLimitKey data ∨
    (∃ n, limit commandLimitKey standard.commandLimit data = .ok n) ∧
      Infinite snapshotLimitKey data

section

variable {key : Text} {fallback : Value} {data : List (Text × Value)}

theorem limit_of_infinite (h : Infinite key data) :
    limit key fallback data = .error .infiniteInteger := by
  obtain ⟨negative, h⟩ := h
  rw [limit, h]
  rfl

theorem limit_fault {n : Int} {e : Fault} (h : limit key (.int n) data = .error e) :
    e.kind ∈ faults ∨ e = .infiniteInteger ∧ Infinite key data := by
  unfold limit at h
  cases hv : Value.field? key data with
  | none =>
    rw [hv] at h
    cases h
  | some v =>
    rw [hv, Option.getD_some] at h
    cases hi : v.toInt with
    | ok m =>
      rw [hi] at h
      cases h
    | error e' =>
      rw [hi] at h
      cases h
      rcases toInt_fault hi with he | ⟨he, negative, rfl⟩
      · exact .inl he
      · exact .inr ⟨he, negative, hv⟩

theorem exists_nat_of_limit {v : Value} (h : limit key fallback data = .ok v) :
    ∃ n : Nat, v = .int n := by
  unfold limit at h
  cases hi : ((Value.field? key data).getD fallback).toInt with
  | error e =>
    rw [hi] at h
    cases h
  | ok m =>
    rw [hi] at h
    cases h
    exact ⟨(max 0 m).toNat, by rw [Int.toNat_of_nonneg (Int.le_max_left 0 m)]⟩

theorem ofValue_of_overflowing (h : Overflowing data) :
    ofValue (.dict data) = .error .infiniteInteger := by
  rcases h with h | ⟨⟨n, hn⟩, h⟩
  · rw [ofValue, limit_of_infinite h]
    rfl
  · rw [ofValue, hn, limit_of_infinite h]
    rfl

end

theorem ofValue_fault {v : Value} {e : Fault} (h : ofValue v = .error e) :
    e.kind ∈ faults ∨ e = .infiniteInteger ∧ ∃ data, v = .dict data ∧ Overflowing data := by
  cases v with
  | dict data =>
    rw [ofValue] at h
    cases hc : limit commandLimitKey standard.commandLimit data with
    | error e' =>
      rw [hc] at h
      cases h
      rcases limit_fault hc with he | ⟨he, hi⟩
      · exact .inl he
      · exact .inr ⟨he, data, rfl, .inl hi⟩
    | ok n =>
      cases hs : limit snapshotLimitKey standard.snapshotLimit data with
      | error e' =>
        rw [hc, hs] at h
        cases h
        rcases limit_fault hs with he | ⟨he, hi⟩
        · exact .inl he
        · exact .inr ⟨he, data, rfl, .inr ⟨⟨n, hc⟩, hi⟩⟩
      | ok m =>
        rw [hc, hs] at h
        cases h
  | null | bool | int | float | text | list =>
    cases h
    left
    simp [faults, Fault.kind]

theorem proper_of_ofValue {v : Value} {s : Settings Value} (h : ofValue v = .ok s) : Proper s := by
  cases v with
  | dict data =>
    rw [ofValue] at h
    cases hc : limit commandLimitKey standard.commandLimit data with
    | error e =>
      rw [hc] at h
      cases h
    | ok c =>
      cases hs : limit snapshotLimitKey standard.snapshotLimit data with
      | error e =>
        rw [hc, hs] at h
        cases h
      | ok n =>
        rw [hc, hs] at h
        cases h
        exact ⟨exists_nat_of_limit hc, exists_nat_of_limit hs, _, rfl⟩
  | null | bool | int | float | text | list => cases h

section

variable {d : Directory} {path : Text}

/-- The value in the document that a path leads to. -/
def value? (d : Directory) (path : Text) : Option Value := do
  let t ← Utf8.decode? (← (d.read path).toOption)
  (Json.readWithin nesting (foldLines t)).toOption

theorem stored_of_read {content : Utf8.Bytes} (h : d.read path = .ok content) :
    stored d path = ofBytes content := by
  rw [stored, h]
  rfl

theorem ofBytes_of_decode {content : Utf8.Bytes} {t : Text} {v : Value}
    (ht : Utf8.decode? content = some t) (hv : Json.readWithin nesting (foldLines t) = .ok v) :
    ofBytes content = ofValue v := by
  rw [ofBytes, ht]
  simp only [hv]
  rfl

/-- Before there is a value, a fault of any layer is a fault of the whole, and none overflows. -/
theorem value?_cases (d : Directory) (path : Text) :
    (∃ v, value? d path = some v ∧ d.holds path = true ∧ stored d path = ofValue v) ∨
      ∃ e, value? d path = none ∧ stored d path = .error e ∧ e.kind ≠ .overflow := by
  unfold value?
  cases hr : d.read path with
  | error e =>
    right
    refine ⟨e, rfl, by rw [stored, hr]; rfl, fun he ↦ ?_⟩
    have hk := Directory.follow_fault hr
    rw [he] at hk
    exact absurd hk (by decide)
  | ok content =>
    rw [stored_of_read hr]
    cases ht : Utf8.decode? content with
    | none =>
      right
      refine ⟨.notDecodable, by simp [Except.toOption, ht], ?_, nofun⟩
      rw [ofBytes, ht]
    | some t =>
      cases hv : Json.readWithin nesting (foldLines t) with
      | error e =>
        right
        refine ⟨e, by simp [Except.toOption, ht, hv], ?_, fun he ↦ ?_⟩
        · rw [ofBytes, ht]
          simp only [hv]
          rfl
        · have hk := Json.readWithin_fault hv
          rw [he] at hk
          exact absurd hk (by decide)
      | ok v =>
        left
        exact ⟨v, by simp [Except.toOption, ht, hv], Directory.holds_of_read hr,
          ofBytes_of_decode ht hv⟩

theorem holds_of_value? {v : Value} (h : value? d path = some v) : d.holds path = true := by
  rcases value?_cases d path with ⟨-, -, hd, -⟩ | ⟨e, hn, -⟩
  · exact hd
  · rw [h] at hn
    cases hn

theorem stored_of_value? {v : Value} (h : value? d path = some v) : stored d path = ofValue v := by
  rcases value?_cases d path with ⟨w, hw, -, hs⟩ | ⟨e, hn, -⟩
  · rw [h] at hw
    cases hw
    exact hs
  · rw [h] at hn
    cases hn

/-- What a path leads to is a dictionary with limits that overflow. -/
def Overflows (d : Directory) (path : Text) : Prop :=
  ∃ data, value? d path = some (.dict data) ∧ Overflowing data

theorem Overflows.holds (h : Overflows d path) : d.holds path = true := by
  obtain ⟨data, hv, -⟩ := h
  exact holds_of_value? hv

theorem Overflows.stored (h : Overflows d path) : stored d path = .error .infiniteInteger := by
  obtain ⟨data, hv, ho⟩ := h
  rw [stored_of_value? hv]
  exact ofValue_of_overflowing ho

theorem overflows_of_stored {e : Fault} (h : stored d path = .error e) (he : e.kind = .overflow) :
    Overflows d path := by
  rcases value?_cases d path with ⟨v, hv, -, hs⟩ | ⟨e', -, hs, hk⟩
  · rw [hs] at h
    rcases ofValue_fault h with hk | ⟨-, data, rfl, ho⟩
    · rw [he] at hk
      exact absurd hk (by decide)
    · exact ⟨data, hv, ho⟩
  · rw [hs] at h
    cases h
    exact absurd he hk

theorem proper_of_stored {s : Settings Value} (h : stored d path = .ok s) : Proper s := by
  rcases value?_cases d path with ⟨v, -, -, hs⟩ | ⟨e, -, hs, -⟩
  · rw [hs] at h
    exact proper_of_ofValue h
  · rw [hs] at h
    cases h

/-- What a path leads to is a document with brackets nested too deep. -/
def Deep (d : Directory) (path : Text) : Prop :=
  d.holds path = true ∧ ∃ place, stored d path = .error (.tooDeep place)

theorem load_of_not_holds (h : d.holds path = false) : load d path = .ok (none, []) := by
  rw [load, h]
  rfl

theorem load_of_stored {s : Settings Value} (hd : d.holds path = true) (h : stored d path = .ok s) :
    load d path = .ok (some s, []) := by
  rw [load, if_pos hd, h]

/-- Faults of two kinds go to the caller. -/
theorem load_of_fatal {e : Fault} (hd : d.holds path = true) (h : stored d path = .error e)
    (he : e.kind = .overflow ∨ e.kind = .depth) : load d path = .error e := by
  rw [load, if_pos hd, h]
  exact if_pos he

theorem load_of_fault {e : Fault} (hd : d.holds path = true) (h : stored d path = .error e)
    (he : ¬ (e.kind = .overflow ∨ e.kind = .depth)) :
    load d path = .ok (none, [.notLoaded e]) := by
  rw [load, if_pos hd, h]
  exact if_neg he

/-- How loading is to end: with settings that are proper, or without any, which is reported if
something is there. -/
structure Loads (d : Directory) (path : Text) : Prop where
  absent : d.holds path = false → load d path = .ok (none, [])
  present : d.holds path = true →
    (∃ s, stored d path = .ok s ∧ load d path = .ok (some s, []) ∧ Proper s) ∨
      ∃ e, stored d path = .error e ∧ load d path = .ok (none, [.notLoaded e])
  orStandard : ∃ s reports, loadOrStandard d path = .ok (s, reports) ∧ Proper s

theorem Loads.not_fatal (h : Loads d path) {e : Fault} (hd : d.holds path = true)
    (hs : stored d path = .error e) : ¬ (e.kind = .overflow ∨ e.kind = .depth) := by
  intro he
  have hl := load_of_fatal hd hs he
  rcases h.present hd with ⟨s, -, ho, -⟩ | ⟨e', -, ho⟩
  · rw [hl] at ho
    cases ho
  · rw [hl] at ho
    cases ho

/-- Loading ends as it has to, whatever the path leads to, unless a limit is infinite or brackets
nest too deep. -/
theorem loads_iff (d : Directory) (path : Text) :
    Loads d path ↔ ¬ Overflows d path ∧ ¬ Deep d path := by
  constructor
  · intro h
    constructor
    · intro ho
      exact h.not_fatal ho.holds ho.stored (.inl rfl)
    · rintro ⟨hd, place, hs⟩
      exact h.not_fatal hd hs (.inr rfl)
  · rintro ⟨ho, hn⟩
    cases hd : d.holds path with
    | false =>
      have hl := load_of_not_holds hd
      refine ⟨fun _ ↦ hl, by simp [hd], standard, [.standard], ?_, proper_standard⟩
      rw [loadOrStandard, hl]
      rfl
    | true =>
      cases hs : stored d path with
      | ok s =>
        have hl := load_of_stored hd hs
        have hp := proper_of_stored hs
        refine ⟨by simp [hd], fun _ ↦ .inl ⟨s, hs, hl, hp⟩, s, [], ?_, hp⟩
        rw [loadOrStandard, hl]
        rfl
      | error e =>
        have he : ¬ (e.kind = .overflow ∨ e.kind = .depth) := by
          rintro (he | he)
          · exact ho (overflows_of_stored hs he)
          · obtain ⟨place, rfl⟩ := Fault.kind_eq_depth.1 he
            exact hn ⟨hd, place, hs⟩
        have hl := load_of_fault hd hs he
        refine ⟨by simp [hd], fun _ ↦ .inr ⟨e, hs, hl⟩, standard, [.notLoaded e, .standard], ?_,
          proper_standard⟩
        rw [loadOrStandard, hl]
        rfl

end

/-- Settings without a limit for commands, in a file of the name `s`. -/
def boundless : Directory :=
  let content := Text.ofString "\x7b\"max_command_history\": Infinity\x7d"
  ⟨[(Place.home ++ [[0x73]], .file (content.flatMap Utf8.encodePoint) .free)]⟩

/-- Such a file is there and its brackets are not deep, but loading it fails. -/
theorem not_loads_boundless :
    boundless.holds "s" = true ∧ ¬ Deep boundless "s" ∧
      load boundless "s" = .error .infiniteInteger ∧ ¬ Loads boundless "s" := by
  have ho : Overflows boundless "s" := by
    refine ⟨[(commandLimitKey, .float (.infinity false))], by decide +kernel, .inl ?_⟩
    exact ⟨false, by decide⟩
  have hl := load_of_fatal ho.holds ho.stored (.inl rfl)
  refine ⟨ho.holds, ?_, hl, ?_⟩
  · rintro ⟨-, place, hn⟩
    rw [ho.stored] at hn
    cases hn
  · intro h
    exact h.not_fatal ho.holds ho.stored (.inl rfl)

end Settings

end Rewind
