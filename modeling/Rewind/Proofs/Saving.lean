import Rewind.Proofs.Documents
import Rewind.Proofs.Loading

namespace Rewind

namespace Directory

section

variable {d : Directory} {p q : Place} {e : Entry}

theorem lookup?_put_of_ne (h : q ≠ p) : (d.put p e).lookup? q = d.lookup? q := by
  have hf : (d.entries.filter fun f ↦ f.1 ≠ p).lookup q = d.entries.lookup q := by
    generalize d.entries = l
    induction l with
    | nil => rfl
    | cons f l ih =>
      by_cases hp : f.1 = p
      · rw [List.filter_cons_of_neg (by simpa using hp), ih, List.lookup_cons, hp,
          beq_eq_false_iff_ne.2 h]
      · rw [List.filter_cons_of_pos (by simpa using hp), List.lookup_cons, List.lookup_cons, ih]
  rw [lookup?, lookup?, put, List.lookup_cons, beq_eq_false_iff_ne.2 h, hf]

theorem lookup?_put_self (h : d.lookup? p ≠ some .folder) :
    (d.put p e).lookup? p = some e := by
  have hp : p.isPrefixOf Place.home = false := by
    cases hp : p.isPrefixOf Place.home with
    | false => rfl
    | true =>
      rw [lookup?, hp] at h
      exact absurd rfl h
  rw [lookup?, hp, put, List.lookup_cons, BEq.rfl]
  rfl

/-- Where a name leads from a folder does not depend on anything but the folder. -/
theorem enter_put (h : d.lookup? p ≠ some .folder) {name : Name} {r : Place}
    (hq : d.enter q name = .ok r) : (d.put p e).enter q name = .ok r := by
  have hf : d.lookup? q = some .folder := by
    unfold enter at hq
    split at hq
    · cases hq
    · cases hq
    · assumption
  have hn : q ≠ p := by
    rintro rfl
    exact h hf
  rw [← hq, enter, enter, lookup?_put_of_ne hn]

theorem walk_put (h : d.lookup? p ≠ some .folder) {names : List Name} {r : Place}
    (hq : d.walk q names = .ok r) : (d.put p e).walk q names = .ok r := by
  induction names generalizing q with
  | nil => exact hq
  | cons name names ih =>
    rw [walk] at hq ⊢
    cases hn : d.enter q name with
    | error o =>
      rw [hn] at hq
      cases hq
    | ok q' =>
      rw [hn] at hq
      rw [enter_put h hn]
      exact ih hq

theorem walk_append (d : Directory) (q : Place) (names : List Name) (name : Name) :
    d.walk q (names ++ [name]) = (d.walk q names).bind (d.enter · name) := by
  induction names generalizing q with
  | nil =>
    change (d.enter q name).bind (d.walk · []) = d.enter q name
    cases d.enter q name <;> rfl
  | cons n names ih =>
    rw [List.cons_append, walk, walk]
    cases hn : d.enter q n with
    | error o => rfl
    | ok q' => exact ih q'

/-- A name that leads to a folder from itself is no place for a file. -/
theorem folder_of_enter_here (h : d.enter q Place.here = .ok p) : d.lookup? p = some .folder := by
  unfold enter at h
  split at h
  · cases h
  · cases h
  · rw [if_pos rfl] at h
    cases h
    assumption

end

variable {d : Directory} {path : Text} {p : Place}

theorem walk_of_target {r : Route} (h : d.target r = .ok p) (hf : d.lookup? p ≠ some .folder) :
    d.walk r.start r.names = .ok p := by
  unfold target at h
  cases hn : r.names using List.reverseRecOn with
  | nil =>
    rw [hn] at h
    exact absurd (folder_of_enter_here h) hf
  | append_singleton names name =>
    rw [hn, List.dropLast_concat, List.getLastD_concat] at h
    rw [walk_append]
    exact h

theorem grant_eq_ok {q : Place} (h : d.grant p = .ok q) :
    q = p ∧ d.lookup? p ≠ some .folder := by
  unfold grant at h
  cases hp : d.lookup? p with
  | none =>
    rw [hp] at h
    cases h
    exact ⟨rfl, by decide⟩
  | some e =>
    cases e with
    | file content access =>
      rw [hp] at h
      dsimp only at h
      split_ifs at h
      cases h
      exact ⟨rfl, by simp⟩
    | folder =>
      rw [hp] at h
      cases h

/-- Where a file can be written, the route to it ends in a name and not in a slash. -/
theorem exists_route_of_writable (h : d.writable path = .ok p) :
    ∃ r, Route.ofText path = .ok r ∧ r.slashed = false ∧ d.walk r.start r.names = .ok p ∧
      d.lookup? p ≠ some .folder := by
  unfold writable follow at h
  cases hr : Route.ofText path with
  | error e =>
    rw [hr] at h
    cases h
  | ok r =>
    rw [hr] at h
    cases hs : r.slashed with
    | true =>
      simp only [hs, if_true, bind, Except.bind] at h
      cases hw : d.walk r.start r.names.dropLast with
      | error o =>
        simp only [hw] at h
        cases h
      | ok q =>
        cases he : d.enter q Place.here with
        | error o =>
          simp only [hw, he] at h
          cases h
        | ok v =>
          simp only [hw, he] at h
          cases ha : d.grant v with
          | error o =>
            rw [ha] at h
            cases h
          | ok w => exact absurd (folder_of_enter_here he) (grant_eq_ok ha).2
    | false =>
      simp only [hs, Bool.false_eq_true, if_false, bind, Except.bind] at h
      cases ht : d.target r with
      | error o =>
        simp only [ht] at h
        cases h
      | ok v =>
        simp only [ht] at h
        cases ha : d.grant v with
        | error o =>
          rw [ha] at h
          cases h
        | ok w =>
          rw [ha] at h
          cases h
          obtain ⟨rfl, hv⟩ := grant_eq_ok ha
          exact ⟨r, rfl, hs, walk_of_target ht hv, hv⟩

/-- What is written where a file can be is what is then read there. -/
theorem read_put (h : d.writable path = .ok p) (content : Utf8.Bytes) :
    (d.put p (.file content .free)).read path = .ok content := by
  obtain ⟨r, hr, hs, hw, hf⟩ := exists_route_of_writable h
  unfold read follow
  rw [hr]
  simp [find, walk_put hf hw, lookup?_put_self hf, hs, bind, Except.bind]

end Directory

namespace Utf8

theorem encode?_eq_some {t : Text} {bs : Bytes} :
    encode? t = some bs ↔ Text.Whole t ∧ bs = t.flatMap encodePoint := by
  have h : t.any CodePoint.isSurrogate = false ↔ Text.Whole t := by
    simp [Text.Whole]
  unfold encode?
  rw [← h]
  cases t.any CodePoint.isSurrogate with
  | true => simp
  | false => simp [eq_comm]

end Utf8

namespace Settings

/-- Everything is written if pieces spell a text that has an encoding, and only then. -/
theorem written_iff {ps : List Json.Piece} {content : Utf8.Bytes} :
    written ps = (content, none) ↔ ∃ t, Json.Spells ps t ∧ Utf8.encode? t = some content := by
  induction ps generalizing content with
  | nil =>
    constructor
    · intro h
      cases h
      exact ⟨[], rfl, rfl⟩
    · rintro ⟨t, rfl, ht⟩
      cases ht
      rfl
  | cons p ps ih =>
    cases p with
    | error e =>
      constructor
      · intro h
        cases h
      · rintro ⟨t, ⟨u, w, hu, -⟩, -⟩
        cases hu
    | ok u =>
      constructor
      · intro h
        unfold written at h
        cases hu : Utf8.encode? u with
        | none =>
          rw [hu] at h
          cases h
        | some bytes =>
          rw [hu] at h
          have hb : bytes ++ (written ps).1 = content := (Prod.ext_iff.1 h).1
          obtain ⟨w, hw, hc⟩ := ih.1 (Prod.ext rfl (Prod.ext_iff.1 h).2)
          refine ⟨u ++ w, Json.spells_ok.2 ⟨w, hw, rfl⟩, ?_⟩
          rw [← hb]
          rw [Utf8.encode?_eq_some] at hu hc ⊢
          rw [Text.whole_append, List.flatMap_append, ← hu.2]
          exact ⟨⟨hu.1, hc.1⟩, congrArg (bytes ++ ·) hc.2⟩
      · rintro ⟨t, ht, hc⟩
        obtain ⟨w, hw, rfl⟩ := Json.spells_ok.1 ht
        obtain ⟨ht, rfl⟩ := Utf8.encode?_eq_some.1 hc
        obtain ⟨hu, hw'⟩ := Text.whole_append.1 ht
        rw [written, Utf8.encode?_eq_some.2 ⟨hu, rfl⟩,
          ih.2 ⟨w, hw, Utf8.encode?_eq_some.2 ⟨hw', rfl⟩⟩, List.flatMap_append]

/-- Line ends stay as they are where no carriage return stands. -/
theorem foldLines_of_folded {t : Text} (h : Text.Folded t) : foldLines t = t := by
  induction t with
  | nil => rfl
  | cons c t ih =>
    have hc : c ≠ '\r' := by
      rintro rfl
      exact h List.mem_cons_self
    rw [foldLines.eq_def]
    dsimp only
    rw [if_neg (by simpa using hc), ih fun ht ↦ h (List.mem_cons_of_mem c ht)]

theorem document_map (s : Settings Value) : document (s.map .value) = Json.pieces 0 s.toValue := by
  rfl

theorem Saving.answer_ofFault_ne (e : Fault) : (ofFault e).answer ≠ .ok true := by
  unfold ofFault
  split
  · intro h
    cases h
  · intro h
    cases h

/-- Saving succeeds just where a file can be written and the document has all its pieces. The
document is then in the file. -/
theorem saved_iff {d : Directory} {path : Text} {s : Settings Field} :
    (save d path s).1.answer = .ok true ↔ ∃ p t content, d.writable path = .ok p ∧
      Json.Spells (document s) t ∧ Utf8.encode? t = some content ∧
        (save d path s).2 = d.put p (.file content .free) := by
  unfold save
  cases hp : d.writable path with
  | error e =>
    constructor
    · intro h
      exact absurd h (Saving.answer_ofFault_ne e)
    · rintro ⟨p, t, content, hp', -⟩
      cases hp'
  | ok p =>
    cases hw : written (document s) with
    | mk content fault =>
      cases fault with
      | none =>
        obtain ⟨t, ht, hc⟩ := written_iff.1 hw
        exact ⟨fun _ ↦ ⟨p, t, content, rfl, ht, hc, rfl⟩, fun _ ↦ rfl⟩
      | some e =>
        constructor
        · intro h
          exact absurd h (Saving.answer_ofFault_ne e)
        · rintro ⟨p, t, content', -, ht, hc, -⟩
          rw [written_iff.2 ⟨t, ht, hc⟩] at hw
          cases hw

/-- Settings that were saved are in the document that the path leads to afterwards. -/
theorem value?_of_saved {d : Directory} {path : Text} {s : Settings Value}
    (he : s.toValue.exact = true) (hn : s.toValue.depth ≤ nesting)
    (h : (save d path (s.map .value)).1.answer = .ok true) :
    value? (save d path (s.map .value)).2 path = some s.toValue := by
  obtain ⟨p, t, content, hp, ht, hc, hd⟩ := saved_iff.1 h
  rw [document_map] at ht
  have hr := Json.readsBack_of_exact he
  have hv : Json.readWithin nesting (foldLines t) = .ok s.toValue := by
    rw [foldLines_of_folded (hr.folded ht)]
    exact Json.readWithin_spelled he ht (Utf8.encode?_eq_some.1 hc).1 hn
  simp [hd, value?, Directory.read_put hp, Utf8.decode?_of_encode? hc, hv, Except.toOption]

/-- No number in a value without floating-point numbers is infinite. -/
theorem not_overflowing_of_exact {data : List (Text × Value)}
    (h : (Value.dict data).exact = true) : ¬ Overflowing data := by
  have hi {key : Text} : ¬ Infinite key data := by
    rintro ⟨negative, hv⟩
    obtain ⟨-, hf⟩ := Bool.and_eq_true_iff.1 h
    obtain ⟨before, after, rfl, -⟩ := List.lookup_eq_some_iff.1 hv
    have hx := Value.exactFields_iff.1 hf (key, .float (.infinity negative)) (by simp)
    cases hx
  rintro (ho | ⟨-, ho⟩)
  · exact hi ho
  · exact hi ho

/-- What is loaded after saving is what the values of the settings come to as a dictionary. -/
theorem load_of_saved {d : Directory} {path : Text} {s : Settings Value}
    (he : s.toValue.exact = true) (hn : s.toValue.depth ≤ nesting)
    (h : (save d path (s.map .value)).1.answer = .ok true) :
    load (save d path (s.map .value)).2 path = .ok (match ofValue s.toValue with
      | .ok t => (some t, [])
      | .error e => (none, [.notLoaded e])) := by
  have hv := value?_of_saved he hn h
  have hd := holds_of_value? hv
  have hs := stored_of_value? hv
  cases ho : ofValue s.toValue with
  | ok t =>
    rw [ho] at hs
    exact load_of_stored hd hs
  | error e =>
    rw [ho] at hs
    apply load_of_fault hd hs
    rcases ofValue_fault ho with hk | ⟨-, data, hdata, hover⟩
    · rintro (hk' | hk')
      · rw [hk'] at hk
        exact absurd hk (by decide)
      · rw [hk'] at hk
        exact absurd hk (by decide)
    · rw [hdata] at he
      exact absurd hover (not_overflowing_of_exact he)

theorem whole_ofNat (n : Nat) : Text.Whole (Text.ofNat n) := by
  intro c hc
  have hd := Text.ofNat_digits n c hc
  simp only [Json.isDigit, Bool.and_eq_true, decide_eq_true_eq] at hd
  rw [CodePoint.isSurrogate, Bool.and_eq_false_iff]
  left
  rw [decide_eq_false_iff_not, Fin.le_def]
  exact Nat.not_le.2 (Nat.lt_of_le_of_lt hd.2 (by decide))

theorem exists_spells {ps : List Json.Piece} (h : ∀ p ∈ ps, ∃ u, p = .ok u ∧ Text.Whole u) :
    ∃ t, Json.Spells ps t ∧ Text.Whole t := by
  induction ps with
  | nil => exact ⟨[], rfl, nofun⟩
  | cons p ps ih =>
    obtain ⟨⟨u, rfl, hu⟩, hps⟩ := List.forall_mem_cons.1 h
    obtain ⟨t, ht, hw⟩ := ih hps
    exact ⟨u ++ t, Json.spells_ok.2 ⟨t, ht, rfl⟩, Text.whole_append.2 ⟨hu, hw⟩⟩

section

variable {m n : Nat} (mode : Mode)

/-- Settings as they are once they have been checked. -/
def checked (m n : Nat) (mode : Mode) : Settings Value := ⟨.int m, .int n, .text mode.text⟩

theorem ofValue_checked (m n : Nat) :
    ofValue (checked m n mode).toValue = .ok (checked m n mode) := by
  have hm : Mode.ofValue? (.text mode.text) = some mode := by cases mode <;> rfl
  have hl {key : Text} {fallback : Value} {data : List (Text × Value)} {n : Nat}
      (h : Value.field? key data = some (.int n)) : limit key fallback data = .ok (.int n) := by
    rw [limit, h]
    change Except.ok (Value.int (max 0 n)) = _
    rw [Int.max_eq_right (Int.natCast_nonneg n)]
  have hd : (Value.field? modeKey (checked m n mode).fields).bind Mode.ofValue? = some mode := hm
  rw [toValue, ofValue, hl (n := m) rfl, hl (n := n) rfl, hd]
  rfl

theorem document_checked (hm : m < 10 ^ Numeral.digitLimit) (hn : n < 10 ^ Numeral.digitLimit) :
    ∀ p ∈ document ((checked m n mode).map .value), ∃ u, p = .ok u ∧ Text.Whole u := by
  have hi {n : Nat} (hn : n < 10 ^ Numeral.digitLimit) :
      ∃ u, Json.integer n = .ok u ∧ Text.Whole u := by
    refine ⟨Text.ofNat n, ?_, whole_ofNat n⟩
    rw [Json.integer_eq]
    exact if_pos hn
  have ht : Text.Whole (Json.quoted mode.text) := by cases mode <;> decide
  have hf {t : Text} (h : Text.Whole t) :
      ∃ u, (.ok t : Json.Piece) = .ok u ∧ Text.Whole u := ⟨t, rfl, h⟩
  change ∀ p ∈ ([.ok "\x7b", .ok (Json.line 1), .ok (Json.quoted commandLimitKey), .ok ": ",
    Json.integer m, .ok ("," ++ Json.line 1), .ok (Json.quoted snapshotLimitKey), .ok ": ",
    Json.integer n, .ok ("," ++ Json.line 1), .ok (Json.quoted modeKey), .ok ": ",
    .ok (Json.quoted mode.text), .ok (Json.line 0), .ok "\x7d"] : List Json.Piece), _
  simp only [List.forall_mem_cons]
  exact ⟨hf (by decide), hf (by decide), hf (by decide), hf (by decide), hi hm, hf (by decide),
    hf (by decide), hf (by decide), hi hn, hf (by decide), hf (by decide), hf (by decide), hf ht,
    hf (by decide), hf (by decide), nofun⟩

end

theorem save_of_written {d : Directory} {path : Text} {p : Place} {s : Settings Value}
    (hp : d.writable path = .ok p) (hw : (written (document (s.map .value))).2 = none) :
    ∃ d', save d path (s.map .value) = ({ answer := .ok true }, d') := by
  rw [save, hp]
  dsimp only
  rw [hw]
  exact ⟨_, rfl⟩

/-- Settings come back as they would be made from their dictionary, or not at all where that fails.
Settings that have been checked can be saved wherever a file can be written, and come back as they
are. -/
theorem loaded_as_saved (d : Directory) (path : Text) :
    (∀ (s : Settings Value) (saving : Saving) (d' : Directory), s.toValue.exact = true →
      s.toValue.depth ≤ nesting → save d path (s.map .value) = (saving, d') →
        saving.answer = .ok true →
          (∀ t, ofValue s.toValue = .ok t → load d' path = .ok (some t, [])) ∧
          ∀ e, ofValue s.toValue = .error e → load d' path = .ok (none, [.notLoaded e])) ∧
    ∀ (m n : Nat) (mode : Mode) (p : Place), m < 10 ^ Numeral.digitLimit →
      n < 10 ^ Numeral.digitLimit → d.writable path = .ok p →
        ∃ d', save d path ((checked m n mode).map .value) = ({ answer := .ok true }, d') ∧
          load d' path = .ok (some (checked m n mode), []) := by
  constructor
  · intro s saving d' he hn h ha
    have hs : (save d path (s.map .value)).1.answer = .ok true := by rw [h, ha]
    have hl := load_of_saved he hn hs
    rw [h] at hl
    constructor
    · intro t ht
      rw [hl, ht]
    · intro e ht
      rw [hl, ht]
  · intro m n mode p hm hn hp
    obtain ⟨t, ht, hw⟩ := exists_spells (document_checked mode hm hn)
    have hc := written_iff.2 ⟨t, ht, Utf8.encode?_eq_some.2 ⟨hw, rfl⟩⟩
    obtain ⟨d', hs⟩ := save_of_written hp (congrArg Prod.snd hc)
    have hx : (checked m n mode).toValue.exact = true := rfl
    have hd : (checked m n mode).toValue.depth ≤ nesting := (by decide : 1 ≤ nesting)
    have ha : (save d path ((checked m n mode).map .value)).1.answer = .ok true := by rw [hs]
    have hl := load_of_saved hx hd ha
    rw [hs, ofValue_checked] at hl
    exact ⟨d', hs, hl⟩

/-- Settings with a truth value, a text that spells a number, and a list in place of a mode. -/
def motley : Settings Value :=
  ⟨.bool true, .text " 5", .list [.text "\"é\t", .dict [("k", .null), ("l", .list [])]]⟩

/-- A file with one brace in it. -/
def torn : Directory := ⟨[(Place.home ++ [[0x73]], .file [0x7b] .free)]⟩

/-- Both kinds of settings, written over a file that was no document. -/
theorem loaded_as_saved_torn :
    (∃ d', save torn "s" (motley.map .value) = ({ answer := .ok true }, d') ∧
      load d' "s" = .ok (some (checked 1 5 .commands), [])) ∧
    ∃ d', save torn "s" ((checked 20 0 .snapshots).map .value) = ({ answer := .ok true }, d') ∧
      load d' "s" = .ok (some (checked 20 0 .snapshots), []) := by
  have hp : torn.writable "s" = .ok (Place.home ++ [[0x73]]) := rfl
  have hl {n : Nat} (hn : n < 10 ^ 2) : n < 10 ^ Numeral.digitLimit :=
    Nat.lt_of_lt_of_le hn (Nat.pow_le_pow_right (by decide) (by decide))
  obtain ⟨hm, hc⟩ := loaded_as_saved torn "s"
  constructor
  · obtain ⟨d', hs⟩ := save_of_written (s := motley) hp (by decide +kernel)
    have ho : ofValue motley.toValue = .ok (checked 1 5 .commands) := rfl
    exact ⟨d', hs, (hm motley _ d' (by decide +kernel) (by decide +kernel) hs rfl).1 _ ho⟩
  · exact hc 20 0 .snapshots _ (hl (by decide)) (hl (by decide)) hp

end Settings

end Rewind
