import Rewind.Proofs.Brackets

namespace Rewind

theorem Text.Bare.folded {t : Text} (h : Bare t) : Folded t := fun hr ↦ (h _ hr).1 (by decide)

theorem Value.depth_le_of_mem {fs : List (Text × Value)} {f : Text × Value} (h : f ∈ fs) :
    f.2.depth ≤ fieldsDepth fs := by
  induction fs with
  | nil => cases h
  | cons g fs ih =>
    rw [fieldsDepth]
    rcases List.mem_cons.1 h with rfl | h
    · exact Nat.le_max_left _ _
    · exact (ih h).trans (Nat.le_max_right _ _)

namespace Utf8

/-- A code point takes one byte, or one that starts it and more that continue it. -/
theorem encodePoint_cases (c : CodePoint) : (∃ b, encodePoint c = [b]) ∨
    ∃ b, ∃ ns : List Nat, ∃ bits least, encodePoint c = b :: ns.map continuation ∧
      lead? b = some ⟨ns.length, bits, least⟩ := by
  have hn := c.isLt
  unfold encodePoint
  split_ifs with h₁ h₂ h₃
  · exact .inl ⟨_, rfl⟩
  · have hl := lead?_ofNat (n := 0xC0 + c.val / 0x40) (by omega) (by omega)
    rw [if_pos (by omega)] at hl
    exact .inr ⟨_, [c.val], _, _, rfl, hl⟩
  · have hl := lead?_ofNat (n := 0xE0 + c.val / 0x1000) (by omega) (by omega)
    rw [if_neg (by omega), if_pos (by omega)] at hl
    exact .inr ⟨_, [c.val / 0x40, c.val], _, _, rfl, hl⟩
  · have hl := lead?_ofNat (n := 0xF0 + c.val / 0x40000) (by omega) (by omega)
    rw [if_neg (by omega), if_neg (by omega)] at hl
    exact .inr ⟨_, [c.val / 0x1000, c.val / 0x40, c.val], _, _, rfl, hl⟩

/-- Too few bytes to complete a code point encode nothing. -/
theorem decodeFrom_short {ns : List Nat} {missing : Nat} (h : ns.length < missing)
    (bits least : Nat) : decodeFrom ⟨missing, bits, least⟩ (ns.map continuation) = none := by
  induction ns generalizing missing bits with
  | nil => exact if_neg (Nat.ne_of_gt h)
  | cons n ns ih =>
    rw [List.length_cons] at h
    obtain ⟨m, rfl⟩ : ∃ m, missing = m + 2 := ⟨missing - 2, by omega⟩
    rw [List.map_cons, decodeFrom_continuation]
    exact ih (by omega) _

/-- Some of the bytes of a code point, but not all of them, encode nothing. -/
theorem decode?_torn {c : CodePoint} {b : UInt8} {cut rest : Bytes}
    (h : encodePoint c = b :: (cut ++ rest)) (hr : rest ≠ []) : decode? (b :: cut) = none := by
  rcases encodePoint_cases c with ⟨b', hb⟩ | ⟨b', ns, bits, least, hb, hl⟩
  · rw [hb] at h
    have hn := (List.cons_eq_cons.1 h).2
    exact absurd (List.append_eq_nil_iff.1 hn.symm).2 hr
  · rw [hb] at h
    obtain ⟨rfl, hc⟩ := List.cons_eq_cons.1 h
    obtain ⟨ms, os, rfl, rfl, rfl⟩ := List.map_eq_append_iff.1 hc
    rw [decode?, decodeFrom_lead hl]
    apply decodeFrom_short
    rw [List.length_append]
    exact Nat.lt_add_of_pos_right (List.length_pos_iff.2 fun ho ↦ hr (by rw [ho, List.map_nil]))

/-- Some of the bytes of a text encode the start of it, or nothing if they end within a code
point. -/
theorem decode?_of_prefix {t : Text} (ht : Text.Whole t) {cut : Bytes}
    (h : cut <+: t.flatMap encodePoint) :
    decode? cut = none ∨ ∃ u, u <+: t ∧ decode? cut = some u := by
  induction t generalizing cut with
  | nil =>
    rw [List.flatMap_nil, List.prefix_nil] at h
    rw [h]
    exact .inr ⟨[], List.nil_prefix, rfl⟩
  | cons c t ih =>
    obtain ⟨hc, ht⟩ := List.forall_mem_cons.1 ht
    rw [List.flatMap_cons] at h
    by_cases hw : encodePoint c <+: cut
    · obtain ⟨cut, rfl⟩ := hw
      rw [decode?_encodePoint c hc]
      rcases ih ht ((List.prefix_append_right_inj _).1 h) with hd | ⟨u, hu, hd⟩
      · rw [hd]
        exact .inl rfl
      · rw [hd]
        exact .inr ⟨c :: u, List.cons_prefix_cons.2 ⟨rfl, hu⟩, rfl⟩
    · obtain ⟨rest, hp⟩ :=
        (List.prefix_or_prefix_of_prefix h (List.prefix_append _ _)).resolve_right hw
      cases cut with
      | nil => exact .inr ⟨[], List.nil_prefix, rfl⟩
      | cons b cut =>
        refine .inl (decode?_torn hp.symm ?_)
        rintro rfl
        rw [List.append_nil] at hp
        exact hw (hp ▸ List.prefix_refl _)

end Utf8

namespace Json

open Cursor

theorem neutral_of_bare {c : CodePoint} (h : c.Bare) : Neutral c := by
  have hs : ("\"[]\x7b\x7d" : Text) ⊆ ("\"\\[]\x7b\x7d\r" : Text) := by decide
  exact fun hc ↦ h.1 (hs hc)

/-- A text without carriage returns that takes the cursor from one place to another. The number of
open brackets stays between bounds all the way. -/
structure Spans (low high : Nat) (k : Cursor) (t : Text) (k' : Cursor) : Prop where
  ends : k.after t = k'
  within : ∀ u, u <+: t → low ≤ (k.after u).depth ∧ (k.after u).depth ≤ high
  folded : Text.Folded t

section

variable {low high n : Nat} {k k' k'' : Cursor} {t u : Text}

theorem Spans.start (h : Spans low high k t k') : low ≤ k.depth ∧ k.depth ≤ high :=
  h.within [] List.nil_prefix

theorem Spans.finish (h : Spans low high k t k') : low ≤ k'.depth ∧ k'.depth ≤ high := by
  rw [← h.ends]
  exact h.within t (List.prefix_refl t)

theorem Spans.nil (h : low ≤ k.depth ∧ k.depth ≤ high) : Spans low high k [] k := by
  refine ⟨rfl, fun u hu ↦ ?_, List.not_mem_nil⟩
  rw [List.prefix_nil.1 hu]
  exact h

theorem Spans.append (h : Spans low high k t k') (h' : Spans low high k' u k'') :
    Spans low high k (t ++ u) k'' := by
  refine ⟨?_, fun w hw ↦ ?_, Text.folded_append.2 ⟨h.folded, h'.folded⟩⟩
  · rw [after_append, h.ends, h'.ends]
  · rcases List.prefix_or_prefix_of_prefix hw (List.prefix_append t u) with ht | ⟨q, rfl⟩
    · exact h.within w ht
    · rw [after_append, h.ends]
      exact h'.within q ((List.prefix_append_right_inj t).1 hw)

theorem Spans.single {c : CodePoint} (hc : c ≠ '\r') (hs : k.step c = k')
    (h : low ≤ k.depth ∧ k.depth ≤ high) (h' : low ≤ k'.depth ∧ k'.depth ≤ high) :
    Spans low high k [c] k' := by
  refine ⟨hs, fun u hu ↦ ?_, ?_⟩
  · rcases List.prefix_cons_iff.1 hu with rfl | ⟨w, rfl, hw⟩
    · exact h
    · rw [List.prefix_nil.1 hw]
      change low ≤ (k.step c).depth ∧ (k.step c).depth ≤ high
      rwa [hs]
  · intro hm
    exact hc (List.mem_singleton.1 hm).symm

theorem Spans.cons {c : CodePoint} (hc : c ≠ '\r') (h : low ≤ k.depth ∧ k.depth ≤ high)
    (ht : Spans low high (k.step c) t k') : Spans low high k (c :: t) k' :=
  (Spans.single hc rfl h ht.start).append ht

theorem Spans.mono {low' high' : Nat} (h : Spans low high k t k') (hl : low' ≤ low)
    (hh : high ≤ high') : Spans low' high' k t k' :=
  ⟨h.ends, fun u hu ↦ ⟨hl.trans (h.within u hu).1, (h.within u hu).2.trans hh⟩, h.folded⟩

theorem Spans.neutral (hn : low ≤ n ∧ n ≤ high) (ht : ∀ c ∈ t, Neutral c) (hf : Text.Folded t) :
    Spans low high (between n) t (between n) := by
  refine ⟨after_neutral ht n, fun u hu ↦ ?_, hf⟩
  rw [after_neutral (fun c hc ↦ ht c (hu.subset hc)) n]
  exact hn

theorem Spans.bare (hn : low ≤ n ∧ n ≤ high) (ht : Text.Bare t) :
    Spans low high (between n) t (between n) :=
  .neutral hn (fun c hc ↦ neutral_of_bare (ht c hc)) ht.folded

theorem spans_line (hn : low ≤ n ∧ n ≤ high) (level : Nat) :
    Spans low high (between n) (line level) (between n) := by
  refine .neutral hn (fun c hc ↦ ?_) (folded_line level)
  rcases List.mem_append.1 hc with hc | hc
  · rw [List.mem_singleton.1 hc]
    decide
  · rw [List.eq_of_mem_replicate hc]
    decide

theorem spans_comma (hn : low ≤ n ∧ n ≤ high) (level : Nat) :
    Spans low high (between n) ("," ++ line level) (between n) :=
  (Spans.bare hn (by decide)).append (spans_line hn level)

/-- What stands for a code point in a string does not end the string. -/
theorem spans_escape (hn : low ≤ n ∧ n ≤ high) {c : CodePoint} (h : Escape c t) :
    Spans low high (inside n) t (inside n) := by
  have hr {d : CodePoint} (hd : 0x20 ≤ d.val) : d ≠ '\r' := by
    rintro rfl
    exact absurd hd (by decide)
  have hp {d : CodePoint} {u : Text} (hq : d ≠ '"') (hb : d ≠ '\\') (hd : 0x20 ≤ d.val)
      (hu : Spans low high (inside n) u (inside n)) :
      Spans low high (inside n) (d :: u) (inside n) := by
    apply Spans.cons (hr hd) hn
    rwa [step_inside (by simpa using hq) (by simpa using hb)]
  have hx (m : Nat) {u : Text} (hu : Spans low high (inside n) u (inside n)) :
      Spans low high (inside n) (Text.hexDigit (m % 16) :: u) (inside n) := by
    obtain ⟨hv, hq, hb⟩ := Text.hexDigit_val (Nat.mod_lt m (by decide : 0 < 16))
    exact hp hq hb hv hu
  have hnil : Spans low high (inside n) [] (inside n) := .nil hn
  cases h with
  | plain hq hb hc => exact hp hq hb hc hnil
  | short d hd hu hv hs => exact .cons (by decide) hn (.cons (hr hv) hn hnil)
  | long hc =>
    rw [Text.hex_four]
    exact .cons (by decide) hn (.cons (by decide) hn (hx _ (hx _ (hx _ (hx _ hnil)))))

theorem spans_quoted (hn : low ≤ n ∧ n ≤ high) (s : Text) :
    Spans low high (between n) (quoted s) (between n) := by
  have hs : Spans low high (inside n) (s.flatMap escaped) (inside n) := by
    induction s with
    | nil => exact .nil hn
    | cons c s ih =>
      rw [List.flatMap_cons]
      exact (spans_escape hn (escape_escaped c)).append ih
  have hq : Spans low high (between n) "\"" (inside n) := .single (by decide) rfl hn hn
  have hq' : Spans low high (inside n) "\"" (between n) := .single (by decide) rfl hn hn
  exact (hq.append hs).append hq'

/-- Pieces that take the cursor from one place to another, up to the first that has no text. The
number of open brackets stays between bounds all the way. -/
inductive Stays (low high : Nat) : Cursor → List Piece → Cursor → Prop
  | nil {k : Cursor} : low ≤ k.depth ∧ k.depth ≤ high → Stays low high k [] k
  | ok {k k' k'' : Cursor} {t : Text} {ps : List Piece} :
      Spans low high k t k' → Stays low high k' ps k'' → Stays low high k (.ok t :: ps) k''
  | error {k k' : Cursor} {e : Fault} {ps : List Piece} :
      low ≤ k.depth ∧ k.depth ≤ high → Stays low high k (.error e :: ps) k'

variable {ps qs : List Piece}

theorem Stays.single (h : Spans low high k t k') : Stays low high k [.ok t] k' :=
  .ok h (.nil h.finish)

theorem Stays.append (h : Stays low high k ps k') (h' : Stays low high k' qs k'') :
    Stays low high k (ps ++ qs) k'' := by
  induction h with
  | nil hk => exact h'
  | ok ht hs ih => exact .ok ht (ih h')
  | error hk => exact .error hk

theorem Stays.mono {low' high' : Nat} (h : Stays low high k ps k') (hl : low' ≤ low)
    (hh : high ≤ high') : Stays low' high' k ps k' := by
  induction h with
  | nil hk => exact .nil ⟨hl.trans hk.1, hk.2.trans hh⟩
  | ok ht hs ih => exact .ok (ht.mono hl hh) ih
  | error hk => exact .error ⟨hl.trans hk.1, hk.2.trans hh⟩

/-- A text may come in a piece of its own or in one with what follows it. -/
theorem Stays.lead {p : Piece} (ht : Spans low high k t k') (h : Stays low high k' [p] k'') :
    Stays low high k [p.map (t ++ ·)] k'' := by
  cases h with
  | ok hu hs => exact .ok (ht.append hu) hs
  | error hk => exact .error ht.start

/-- Where pieces are too deep there is one piece in place of them, and it has no text. -/
theorem Stays.called (h : Stays low high k ps k') (level : Nat) (place : Nesting) :
    Stays low high k (called level place ps) k' := by
  unfold Json.called
  split
  · cases h with
    | nil hk => exact .error hk
    | ok ht hs => exact .error ht.start
    | error hk => exact .error hk
  · exact h

/-- The items of a list, the first of which stands behind `lead`. -/
theorem stays_items {vs : List Value}
    (hv : ∀ v ∈ vs, ∀ n level, Stays n (n + v.depth) (between n) (pieces level v) (between n))
    {lead : Text} (hl : Spans low high k lead (between n)) (hd : n + Value.itemsDepth vs ≤ high)
    (hk : vs = [] → k = between n) (level : Nat) :
    Stays low high k (itemPieces level lead vs) (between n) := by
  induction vs generalizing lead k with
  | nil =>
    rw [← hk rfl]
    exact .nil hl.start
  | cons v vs ih =>
    obtain ⟨hv, hvs⟩ := List.forall_mem_cons.1 hv
    have hn := hl.finish
    have hm : n + v.depth ≤ high ∧ n + Value.itemsDepth vs ≤ high := by
      rw [Value.itemsDepth] at hd
      omega
    have hp : Stays low high (between n) (pieces level v) (between n) :=
      (hv n level).mono hn.1 hm.1
    rw [itemPieces]
    refine .append ?_ (ih hvs (spans_comma hn level) hm.2 fun _ ↦ rfl)
    split
    · rename_i hs
      obtain ⟨p, hs⟩ := exists_piece_of_isScalar hs level
      rw [hs] at hp ⊢
      exact .lead hl hp
    · exact .ok hl hp

/-- Named members, the first of which stands behind `lead`, and all others behind `next`. -/
theorem stays_members {ms : List (Text × List Piece)}
    (hm : ∀ m ∈ ms, Stays low high (between n) m.2 (between n)) (hn : low ≤ n ∧ n ≤ high)
    {lead next : Text} (hl : Spans low high (between n) lead (between n))
    (hx : Spans low high (between n) next (between n)) :
    Stays low high (between n) (memberPieces lead next ms) (between n) := by
  induction ms generalizing lead with
  | nil => exact .nil hn
  | cons m ms ih =>
    obtain ⟨hm, hms⟩ := List.forall_mem_cons.1 hm
    exact .ok hl (.ok (spans_quoted hn m.1)
      (.ok (.bare hn (by decide)) (hm.append (ih hms hx))))

/-- The pieces of a dictionary between its brackets. -/
def bodyPieces (level : Nat) (ms : List (Text × List Piece)) : List Piece :=
  memberPieces (line (level + 1)) ("," ++ line (level + 1)) ms ++ [.ok (line level)]

theorem objectPieces_cons (level : Nat) (m : Text × List Piece) (ms : List (Text × List Piece)) :
    objectPieces level (m :: ms) =
      called level .call (.ok "\x7b" :: bodyPieces level (m :: ms) ++ [.ok "\x7d"]) := by
  rw [objectPieces, bodyPieces, if_neg (by simp), List.cons_append, List.cons_append,
    List.append_assoc]
  rfl

theorem stays_body {ms : List (Text × List Piece)}
    (hm : ∀ m ∈ ms, Stays low high (between n) m.2 (between n)) (hn : low ≤ n ∧ n ≤ high)
    (level : Nat) : Stays low high (between n) (bodyPieces level ms) (between n) :=
  (stays_members hm hn (spans_line hn _) (spans_comma hn _)).append (.single (spans_line hn level))

/-- A bracket that opens and one that closes what has `n` brackets around it. -/
theorem spans_brackets (hn : low ≤ n ∧ n + 1 ≤ high) :
    Spans low high (between n) "[" (between (n + 1)) ∧
      Spans low high (between (n + 1)) "]" (between n) ∧
        Spans low high (between n) "\x7b" (between (n + 1)) ∧
          Spans low high (between (n + 1)) "\x7d" (between n) := by
  have ho : low ≤ n ∧ n ≤ high := ⟨hn.1, (Nat.le_succ n).trans hn.2⟩
  have hi : low ≤ n + 1 ∧ n + 1 ≤ high := ⟨hn.1.trans (Nat.le_succ n), hn.2⟩
  exact ⟨.single (by decide) rfl ho hi, .single (by decide) rfl hi ho,
    .single (by decide) rfl ho hi, .single (by decide) rfl hi ho⟩

theorem stays_object {ms : List (Text × List Piece)}
    (hm : ∀ m ∈ ms, Stays low high (between (n + 1)) m.2 (between (n + 1)))
    (hn : low ≤ n ∧ n + 1 ≤ high) (level : Nat) :
    Stays low high (between n) (objectPieces level ms) (between n) := by
  obtain ⟨-, -, ho, hc⟩ := spans_brackets hn
  cases ms with
  | nil => exact .single (ho.append hc)
  | cons m ms =>
    rw [objectPieces_cons]
    have hb := stays_body hm ⟨hn.1.trans (Nat.le_succ n), hn.2⟩ level
    exact ((Stays.ok ho hb).append (.single hc)).called level .call

/-- A value closes all brackets that it opens, and opens no more than it is deep. -/
theorem stays_pieces (v : Value) (n level : Nat) :
    Stays n (n + v.depth) (between n) (pieces level v) (between n) := by
  have hn {n m : Nat} : n ≤ n ∧ n ≤ n + m := ⟨Nat.le_refl n, Nat.le_add_right n m⟩
  induction v using Value.tree_induction generalizing n level with
  | null => exact .single (.bare hn (by decide))
  | bool b =>
    cases b with
    | true => exact .single (.bare hn (by decide))
    | false => exact .single (.bare hn (by decide))
  | int m =>
    rw [pieces, integer_eq]
    split
    · exact .single (.bare hn (Text.bare_ofInt m))
    · exact .error hn
  | float x => exact (Stays.single (.bare hn (Binary64.bare_write x))).called level .comparison
  | text t => exact .single (spans_quoted hn t)
  | list vs ih =>
    have hd : n ≤ n ∧ n + 1 ≤ n + (Value.list vs).depth := by
      rw [Value.depth]
      omega
    obtain ⟨ho, hc, -, -⟩ := spans_brackets hd
    cases vs with
    | nil => exact .single (ho.append hc)
    | cons v vs =>
      rw [pieces]
      have hi : n + 1 + Value.itemsDepth (v :: vs) ≤ n + (Value.list (v :: vs)).depth := by
        rw [Value.depth]
        omega
      have hl := ho.append (spans_line ho.finish (level + 1))
      have hs := (stays_items ih hl hi (absurd · (List.cons_ne_nil v vs)) (level + 1)).append
        (.ok (spans_line ho.finish level) (.single hc))
      exact hs.called level .call
  | dict fs ih =>
    have hd : n ≤ n ∧ n + 1 ≤ n + (Value.dict fs).depth := by
      rw [Value.depth]
      omega
    rw [pieces, members_eq_map]
    apply stays_object _ hd
    intro m hm
    obtain ⟨f, hf, rfl⟩ := List.mem_map.1 hm
    have hf' := Value.depth_le_of_mem hf
    refine (ih f hf (n + 1) (level + 1)).mono (Nat.le_succ n) ?_
    rw [Value.depth]
    omega

/-- The text of the pieces before the first one that has none. -/
def begun : List Piece → Text
  | .ok t :: ps => t ++ begun ps
  | _ => []

theorem Stays.begun (h : Stays low high k ps k') : ∃ m, Spans low high k (begun ps) m := by
  induction h with
  | nil hk => exact ⟨_, .nil hk⟩
  | ok ht hs ih =>
    obtain ⟨m, hm⟩ := ih
    exact ⟨m, ht.append hm⟩
  | error hk => exact ⟨_, .nil hk⟩

/-- A text in which a bracket stays open is no document, and not because of its depth. -/
theorem exists_fault_of_open {room : Nat} (hu : ∀ w, w <+: t → w ≠ [] →
      1 ≤ ((between 0).after w).depth ∧ ((between 0).after w).depth ≤ room) :
    ∃ e, readWithin room t = .error e ∧ e.kind ≠ .overflow ∧ e.kind ≠ .depth := by
  cases hr : readWithin room t with
  | ok v =>
    have ht : t ≠ [] := by
      rintro rfl
      cases hr
    have hd := (hu t (List.prefix_refl t) ht).1
    rw [after_of_readWithin hr] at hd
    cases hd
  | error e =>
    refine ⟨e, rfl, fun he ↦ ?_, fun he ↦ ?_⟩
    · have hk := readWithin_fault hr
      rw [he] at hk
      exact absurd hk (by decide)
    · obtain ⟨place, rfl⟩ := Fault.kind_eq_depth.1 he
      obtain ⟨w, hw, hd⟩ := exists_deep_of_readWithin hr
      have hn : w ≠ [] := by
        rintro rfl
        cases hd
      exact absurd (hu w hw hn).2 (Nat.not_le.2 hd)

end

end Json

namespace Settings

/-- How deep lists and dictionaries nest in a field. -/
def Field.depth : Field → Nat
  | value v => v.depth
  | bytes => 0

/-- The members of the document of settings. -/
def parts (s : Settings Field) : List (Text × List Json.Piece) :=
  s.fields.map fun f ↦ (f.1, f.2.pieces 1)

/-- The document of settings up to the bracket that closes it. -/
def opening (s : Settings Field) : List Json.Piece := .ok "\x7b" :: Json.bodyPieces 0 s.parts

theorem document_eq (s : Settings Field) : document s = s.opening ++ [.ok "\x7d"] :=
  (Json.objectPieces_cons 0 _ _).trans (if_neg (by decide))

/-- Settings of which every field can be read again as far as its depth goes. -/
def Shallow (s : Settings Field) : Prop := ∀ f ∈ s.fields, f.2.depth < nesting

instance : DecidablePred Shallow := fun s ↦
  inferInstanceAs (Decidable (∀ f ∈ s.fields, f.2.depth < nesting))

open Json Cursor

variable {s : Settings Field}

theorem spans_begun (hs : s.Shallow) :
    ∃ k, Spans 1 nesting (between 1) (begun (bodyPieces 0 s.parts)) k := by
  have hm : ∀ m ∈ s.parts, Stays 1 nesting (between 1) m.2 (between 1) := by
    intro m hm
    obtain ⟨f, hf, rfl⟩ := List.mem_map.1 hm
    have hd := hs f hf
    cases hv : f.2 with
    | value v =>
      rw [hv] at hd
      refine (stays_pieces v 1 1).mono (Nat.le_refl 1) ?_
      rw [Nat.add_comm]
      exact hd
    | bytes => exact .error (by decide)
  exact (stays_body hm (by decide) 0).begun

/-- Wherever the document of settings breaks off before its end, it cannot be read. -/
theorem exists_fault_of_opening (hs : s.Shallow) {t : Text} (ht : t <+: begun s.opening) :
    ∃ e, readWithin nesting (foldLines t) = .error e ∧ e.kind ≠ .overflow ∧ e.kind ≠ .depth := by
  obtain ⟨k, hb⟩ := spans_begun hs
  have hf : Text.Folded (begun s.opening) :=
    List.not_mem_cons_of_ne_of_not_mem (by decide) hb.folded
  rw [foldLines_of_folded fun hr ↦ hf (ht.subset hr)]
  apply exists_fault_of_open
  intro w hw hn
  rcases List.prefix_cons_iff.1 (hw.trans ht) with rfl | ⟨u, rfl, hu⟩
  · exact absurd rfl hn
  · exact hb.within u hu

/-- The bytes that are written are those of a text that was begun. -/
theorem exists_begun (ps : List Piece) :
    ∃ t, t <+: begun ps ∧ Text.Whole t ∧ (written ps).1 = t.flatMap Utf8.encodePoint := by
  induction ps with
  | nil => exact ⟨[], List.nil_prefix, nofun, rfl⟩
  | cons p ps ih =>
    cases p with
    | error e => exact ⟨[], List.nil_prefix, nofun, rfl⟩
    | ok u =>
      rw [written]
      cases hu : Utf8.encode? u with
      | none => exact ⟨[], List.nil_prefix, nofun, rfl⟩
      | some bytes =>
        obtain ⟨t, ht, hw, he⟩ := ih
        obtain ⟨hu, hb⟩ := Utf8.encode?_eq_some.1 hu
        refine ⟨u ++ t, (List.prefix_append_right_inj u).2 ht, Text.whole_append.2 ⟨hu, hw⟩, ?_⟩
        rw [List.flatMap_append, ← he, ← hb]

theorem written_append (ps qs : List Piece) : written (ps ++ qs) = match (written ps).2 with
    | none => ((written ps).1 ++ (written qs).1, (written qs).2)
    | some _ => written ps := by
  induction ps with
  | nil => rfl
  | cons p ps ih =>
    cases p with
    | error e => rfl
    | ok u =>
      rw [List.cons_append, written, written]
      cases Utf8.encode? u with
      | none => rfl
      | some bytes =>
        rw [ih]
        cases hf : (written ps).2 with
        | none => simp
        | some e => simp [hf]

/-- What is written of a document, short of all of it, comes before the bracket that closes it. -/
theorem prefix_opening {cut : Utf8.Bytes} (hc : cut <+: (written (document s)).1)
    (hn : (written (document s)).2 = none → cut ≠ (written (document s)).1) :
    cut <+: (written s.opening).1 := by
  have ho := written_append s.opening [.ok "\x7d"]
  rw [← document_eq] at ho
  cases hf : (written s.opening).2 with
  | some e =>
    rw [ho, hf] at hc
    exact hc
  | none =>
    rw [hf] at ho
    rw [ho] at hc hn
    exact (List.prefix_concat_iff.1 hc).resolve_left (hn rfl)

/-- What a path leads to is no settings, which is reported, and the standard ones take their
place. -/
def Lost (d : Directory) (path : Text) : Prop :=
  ∃ e, load d path = .ok (none, [.notLoaded e]) ∧
    loadOrStandard d path = .ok (standard, [.notLoaded e, .standard])

variable {d : Directory} {path : Text} {p : Place}

theorem lost_of_cut (hs : s.Shallow) (hp : d.writable path = .ok p) {cut : Utf8.Bytes}
    (hc : cut <+: (written (document s)).1)
    (hn : (written (document s)).2 = none → cut ≠ (written (document s)).1) :
    Lost (d.put p (.file cut .free)) path := by
  have hr := Directory.read_put hp cut
  obtain ⟨e, he, hk⟩ : ∃ e, ofBytes cut = .error e ∧ ¬ (e.kind = .overflow ∨ e.kind = .depth) := by
    obtain ⟨t, ht, hw, hb⟩ := exists_begun s.opening
    have hc := prefix_opening hc hn
    rw [hb] at hc
    unfold ofBytes
    rcases Utf8.decode?_of_prefix hw hc with hd | ⟨u, hu, hd⟩
    · rw [hd]
      exact ⟨_, rfl, by decide⟩
    · rw [hd]
      obtain ⟨e, he, ho, hk⟩ := exists_fault_of_opening hs (hu.trans ht)
      refine ⟨e, ?_, not_or.2 ⟨ho, hk⟩⟩
      simp only [he]
      rfl
  have hl := load_of_fault (Directory.holds_of_read hr) ((stored_of_read hr).trans he) hk
  refine ⟨e, hl, ?_⟩
  rw [loadOrStandard, hl]
  rfl

/-- Settings that were not saved do not come back, neither whole nor in part. If no file can be
written, nothing has changed; and whatever was written of a document, short of all of it, leaves a
file that is reported when it is loaded. -/
theorem unsaved_lost (d : Directory) (path : Text) (s : Settings Field) (hs : s.Shallow) :
    (∀ e, d.writable path = .error e →
      (save d path s).1.answer ≠ .ok true ∧ (save d path s).2 = d) ∧
    ∀ p, d.writable path = .ok p →
      ((save d path s).1.answer ≠ .ok true → Lost (save d path s).2 path) ∧
      ∀ cut, cut <+: (written (document s)).1 →
        ((written (document s)).2 = none → cut ≠ (written (document s)).1) →
          Lost (d.put p (.file cut .free)) path := by
  refine ⟨fun e he ↦ ?_, fun p hp ↦ ⟨fun hn ↦ ?_, fun cut ↦ lost_of_cut hs hp⟩⟩
  · rw [save, he]
    exact ⟨Saving.answer_ofFault_ne e, rfl⟩
  · rw [save_of_writable hp] at hn ⊢
    refine lost_of_cut hs hp (List.prefix_refl _) fun hf ↦ ?_
    rw [fault_of_document] at hf
    rw [hf] at hn
    exact absurd rfl hn

/-- A file of the name `s` with a document in it. -/
def kept (access : Access) : Directory :=
  let content := Text.ofString "\x7b\"max_command_history\": 7\x7d"
  ⟨[(Place.home ++ [[0x73]], .file (content.flatMap Utf8.encodePoint) access)]⟩

/-- Settings of which the second field cannot be written. -/
def broken : Settings Field := ⟨.value (.int 5), .bytes, .value (.text "snapshots")⟩

/-- Settings that are there are lost when broken ones are written over them, or when the writing of
others breaks off, and stay where nothing can be written, whether that is for a folder or for the
file with the settings itself. -/
theorem unsaved_lost_kept :
    load (kept .free) "s" = .ok (some (checked 7 50 .commands), []) ∧
      (save (kept .free) "s" broken).1.answer ≠ .ok true ∧
      Lost (save (kept .free) "s" broken).2 "s" ∧
      Lost ((kept .free).put (Place.home ++ [[0x73]]) (.file [0x7b] .free)) "s" ∧
      (save (kept .free) "." broken).2 = kept .free ∧
      load (save (kept .readOnly) "s" broken).2 "s" =
        .ok (some (checked 7 50 .commands), []) := by
  have hp : (kept .free).writable "s" = .ok (Place.home ++ [[0x73]]) := rfl
  have hn : (save (kept .free) "s" broken).1.answer ≠ .ok true := by
    have hf : broken.flaw? = some .bytes := by decide +kernel
    rw [save_of_writable hp, hf]
    intro h
    cases h
  have hl {access : Access} (ha : access ≠ .closed) :
      load (kept access) "s" = .ok (some (checked 7 50 .commands), []) := by
    have hv : value? (kept access) "s" = some (.dict [(commandLimitKey, .int 7)]) := by
      cases access with
      | free | readOnly => decide +kernel
      | closed => exact absurd rfl ha
    exact load_of_stored (holds_of_value? hv) (stored_of_value? hv)
  refine ⟨hl (by decide), hn, ?_, ?_, ?_, ?_⟩
  · exact ((unsaved_lost (kept .free) "s" broken (by decide)).2 _ hp).1 hn
  · exact ((unsaved_lost (kept .free) "s" ((checked 1 2 .snapshots).map .value)
      (by decide)).2 _ hp).2 _ (by decide +kernel) (by decide +kernel)
  · exact ((unsaved_lost (kept .free) "." broken (by decide)).1 (.obstacle .folder) rfl).2
  · rw [((unsaved_lost (kept .readOnly) "s" broken (by decide)).1 (.obstacle .denied) rfl).2]
    exact hl (by decide)

end Settings

end Rewind
