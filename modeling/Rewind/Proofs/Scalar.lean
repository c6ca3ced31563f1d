import Rewind.Selection

namespace Rewind

/-- What equal values that are fit for a set have in common. -/
inductive Scalar where
  | null
  | text (t : Text)
  | number (x : Number)
  deriving DecidableEq

theorem Number.same_iff {x : Number} (hx : x ≠ .nan) (y : Number) : x.same y = true ↔ x = y := by
  cases x <;> cases y <;> simp_all [same]

namespace Value

def scalar? : Value → Option Scalar
  | null => some .null
  | text t => some (.text t)
  | v => v.number?.map .number

def Hashable (v : Value) : Prop := v.residue?.isSome

instance (v : Value) : Decidable v.Hashable := inferInstanceAs (Decidable (_ = true))

theorem Hashable.exists_scalar {v : Value} (h : v.Hashable) : ∃ k, v.scalar? = some k := by
  cases v with
  | null => exact ⟨.null, rfl⟩
  | bool b => exact ⟨.number _, rfl⟩
  | int n => exact ⟨.number _, rfl⟩
  | float x => exact ⟨.number _, rfl⟩
  | text t => exact ⟨.text t, rfl⟩
  | list vs | dict fs => cases h

theorem isNan_iff (v : Value) : v.isNan = true ↔ v.number? = some .nan := by
  cases v with
  | float x => cases x <;> simp [isNan, number?, Number.ofBinary64]
  | null | bool | int | text | list | dict => exact ⟨nofun, nofun⟩

theorem same_text {v : Value} {t : Text} : v.same (.text t) = true ↔ v = .text t := by
  cases v <;> simp [same, number?]

theorem same_of_number {v : Value} {x : Number} (hv : v.number? = some x) (w : Value) :
    v.same w = true ↔ ∃ y, w.number? = some y ∧ x.same y = true := by
  cases v <;> cases w <;> simp_all [same, number?]

theorem alike_of_number {v : Value} {x : Number} (hv : v.number? = some x) (w : Value) :
    v.alike w = true ↔ w.number? = some x := by
  rw [alike, Bool.or_eq_true, Bool.and_eq_true, isNan_iff, isNan_iff, same_of_number hv, hv]
  by_cases hx : x = .nan
  · subst hx
    constructor
    · rintro (⟨-, hw⟩ | ⟨y, -, hy⟩)
      · exact hw
      · cases hy
    · intro hw
      exact .inl ⟨rfl, hw⟩
  · constructor
    · rintro (⟨hn, -⟩ | ⟨y, hw, hy⟩)
      · exact absurd (Option.some.inj hn) hx
      · rw [hw, (Number.same_iff hx y).1 hy]
    · intro hw
      exact .inr ⟨x, hw, (Number.same_iff hx x).2 rfl⟩

theorem alike_iff {v : Value} {k : Scalar} (h : v.scalar? = some k) (w : Value) :
    v.alike w = true ↔ w.scalar? = some k := by
  cases v with
  | null =>
    cases h
    cases w <;> simp [alike, isNan, same, number?, scalar?]
  | text t =>
    cases h
    cases w with
    | text u => simpa [alike, isNan, same, scalar?] using eq_comm
    | null | bool | int | float | list | dict => simp [alike, isNan, same, number?, scalar?]
  | bool | int | float =>
    cases h
    rw [alike_of_number rfl]
    cases w <;> simp [scalar?, number?]
  | list | dict => cases h

/-- Values that are fit for a set, one by one. -/
def AllHashable (vs : List Value) : Prop := ∀ v ∈ vs, v.Hashable

instance (vs : List Value) : Decidable (AllHashable vs) :=
  inferInstanceAs (Decidable (∀ v ∈ vs, v.Hashable))

theorem sameItems_iff {vs : List Value} (h : AllHashable vs) (ws : List Value) :
    sameItems vs ws = true ↔ vs.map scalar? = ws.map scalar? := by
  induction vs generalizing ws with
  | nil => cases ws <;> simp [sameItems]
  | cons v vs ih =>
    cases ws with
    | nil => simp [sameItems]
    | cons w ws =>
      obtain ⟨k, hk⟩ := (h v List.mem_cons_self).exists_scalar
      have ih := ih (fun u hu ↦ h u (List.mem_cons_of_mem v hu)) ws
      have hv : (v.isNan && w.isNan || same v w) = true ↔ w.scalar? = some k := alike_iff hk w
      rw [sameItems, Bool.and_eq_true, hv, ih, List.map_cons, List.map_cons, List.cons.injEq, hk,
        eq_comm]

/-- Values that are fit for a set, no two of which are alike. -/
structure Settled (vs : List Value) : Prop where
  hashable : AllHashable vs
  apart : vs.Pairwise fun v w ↦ v.alike w = false

instance (vs : List Value) : Decidable (Settled vs) :=
  decidable_of_iff (AllHashable vs ∧ vs.Pairwise fun v w ↦ v.alike w = false)
    ⟨fun h ↦ ⟨h.1, h.2⟩, fun h ↦ ⟨h.1, h.2⟩⟩

/-- What is kept when one more value is added to values that are settled. -/
def addDistinct (kept : List Value) (v : Value) : Except Fault (List Value) :=
  if v.residue?.isNone then .error (.notMember v.kind)
  else .ok (if v.isAmong kept then kept else kept ++ [v])

theorem distinct_eq (vs : List Value) : distinct vs = vs.foldlM addDistinct [] := rfl

theorem Settled.addDistinct {kept : List Value} (h : Settled kept) {v : Value} {us : List Value}
    (hu : addDistinct kept v = .ok us) : v.Hashable ∧ Settled us := by
  unfold Value.addDistinct at hu
  split at hu
  · cases hu
  · rename_i hv
    have hv : v.Hashable := by simpa [Hashable, Option.isSome_iff_ne_none] using hv
    cases hu
    refine ⟨hv, ?_⟩
    split
    · exact h
    · rename_i hk
      have hk : ∀ w ∈ kept, w.alike v = false := by simpa [isAmong] using hk
      refine ⟨?_, ?_⟩
      · intro w hw
        rcases List.mem_append.1 hw with hw | hw
        · exact h.hashable w hw
        · rw [List.mem_singleton.1 hw]
          exact hv
      · refine List.pairwise_append.2 ⟨h.apart, List.pairwise_singleton _ _, ?_⟩
        intro w hw u hu
        rw [List.mem_singleton.1 hu]
        exact hk w hw

theorem Settled.foldlM_addDistinct {kept us : List Value} (h : Settled kept) {vs : List Value}
    (hu : vs.foldlM Value.addDistinct kept = .ok us) : AllHashable vs ∧ Settled us := by
  induction vs generalizing kept with
  | nil =>
    cases hu
    exact ⟨nofun, h⟩
  | cons v vs ih =>
    rw [List.foldlM_cons] at hu
    cases hv : Value.addDistinct kept v with
    | error e =>
      rw [hv] at hu
      cases hu
    | ok ws =>
      rw [hv] at hu
      obtain ⟨hh, hw⟩ := h.addDistinct hv
      obtain ⟨hvs, hu⟩ := ih hw hu
      refine ⟨?_, hu⟩
      intro w hw
      rcases List.mem_cons.1 hw with rfl | hw
      · exact hh
      · exact hvs w hw

theorem settled_nil : Settled [] := ⟨nofun, List.Pairwise.nil⟩

/-- Of values that are fit for a set, those without a like among the earlier ones are settled. -/
theorem settled_of_distinct {vs us : List Value} (h : distinct vs = .ok us) : Settled us :=
  (settled_nil.foldlM_addDistinct h).2

/-- Only values that are fit for a set can be told apart. -/
theorem exists_distinct_iff {vs : List Value} : (∃ us, distinct vs = .ok us) ↔ AllHashable vs := by
  constructor
  · rintro ⟨us, hu⟩
    exact (settled_nil.foldlM_addDistinct hu).1
  · intro h
    have hall (kept : List Value) : ∃ us, vs.foldlM Value.addDistinct kept = .ok us := by
      induction vs generalizing kept with
      | nil => exact ⟨kept, rfl⟩
      | cons v vs ih =>
        have hv : v.residue?.isNone = false := by
          simpa [Hashable, Option.isSome_iff_ne_none] using h v List.mem_cons_self
        have ih := ih fun w hw ↦ h w (List.mem_cons_of_mem v hw)
        obtain ⟨us, hu⟩ := ih (if v.isAmong kept then kept else kept ++ [v])
        refine ⟨us, ?_⟩
        rw [List.foldlM_cons, Value.addDistinct, hv]
        exact hu
    exact hall []

theorem Settled.distinct_eq {vs : List Value} (h : Settled vs) : distinct vs = .ok vs := by
  have hall (kept : List Value) (hk : Settled (kept ++ vs)) :
      vs.foldlM Value.addDistinct kept = .ok (kept ++ vs) := by
    induction vs generalizing kept with
    | nil =>
      rw [List.append_nil]
      rfl
    | cons v vs ih =>
      have hv : v.residue?.isNone = false := by
        simpa [Hashable, Option.isSome_iff_ne_none] using hk.hashable v (by simp)
      have hn : v.isAmong kept = false := by
        have hp := (List.pairwise_append.1 hk.apart).2.2
        simpa [isAmong] using fun w hw ↦ hp w hw v List.mem_cons_self
      have happ : kept ++ [v] ++ vs = kept ++ v :: vs := by simp
      have ih := ih ⟨fun w hw ↦ h.hashable w (List.mem_cons_of_mem v hw), h.apart.of_cons⟩
        (kept ++ [v]) (happ ▸ hk)
      rw [List.foldlM_cons, Value.addDistinct, hv, hn]
      exact ih.trans (congrArg _ happ)
  exact hall [] h

end Value

end Rewind
