import Mathlib.Data.List.Forall2
import Mathlib.Data.List.Nodup
import Mathlib.Data.List.Perm.Subperm
import Rewind.Proofs.Scalar

namespace Rewind

namespace Value

section Fields

variable {fs gs : List (Text × Value)}

theorem field?_cons (k l : Text) (v : Value) :
    field? k ((l, v) :: fs) = if k = l then some v else field? k fs := by
  rw [field?, List.lookup_cons]
  by_cases hk : k = l
  · rw [if_pos hk, beq_iff_eq.2 hk]
  · rw [if_neg hk, beq_eq_false_iff_ne.2 hk]
    rfl

theorem field?_eq_none_iff {k : Text} : field? k fs = none ↔ k ∉ fs.map Prod.fst := by
  induction fs with
  | nil => simp [field?]
  | cons f fs ih => rw [field?_cons, List.map_cons, List.mem_cons, not_or, ← ih]; split <;> simp_all

theorem field?_eq_some_iff (hf : (fs.map Prod.fst).Nodup) {k : Text} {v : Value} :
    field? k fs = some v ↔ (k, v) ∈ fs := by
  induction fs with
  | nil => simp [field?]
  | cons f fs ih =>
    obtain ⟨l, u⟩ := f
    rw [List.map_cons, List.nodup_cons] at hf
    rw [field?_cons, List.mem_cons, ← ih hf.2, Prod.mk.injEq]
    split
    · rename_i hk
      subst hk
      have hn : field? k fs = none := field?_eq_none_iff.2 hf.1
      simp [hn, eq_comm]
    · rename_i hk
      simp [hk]

/-- The order of fields does not matter. -/
theorem field?_perm (hp : fs.Perm gs) (hf : (fs.map Prod.fst).Nodup) (k : Text) :
    field? k fs = field? k gs := by
  have hg : (gs.map Prod.fst).Nodup := (hp.map Prod.fst).nodup_iff.1 hf
  refine Option.ext fun v ↦ ?_
  rw [field?_eq_some_iff hf, field?_eq_some_iff hg, hp.mem_iff]

end Fields

/-- The keys of every dictionary in a value differ. -/
inductive Keyed : Value → Prop where
  | scalar {v : Value} : v.Hashable → Keyed v
  | items {vs : List Value} : (∀ v ∈ vs, Keyed v) → Keyed (list vs)
  | fields {fs : List (Text × Value)} :
      (fs.map Prod.fst).Nodup → (∀ f ∈ fs, Keyed f.2) → Keyed (dict fs)

/-- One value stands for the other inside a collection. -/
def Alike (v w : Value) : Prop := v.alike w = true

section Alike

variable {v w u : Value} {vs ws : List Value} {fs gs : List (Text × Value)}

theorem Hashable.alike_iff (h : v.Hashable) : Alike v w ↔ v.scalar? = w.scalar? := by
  obtain ⟨k, hk⟩ := h.exists_scalar
  rw [Alike, Value.alike_iff hk, hk, eq_comm]

/-- Scalars are not like lists and dictionaries. -/
theorem Hashable.of_alike (h : v.Hashable) (ha : Alike v w) : w.Hashable := by
  obtain ⟨k, hk⟩ := h.exists_scalar
  have hw := (Value.alike_iff hk w).1 ha
  cases w with
  | list | dict => cases hw
  | null | bool | int | float | text => rfl

theorem sameItems_iff_forall₂ : sameItems vs ws = true ↔ List.Forall₂ Alike vs ws := by
  induction vs generalizing ws with
  | nil => cases ws <;> simp [sameItems]
  | cons v vs ih =>
    cases ws with
    | nil => simp [sameItems]
    | cons w ws =>
      rw [sameItems, Bool.and_eq_true, ih, List.forall₂_cons]
      rfl

theorem sameFields_iff : sameFields fs gs = true ↔
    ∀ f ∈ fs, ∃ w, field? f.1 gs = some w ∧ Alike f.2 w := by
  induction fs with
  | nil => simp [sameFields]
  | cons f fs ih =>
    obtain ⟨k, v⟩ := f
    rw [sameFields, List.forall_mem_cons, ← ih]
    cases hk : field? k gs with
    | none => simp
    | some w =>
      rw [Bool.and_eq_true]
      simp [Alike, alike]

theorem alike_list_iff_forall₂ : Alike (list vs) (list ws) ↔ List.Forall₂ Alike vs ws := by
  rw [← sameItems_iff_forall₂]
  simp [Alike, alike, isNan, same]

/-- Lists are alike if they are so at every place. -/
theorem alike_list : Alike (list vs) (list ws) ↔ ∀ i : Nat, Option.Rel Alike vs[i]? ws[i]? := by
  rw [alike_list_iff_forall₂]
  constructor
  · intro h
    induction h with
    | nil => exact fun _ ↦ .none
    | cons hv _ ih =>
      intro i
      cases i with
      | zero => exact .some hv
      | succ i => exact ih i
  · intro h
    induction vs generalizing ws with
    | nil =>
      cases ws with
      | nil => exact .nil
      | cons w ws => cases h 0
    | cons v vs ih =>
      cases ws with
      | nil => cases h 0
      | cons w ws =>
        cases h 0 with
        | some hv => exact .cons hv (ih fun i ↦ h (i + 1))

theorem alike_dict_iff_forall : Alike (dict fs) (dict gs) ↔
    fs.length = gs.length ∧ ∀ f ∈ fs, ∃ w, field? f.1 gs = some w ∧ Alike f.2 w := by
  rw [← sameFields_iff]
  simp [Alike, alike, isNan, same]

theorem rel_none {a b : Option Value} (h : Option.Rel Alike a b) : a = none ↔ b = none := by
  cases h <;> simp

/-- Dictionaries are alike if they are so at every key. -/
theorem alike_dict (hf : (fs.map Prod.fst).Nodup) (hg : (gs.map Prod.fst).Nodup) :
    Alike (dict fs) (dict gs) ↔ ∀ k, Option.Rel Alike (field? k fs) (field? k gs) := by
  rw [alike_dict_iff_forall]
  constructor
  · rintro ⟨hl, h⟩ k
    cases hk : field? k fs with
    | some v =>
      obtain ⟨w, hw, hv⟩ := h (k, v) ((field?_eq_some_iff hf).1 hk)
      rw [hw]
      exact .some hv
    | none =>
      -- There are as many keys on either side, so that none is left over.
      have hsub : fs.map Prod.fst ⊆ gs.map Prod.fst := by
        intro l hl
        obtain ⟨f, hm, rfl⟩ := List.mem_map.1 hl
        obtain ⟨w, hw, -⟩ := h f hm
        exact List.mem_map.2 ⟨(f.1, w), (field?_eq_some_iff hg).1 hw, rfl⟩
      have hp := (hf.subperm hsub).perm_of_length_le (by simp [hl])
      have hn : field? k gs = none := by
        rw [field?_eq_none_iff, ← hp.mem_iff, ← field?_eq_none_iff]
        exact hk
      rw [hn]
      exact .none
  · intro h
    have hp : (fs.map Prod.fst).Perm (gs.map Prod.fst) := by
      refine (List.perm_ext_iff_of_nodup hf hg).2 fun k ↦ not_iff_not.1 ?_
      rw [← field?_eq_none_iff, ← field?_eq_none_iff]
      exact rel_none (h k)
    refine ⟨by simpa using hp.length_eq, fun f hm ↦ ?_⟩
    have hk := h f.1
    rw [(field?_eq_some_iff hf).2 hm] at hk
    generalize field? f.1 gs = b at hk ⊢
    cases hk with
    | some hv => exact ⟨_, rfl, hv⟩

theorem exists_list_of_alike (h : Alike (list vs) w) : ∃ ws, w = list ws := by
  cases w with
  | list ws => exact ⟨ws, rfl⟩
  | null | bool | int | float | text | dict => simp [Alike, alike, isNan, same, number?] at h

theorem exists_dict_of_alike (h : Alike (dict fs) w) : ∃ gs, w = dict gs := by
  cases w with
  | dict gs => exact ⟨gs, rfl⟩
  | null | bool | int | float | text | list => simp [Alike, alike, isNan, same, number?] at h

theorem keyed_list : Keyed (list vs) ↔ ∀ v ∈ vs, Keyed v := by
  refine ⟨fun h ↦ ?_, .items⟩
  cases h with
  | scalar h => cases h
  | items h => exact h

theorem keyed_dict : Keyed (dict fs) ↔ (fs.map Prod.fst).Nodup ∧ ∀ f ∈ fs, Keyed f.2 := by
  refine ⟨fun h ↦ ?_, fun h ↦ .fields h.1 h.2⟩
  cases h with
  | scalar h => cases h
  | fields hk hf => exact ⟨hk, hf⟩

theorem Keyed.of_getElem? (h : Keyed (.list vs)) {i : Nat} (hv : vs[i]? = some v) : Keyed v :=
  keyed_list.1 h v (List.mem_of_getElem? hv)

theorem Keyed.of_field? (h : Keyed (.dict fs)) {k : Text} (hv : field? k fs = some v) :
    Keyed v :=
  (keyed_dict.1 h).2 (k, v) ((field?_eq_some_iff (keyed_dict.1 h).1).1 hv)

theorem rel_symm {a b : Option Value} (h : Option.Rel Alike a b)
    (hs : ∀ v w, a = some v → b = some w → Alike v w → Alike w v) : Option.Rel Alike b a := by
  cases h with
  | none => exact .none
  | some hv => exact .some (hs _ _ rfl rfl hv)

theorem rel_trans {a b c : Option Value} (h : Option.Rel Alike a b) (h' : Option.Rel Alike b c)
    (ht : ∀ v w u, a = some v → b = some w → c = some u → Alike v w → Alike w u → Alike v u) :
    Option.Rel Alike a c := by
  cases h with
  | none =>
    cases h'
    exact .none
  | some hv =>
    cases h' with
    | some hw => exact .some (ht _ _ _ rfl rfl rfl hv hw)

theorem rel_refl {a : Option Value} (h : ∀ v, a = some v → Alike v v) : Option.Rel Alike a a := by
  cases a with
  | none => exact .none
  | some v => exact .some (h v rfl)

/-- Every value is like itself. -/
theorem Keyed.alike_refl (h : Keyed v) : Alike v v := by
  induction h with
  | scalar h => exact h.alike_iff.2 rfl
  | items _ ih =>
    refine alike_list.2 fun i ↦ rel_refl fun v hv ↦ ?_
    exact ih v (List.mem_of_getElem? hv)
  | fields hk _ ih =>
    refine (alike_dict hk hk).2 fun k ↦ rel_refl fun v hv ↦ ?_
    exact ih (k, v) ((field?_eq_some_iff hk).1 hv)

theorem Keyed.alike_symm (hv : Keyed v) (hw : Keyed w) (h : Alike v w) : Alike w v := by
  induction hv generalizing w with
  | scalar hv => exact (hv.of_alike h).alike_iff.2 (hv.alike_iff.1 h).symm
  | items _ ih =>
    obtain ⟨ws, rfl⟩ := exists_list_of_alike h
    refine alike_list.2 fun i ↦ rel_symm (alike_list.1 h i) fun v u hi hu hvu ↦ ?_
    exact ih v (List.mem_of_getElem? hi) (hw.of_getElem? hu) hvu
  | fields hk _ ih =>
    obtain ⟨gs, rfl⟩ := exists_dict_of_alike h
    have hg := (keyed_dict.1 hw).1
    refine (alike_dict hg hk).2 fun k ↦ rel_symm ((alike_dict hk hg).1 h k) fun v u hi hu hvu ↦ ?_
    exact ih (k, v) ((field?_eq_some_iff hk).1 hi) (hw.of_field? hu) hvu

theorem Keyed.alike_trans (hv : Keyed v) (hw : Keyed w) (hu : Keyed u) (h : Alike v w)
    (h' : Alike w u) : Alike v u := by
  induction hv generalizing w u with
  | scalar hv => exact hv.alike_iff.2 ((hv.alike_iff.1 h).trans ((hv.of_alike h).alike_iff.1 h'))
  | items _ ih =>
    obtain ⟨ws, rfl⟩ := exists_list_of_alike h
    obtain ⟨us, rfl⟩ := exists_list_of_alike h'
    refine alike_list.2 fun i ↦ rel_trans (alike_list.1 h i) (alike_list.1 h' i) ?_
    intro a b c ha hb hc
    exact ih a (List.mem_of_getElem? ha) (hw.of_getElem? hb) (hu.of_getElem? hc)
  | fields hk _ ih =>
    obtain ⟨gs, rfl⟩ := exists_dict_of_alike h
    obtain ⟨es, rfl⟩ := exists_dict_of_alike h'
    have hg := (keyed_dict.1 hw).1
    have he := (keyed_dict.1 hu).1
    refine (alike_dict hk he).2 fun k ↦
      rel_trans ((alike_dict hk hg).1 h k) ((alike_dict hg he).1 h' k) ?_
    intro a b c ha hb hc
    exact ih (k, a) ((field?_eq_some_iff hk).1 ha) (hw.of_field? hb) (hu.of_field? hc)

/-- What a scalar has in common with every scalar equal to it. -/
theorem exists_residue_of_scalar (k : Scalar) :
    ∃ r, ∀ v : Value, v.scalar? = some k → v.residue? = some r := by
  cases k with
  | null => exact ⟨.null, fun v hv ↦ by cases v <;> simp_all [scalar?, number?, residue?]⟩
  | text t =>
    refine ⟨if t.isEmpty then .number 0 else .text t, fun v hv ↦ ?_⟩
    cases v <;> simp_all [scalar?, number?, residue?]
  | number x =>
    exact ⟨.ofNumber x, fun v hv ↦ by cases v <;> simp_all [scalar?, number?, residue?]⟩

theorem residue?_of_alike (h : Alike v w) :
    v.residue? = w.residue? ∧ (v.residue? = none → v.kind = w.kind) := by
  by_cases hv : v.Hashable
  · obtain ⟨k, hk⟩ := hv.exists_scalar
    obtain ⟨r, hr⟩ := exists_residue_of_scalar k
    have hw := hr w ((hv.alike_iff.1 h).symm.trans hk)
    refine ⟨(hr v hk).trans hw.symm, fun hn ↦ ?_⟩
    rw [hr v hk] at hn
    cases hn
  · cases v with
    | list vs =>
      obtain ⟨ws, rfl⟩ := exists_list_of_alike h
      exact ⟨rfl, fun _ ↦ rfl⟩
    | dict fs =>
      obtain ⟨gs, rfl⟩ := exists_dict_of_alike h
      exact ⟨rfl, fun _ ↦ rfl⟩
    | null | bool | int | float | text => exact absurd rfl hv

theorem sameItems_iff_alike : sameItems vs ws = true ↔ Alike (list vs) (list ws) := by
  rw [sameItems_iff_forall₂, alike_list_iff_forall₂]

/-- Equal lists are as fit for a set. -/
theorem allHashable_congr (h : sameItems vs ws = true) : AllHashable vs ↔ AllHashable ws := by
  induction sameItems_iff_forall₂.1 h with
  | nil => exact Iff.rfl
  | @cons v w vs ws hv hvs ih =>
    have ih := ih (sameItems_iff_forall₂.2 hvs)
    unfold AllHashable at ih ⊢
    rw [List.forall_mem_cons, List.forall_mem_cons, ih, Hashable, (residue?_of_alike hv).1]
    rfl

theorem AllHashable.of_sameItems (h : AllHashable vs) (hs : sameItems vs ws = true) :
    AllHashable ws := (allHashable_congr hs).1 h

theorem AllHashable.sameItems_refl (h : AllHashable vs) : sameItems vs vs = true :=
  (sameItems_iff h vs).2 rfl

theorem AllHashable.sameItems_symm (h : AllHashable vs) (hs : sameItems vs ws = true) :
    sameItems ws vs = true :=
  (sameItems_iff (h.of_sameItems hs) vs).2 ((sameItems_iff h ws).1 hs).symm

theorem AllHashable.sameItems_trans (h : AllHashable vs) {us : List Value}
    (hs : sameItems vs ws = true) (hs' : sameItems ws us = true) : sameItems vs us = true :=
  (sameItems_iff h us).2 (((sameItems_iff h ws).1 hs).trans
    ((sameItems_iff (h.of_sameItems hs) us).1 hs'))

end Alike

/-- The values without those that an earlier one stands for. -/
def firsts (vs : List Value) : List Value := vs.eraseDupsBy fun v w ↦ w.alike v

section Firsts

variable {v : Value} {vs ws kept : List Value}

theorem firsts_cons : firsts (v :: vs) = v :: firsts (vs.filter fun w ↦ v.alike w = false) :=
  List.eraseDupsBy_cons

theorem addDistinct_of_hashable (h : v.Hashable) :
    addDistinct kept v = .ok (if v.isAmong kept then kept else kept ++ [v]) := by
  rw [Hashable, Option.isSome_iff_ne_none] at h
  simp [addDistinct, h]

theorem foldlM_addDistinct (h : AllHashable vs) : vs.foldlM addDistinct kept =
    .ok (kept ++ firsts (vs.filter fun v ↦ v.isAmong kept = false)) := by
  induction vs generalizing kept with
  | nil =>
    rw [List.filter_nil]
    exact congrArg _ (List.append_nil kept).symm
  | cons v vs ih =>
    rw [List.foldlM_cons, addDistinct_of_hashable (h v List.mem_cons_self)]
    show List.foldlM addDistinct _ vs = _
    rw [ih fun w hw ↦ h w (List.mem_cons_of_mem v hw)]
    split
    · rename_i hv
      rw [List.filter_cons_of_neg (by simp [hv])]
    · rename_i hv
      rw [List.filter_cons_of_pos (by simp [hv]), firsts_cons, List.filter_filter,
        List.append_assoc, List.singleton_append]
      simp [isAmong, and_comm]

/-- Values that are fit for a set lose those that an earlier one stands for. -/
theorem distinct_eq_firsts (h : AllHashable vs) : distinct vs = .ok (firsts vs) := by
  rw [distinct_eq, foldlM_addDistinct h, List.nil_append, List.filter_eq_self.2]
  exact fun _ _ ↦ rfl

/-- Up to equality it does not matter which of two like values is the earlier one. -/
theorem map_firsts (h : AllHashable vs) :
    (firsts vs).map scalar? = (vs.map scalar?).eraseDups := by
  induction hl : vs.length using Nat.strongRecOn generalizing vs with
  | ind l ih =>
    subst hl
    cases vs with
    | nil => rfl
    | cons v vs =>
      have hvs : AllHashable vs := fun w hw ↦ h w (List.mem_cons_of_mem v hw)
      let rest := vs.filter fun w ↦ v.alike w = false
      have hrest : AllHashable rest := fun w hw ↦ hvs w (List.mem_filter.1 hw).1
      have hlen : rest.length < (v :: vs).length := Nat.lt_succ_of_le (List.length_filter_le _ _)
      have hmap : rest.map scalar? = (vs.map scalar?).filter fun b ↦ !b == scalar? v := by
        rw [List.filter_map]
        refine congrArg _ (List.filter_congr fun w _ ↦ ?_)
        have hw := (h v List.mem_cons_self).alike_iff (w := w)
        rw [Alike] at hw
        by_cases he : v.scalar? = w.scalar?
        · simp [hw.2 he, he]
        · simp [mt hw.1 he, Ne.symm he]
      rw [firsts_cons, List.map_cons, List.map_cons, List.eraseDups_cons, ← hmap]
      exact congrArg _ (ih rest.length hlen hrest rfl)

theorem sameItems_firsts (h : AllHashable vs) (hs : sameItems vs ws = true) :
    sameItems (firsts vs) (firsts ws) = true := by
  have hsettled := settled_of_distinct (distinct_eq_firsts h)
  rw [sameItems_iff hsettled.hashable, map_firsts h, map_firsts (h.of_sameItems hs),
    (sameItems_iff h ws).1 hs]

theorem firsts_eq_of_settled (h : Settled vs) : firsts vs = vs := by
  have hd := distinct_eq_firsts h.hashable
  rw [h.distinct_eq] at hd
  exact (Except.ok.inj hd).symm

end Firsts

end Value

end Rewind
