import Rewind.Proofs.Leads
import Rewind.Session.Perform

namespace Rewind

variable {σ α β : Type}

namespace Run

theorem Agree.trans {I : σ → Prop} {m m' m'' : Run σ α} (h : m.Agree m' I) (h' : m'.Agree m'' I) :
    m.Agree m'' I := fun s hs ↦ ⟨(h s hs).1.trans (h' s hs).1, (h s hs).2⟩

theorem Agree.of_eq {I : σ → Prop} {m m' : Run σ α} (h : ∀ s, I s → m s = m' s) (hm : m'.Keeps I) :
    m.Agree m' I := fun s hs ↦ ⟨h s hs, (hm s hs).of_eq (h s hs)⟩

theorem Agree.keeps {I : σ → Prop} {m m' : Run σ α} (h : m.Agree m' I) : m.Keeps I :=
  fun s hs ↦ (h s hs).2

/-- A row fails as one in it does, and no further one is run. -/
theorem each_raised_iff {f : α → Run σ Unit} {xs : List α} {s t : σ} {e : Fault} :
    each xs f s = .raised e t ↔
      ∃ ys x zs u, xs = ys ++ x :: zs ∧ each ys f s = .returned () u ∧ f x u = .raised e t := by
  constructor
  · intro h
    induction xs generalizing s with
    | nil => cases h
    | cons x xs ih =>
      have h : (f x >>= fun _ ↦ each xs f) s = .raised e t := h
      cases hx : f x s with
      | returned a u =>
        rw [bind_returned hx] at h
        obtain ⟨ys, y, zs, v, rfl, hv, hy⟩ := ih h
        exact ⟨x :: ys, y, zs, v, rfl, (bind_returned hx).trans hv, hy⟩
      | raised e' u =>
        rw [bind_raised hx] at h
        cases h
        exact ⟨[], x, xs, s, rfl, rfl, hx⟩
      | exhausted =>
        rw [bind_exhausted hx] at h
        cases h
  · rintro ⟨ys, x, zs, u, rfl, hu, hx⟩
    rw [each_append, bind_returned hu]
    exact bind_raised hx

/-- From wherever things look as they do in `t`, the computation returns to where they look as they
do in `s`. -/
def Reverses (m : Run σ Unit) (I : σ → Prop) (look : σ → α) (s t : σ) : Prop :=
  ∀ u, I u → look u = look t → ∃ v, m u = .returned () v ∧ I v ∧ look v = look s

/-- What reverses each computation of a row reverses the row, the last one first. -/
theorem reverses_each {f g : α → Run σ Unit} {I : σ → Prop} {look : σ → β} {xs : List α} {s t : σ}
    (h : each xs f s = .returned () t)
    (hg : ∀ ys x zs u v, xs = ys ++ x :: zs → each ys f s = .returned () u →
      f x u = .returned () v → (g x).Reverses I look u v) :
    (each xs.reverse g).Reverses I look s t := by
  induction xs generalizing s with
  | nil =>
    cases h
    exact fun u hu hl ↦ ⟨u, rfl, hu, hl⟩
  | cons x xs ih =>
    have h : (f x >>= fun _ ↦ each xs f) s = .returned () t := h
    cases hx : f x s with
    | returned a v =>
      rw [bind_returned hx] at h
      have hfirst := hg [] x xs s v rfl rfl hx
      have hrest := ih h fun ys y zs u u' hxs hu hy ↦
        hg (x :: ys) y zs u u' (congrArg (x :: ·) hxs) ((bind_returned hx).trans hu) hy
      intro u hu hl
      obtain ⟨v', hv', hi, hl⟩ := hrest u hu hl
      obtain ⟨w, hw, hi, hl⟩ := hfirst v' hi hl
      refine ⟨w, ?_, hi, hl⟩
      rw [List.reverse_cons, each_append, bind_returned hv']
      exact (bind_returned hw).trans rfl
    | raised e v =>
      rw [bind_raised hx] at h
      cases h
    | exhausted =>
      rw [bind_exhausted hx] at h
      cases h

end Run

namespace Session

/-- The order in which the parts of a group are called. -/
def Way.order : Way → List α → List α
  | undo, xs => xs.reverse
  | redo, xs | restore, xs => xs

theorem Way.map_order (way : Way) (f : α → β) (xs : List α) :
    (way.order xs).map f = way.order (xs.map f) := by
  cases way with
  | undo => exact List.map_reverse
  | redo | restore => rfl

@[simp]
theorem Way.mem_order {way : Way} {xs : List α} {x : α} : x ∈ way.order xs ↔ x ∈ xs := by
  cases way with
  | undo => exact List.mem_reverse
  | redo | restore => rfl

/-- Edits in a row, some of which are groups of others. -/
inductive Parts where
  | nil
  | edit (i : Nat) (rest : Parts)
  | group (i : Nat) (parts rest : Parts)

namespace Parts

/-- The edits and the groups in the row. -/
def roots : Parts → List Nat
  | nil => []
  | edit i rest | group i _ rest => i :: rest.roots

/-- The edits in the row and in its groups, in order. -/
def leaves : Parts → List Nat
  | nil => []
  | edit i rest => i :: rest.leaves
  | group _ parts rest => parts.leaves ++ rest.leaves

/-- How deep groups nest. -/
def height : Parts → Nat
  | nil => 0
  | edit _ rest => rest.height
  | group _ parts rest => max (parts.height + 1) rest.height

/-- The edits in order, each with the depth that is left when it is called. -/
def calls : Nat → Parts → List (Nat × Nat)
  | _, nil => []
  | n, edit i rest => (n, i) :: rest.calls n
  | n, group _ parts rest => parts.calls (n - 1) ++ rest.calls n

theorem map_calls (t : Parts) (n : Nat) : (t.calls n).map Prod.snd = t.leaves := by
  induction t generalizing n with
  | nil => rfl
  | edit i rest ih => simp only [calls, leaves, List.map_cons, ih]
  | group i parts rest ihp ihr => simp only [calls, leaves, List.map_append, ihp, ihr]

end Parts

/-- The groups are in the world, with the parts they have. -/
def World.Holds (w : World) : Parts → Prop
  | .nil => True
  | .edit _ rest => w.Holds rest
  | .group i parts rest =>
    (∃ g, w.items[i]? = some (.group g) ∧ g.parts.toList = parts.roots) ∧
      w.Holds parts ∧ w.Holds rest

/-- Calls the edit with the depth that is left for it. -/
def callAt (way : Way) (c : Nat × Nat) : Run World Unit := (inner c.1).call way c.2

section Rows

variable {way : Way} {I : World → Prop} {n i : Nat}

theorem agree_order_append {f : α → Run World Unit} {g : β → Run World Unit} {a a' : List α}
    {b b' : List β}
    (h : (Run.each (way.order a) f).Agree (Run.each (way.order b) g) I)
    (h' : (Run.each (way.order a') f).Agree (Run.each (way.order b') g) I) :
    (Run.each (way.order (a ++ a')) f).Agree (Run.each (way.order (b ++ b')) g) I := by
  cases way with
  | undo =>
    simp only [Way.order, List.reverse_append, Run.each_append] at h h' ⊢
    exact h'.bind fun _ ↦ h
  | redo | restore =>
    simp only [Way.order, Run.each_append] at h h' ⊢
    exact h.bind fun _ ↦ h'

theorem each_order_singleton (way : Way) (f : α → Run World Unit) (x : α) :
    Run.each (way.order [x]) f = f x := by
  have hone : Run.each [x] f = f x := bind_pure_unit (x := f x)
  cases way with
  | undo | redo | restore => exact hone

/-- The parts of a group that stays as it is are called one after the other. -/
theorem reapplyParts_eq {b : Inner} {parts : List Nat}
    (hg : ∀ w, I w → ∃ g, w.items[i]? = some (.group g) ∧ g.parts.toList = parts)
    (hb : ∀ p ∈ parts, (b.call .redo p).Keeps I) {fuel k : Nat} (hk : k ≤ parts.length)
    (hf : parts.length < fuel + k) {w : World} (hw : I w) :
    reapplyParts b i fuel k w = Run.each (parts.drop k) (b.call .redo) w := by
  induction fuel generalizing k w with
  | zero => omega
  | succ fuel ih =>
    obtain ⟨g, hitem, hparts⟩ := hg w hw
    have hpart : g.parts[k]? = parts[k]? := by rw [← hparts, Array.getElem?_toList]
    have hget : (Run.get : Run World World) w = .returned w w := rfl
    unfold reapplyParts
    rw [Run.bind_returned hget, hitem]
    dsimp only
    rw [hpart]
    rcases Nat.lt_or_eq_of_le hk with hlt | rfl
    · rw [List.getElem?_eq_getElem hlt, List.drop_eq_getElem_cons hlt]
      have hcalled := hb parts[k] (List.getElem_mem hlt) w hw
      show (b.call .redo parts[k] >>= fun _ ↦ reapplyParts b i fuel (k + 1)) w =
        (b.call .redo parts[k] >>= fun _ ↦ Run.each (parts.drop (k + 1)) (b.call .redo)) w
      cases ho : b.call .redo parts[k] w with
      | returned a v =>
        rw [Run.bind_returned ho, Run.bind_returned ho]
        exact ih hlt (by omega) (hcalled.returned ho)
      | raised e v => rw [Run.bind_raised ho, Run.bind_raised ho]
      | exhausted => rw [Run.bind_exhausted ho, Run.bind_exhausted ho]
    · rw [List.getElem?_eq_none (Nat.le_refl _), List.drop_length]
      rfl

/-- What a group is asked to do, its parts are asked in turn. -/
theorem callItem_agree {b : Inner} {parts : List Nat} (hway : way ≠ .restore)
    (hg : ∀ w, I w → ∃ g, w.items[i]? = some (.group g) ∧ g.parts.toList = parts)
    (hb : ∀ p ∈ parts, (b.call way p).Keeps I) :
    (callItem b way i).Agree (Run.each (way.order parts) (b.call way)) I := by
  refine .of_eq (fun w hw ↦ ?_) fun w hw ↦ Run.leads_each hw fun p hp ↦ hb p (Way.mem_order.1 hp)
  obtain ⟨g, hitem, hparts⟩ := hg w hw
  have hget : (Run.get : Run World World) w = .returned w w := rfl
  unfold callItem
  rw [Run.bind_returned hget, hitem]
  cases way with
  | undo =>
    dsimp only
    rw [hparts]
    rfl
  | redo =>
    have hsize : g.parts.size = parts.length := by rw [← hparts, Array.length_toList]
    exact reapplyParts_eq hg hb (Nat.zero_le _) (by omega) hw
  | restore => exact absurd rfl hway

/-- A group is called as the row of its parts is. -/
theorem group_agree_of_row (hway : way ≠ .restore) {t : Parts}
    (hg : ∀ w, I w → w.Holds (.group i t .nil))
    (hrow : (∀ p ∈ t.roots, ((inner n).call way p).Keeps I) ∧
      (Run.each (way.order t.roots) ((inner n).call way)).Agree
        (Run.each (way.order (t.calls n)) (callAt way)) I) :
    ((inner (n + 1)).call way i).Agree (Run.each (way.order (t.calls n)) (callAt way)) I :=
  (callItem_agree hway (fun w hw ↦ (hg w hw).1) hrow.1).trans hrow.2

/-- The edits in a row are called one after the other, whatever groups there are. -/
theorem row_agree (hway : way ≠ .restore) {t : Parts} (hn : t.height ≤ n)
    (hg : ∀ w, I w → w.Holds t) (ht : ∀ c ∈ t.calls n, (callAt way c).Keeps I) :
    (∀ i ∈ t.roots, ((inner n).call way i).Keeps I) ∧
      (Run.each (way.order t.roots) ((inner n).call way)).Agree
        (Run.each (way.order (t.calls n)) (callAt way)) I := by
  induction t generalizing n with
  | nil =>
    refine ⟨nofun, ?_⟩
    cases way with
    | undo | redo | restore => exact .pure ()
  | edit i rest ih =>
    obtain ⟨hkeeps, hrest⟩ := ih hn hg fun c hc ↦ ht c (List.mem_cons_of_mem _ hc)
    have hi : ((inner n).call way i).Keeps I := ht (n, i) List.mem_cons_self
    refine ⟨List.forall_mem_cons.2 ⟨hi, hkeeps⟩, ?_⟩
    refine agree_order_append (a := [i]) (b := [(n, i)]) ?_ hrest
    rw [each_order_singleton, each_order_singleton]
    exact hi.agree
  | group i parts rest ihp ihr =>
    obtain ⟨k, rfl⟩ : ∃ k, n = k + 1 := ⟨n - 1, by simp only [Parts.height] at hn; omega⟩
    simp only [Parts.height, Nat.max_le, Nat.add_le_add_iff_right] at hn
    have hparts := ihp hn.1 (fun w hw ↦ (hg w hw).2.1) fun c hc ↦
      ht c (List.mem_append_left _ hc)
    obtain ⟨hkeeps, hrest⟩ := ihr hn.2 (fun w hw ↦ (hg w hw).2.2) fun c hc ↦
      ht c (List.mem_append_right _ hc)
    have hi : ((inner (k + 1)).call way i).Agree
        (Run.each (way.order (parts.calls k)) (callAt way)) I :=
      group_agree_of_row hway (fun w hw ↦ ⟨(hg w hw).1, (hg w hw).2.1, trivial⟩) hparts
    refine ⟨List.forall_mem_cons.2 ⟨hi.keeps, hkeeps⟩, ?_⟩
    refine agree_order_append (a := [i]) (b := parts.calls k) ?_ hrest
    rwa [each_order_singleton]

/-- A group is called as its edits are, one after the other, whatever groups there are among its
parts. -/
theorem group_agree (hway : way ≠ .restore) {t : Parts} (hn : t.height ≤ n)
    (hg : ∀ w, I w → w.Holds (.group i t .nil)) (ht : ∀ c ∈ t.calls n, (callAt way c).Keeps I) :
    ((inner (n + 1)).call way i).Agree (Run.each (way.order (t.calls n)) (callAt way)) I :=
  group_agree_of_row hway hg (row_agree hway hn (fun w hw ↦ (hg w hw).2.1) ht)

end Rows

end Session

end Rewind
