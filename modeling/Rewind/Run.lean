import Rewind.Fault

namespace Rewind

/-- How a computation ends. A fault keeps the changes made before it. A computation that nests too
deep has no end. -/
inductive Outcome (σ α : Type) where
  | returned (value : α) (state : σ)
  | raised (fault : Fault) (state : σ)
  | exhausted

/-- A computation over a state of type `σ`. -/
def Run (σ α : Type) : Type := σ → Outcome σ α

namespace Run

variable {σ α β : Type}

@[always_inline, inline]
def pure (a : α) : Run σ α := fun s ↦ .returned a s

@[always_inline, inline]
def bind (m : Run σ α) (f : α → Run σ β) : Run σ β := fun s ↦
  match m s with
  | .returned a s => f a s
  | .raised e s => .raised e s
  | .exhausted => .exhausted

@[always_inline]
instance : Monad (Run σ) where
  pure := pure
  bind := bind

theorem bind_returned {m : Run σ α} {f : α → Run σ β} {s t : σ} {a : α}
    (h : m s = .returned a t) : (m >>= f) s = f a t := by
  show bind m f s = f a t
  simp only [bind, h]

theorem bind_raised {m : Run σ α} {f : α → Run σ β} {s t : σ} {e : Fault}
    (h : m s = .raised e t) : (m >>= f) s = .raised e t := by
  show bind m f s = .raised e t
  simp only [bind, h]

theorem bind_exhausted {m : Run σ α} {f : α → Run σ β} {s : σ}
    (h : m s = .exhausted) : (m >>= f) s = .exhausted := by
  show bind m f s = .exhausted
  simp only [bind, h]

instance : LawfulMonad (Run σ) :=
  LawfulMonad.mk' (Run σ)
    (fun m ↦ by
      funext s
      show bind m pure s = m s
      unfold bind
      cases m s <;> rfl)
    (fun _ _ ↦ rfl)
    (fun m f g ↦ by
      funext s
      show bind (bind m f) g s = bind m (fun a ↦ bind (f a) g) s
      unfold bind
      cases m s <;> rfl)

@[always_inline, inline]
def get : Run σ σ := fun s ↦ .returned s s

@[always_inline, inline]
def modify (f : σ → σ) : Run σ Unit := fun s ↦ .returned () (f s)

@[always_inline, inline]
def raise (e : Fault) : Run σ α := fun s ↦ .raised e s

def exhausted : Run σ α := fun _ ↦ .exhausted

@[inline]
def lift : Except Fault α → Run σ α
  | .ok a => pure a
  | .error e => raise e

/-- Reads something off the state, which may fail but changes nothing. -/
@[always_inline, inline]
def ask (f : σ → Except Fault α) : Run σ α := fun s ↦ lift (f s) s

theorem bind_ask {v : σ → Except Fault α} {f : α → Run σ β} {s : σ} {a : α} (h : v s = .ok a) :
    (ask v >>= f) s = f a s := by
  have ha : ask v s = .returned a s := by
    rw [ask, h]
    rfl
  exact bind_returned ha

/-- Runs `m`, and `f` after it in either case. -/
def ensuring (m : Run σ α) (f : σ → σ) : Run σ α := fun s ↦
  match m s with
  | .returned a s => .returned a (f s)
  | .raised e s => .raised e (f s)
  | .exhausted => .exhausted

/-- Runs `m`, and `handle` if it fails. -/
def recover (m : Run σ α) (handle : Fault → Run σ α) : Run σ α := fun s ↦
  match m s with
  | .returned a s => .returned a s
  | .raised e s => handle e s
  | .exhausted => .exhausted

/-- Runs the computation for each of the values in turn. -/
def each (xs : List α) (f : α → Run σ Unit) : Run σ Unit :=
  match xs with
  | [] => pure ()
  | x :: xs => bind (f x) fun _ ↦ each xs f

theorem each_append (xs ys : List α) (f : α → Run σ Unit) :
    each (xs ++ ys) f = each xs f >>= fun _ ↦ each ys f := by
  induction xs with
  | nil => rfl
  | cons x xs ih =>
    show f x >>= (fun _ ↦ each (xs ++ ys) f) = (f x >>= fun _ ↦ each xs f) >>= fun _ ↦ each ys f
    rw [ih, bind_assoc]

end Run

end Rewind
