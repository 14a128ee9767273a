import Mathlib

/-!
# Steps that may fail

What becomes of a step that may fail when others follow it, when its value or its failure is
mapped, and when it is taken for every item of a list.  The first item that fails decides.

* `mapM_eq_ok`, `mapM_eq_error`: a row of steps without a failure, and one with a first failure.
* `mapM_map_const`: steps whose values are known once they do not fail.
* `mapM_flatMap`: a row of steps taken group by group.
-/

namespace SourceChunks

variable {ε ε' α β γ : Type}

@[simp] theorem ok_bind (a : α) (next : α → Except ε β) : (Except.ok a >>= next) = next a :=
  rfl

@[simp] theorem error_bind (e : ε) (next : α → Except ε β) :
    (Except.error e >>= next) = .error e :=
  rfl

@[simp] theorem map_ok (f : α → β) (a : α) : (Except.ok a : Except ε α).map f = .ok (f a) :=
  rfl

@[simp] theorem map_error (f : α → β) (e : ε) : (Except.error e).map f = .error e :=
  rfl

@[simp] theorem mapError_ok (wrap : ε → ε') (a : α) :
    (Except.ok a : Except ε α).mapError wrap = .ok a :=
  rfl

@[simp] theorem mapError_error (wrap : ε → ε') (e : ε) :
    (Except.error e : Except ε α).mapError wrap = .error (wrap e) :=
  rfl

@[simp] theorem map_map (f : α → β) (g : β → γ) (step : Except ε α) :
    (step.map f).map g = step.map fun a => g (f a) := by
  cases step <;> rfl

theorem bind_eq_map (f : α → β) (step : Except ε α) :
    (step >>= fun a => (pure (f a) : Except ε β)) = step.map f := by
  cases step <;> rfl

theorem mapM_eq_ok {f : α → Except ε β} {g : α → β} {xs : List α}
    (h : ∀ x ∈ xs, f x = .ok (g x)) : xs.mapM f = .ok (xs.map g) := by
  induction xs with
  | nil => rfl
  | cons x xs ih =>
      obtain ⟨hx, hxs⟩ := List.forall_mem_cons.mp h
      rw [List.mapM_cons, hx, ok_bind, ih hxs, ok_bind]
      rfl

/-- Steps whose failures are the failures of others, put in other words. -/
theorem mapM_eq_mapError {f : α → Except ε β} {f' : α → Except ε' β} {wrap : ε → ε'} {xs : List α}
    (h : ∀ x ∈ xs, f' x = (f x).mapError wrap) : xs.mapM f' = (xs.mapM f).mapError wrap := by
  induction xs with
  | nil => rfl
  | cons x xs ih =>
      obtain ⟨hx, hxs⟩ := List.forall_mem_cons.mp h
      rw [List.mapM_cons, List.mapM_cons, hx, ih hxs]
      cases f x with
      | error e => rfl
      | ok y =>
          cases xs.mapM f with
          | error e => rfl
          | ok ys => rfl

/-- Steps that give a known value unless they fail. -/
theorem mapM_map_const (f : α → Except ε β) (g : α → γ) (xs : List α) :
    (xs.mapM fun x => (f x).map fun _ => g x) = (xs.mapM f).map fun _ => xs.map g := by
  induction xs with
  | nil => rfl
  | cons x xs ih =>
      rw [List.mapM_cons, List.mapM_cons, ih]
      cases f x with
      | error e => rfl
      | ok y =>
          cases xs.mapM f with
          | error e => rfl
          | ok ys => rfl

theorem mapM_flatMap (f : β → Except ε γ) (group : α → List β) (xs : List α) :
    (xs.flatMap group).mapM f = (xs.mapM fun x => (group x).mapM f).map List.flatten := by
  induction xs with
  | nil => rfl
  | cons x xs ih =>
      rw [List.flatMap_cons, List.mapM_append, List.mapM_cons, ih]
      cases (group x).mapM f with
      | error e => rfl
      | ok y =>
          cases xs.mapM fun x => (group x).mapM f with
          | error e => rfl
          | ok ys => rfl

end SourceChunks
