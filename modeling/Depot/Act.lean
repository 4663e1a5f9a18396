import Depot.Error

/-!
Computations that may fail in the middle. `Act σ α` works on a state and ends with a value or an
error; what it did to the state before an error stays done.
-/
namespace Depot

/-- A computation on a state of type `σ`. -/
def Act (σ α : Type) : Type :=
  σ → Except Error α × σ

namespace Act

variable {σ τ α β : Type}

instance : Monad (Act σ) where
  pure a := fun s => (.ok a, s)
  bind x f := fun s =>
    match x s with
    | (.ok a, s) => f a s
    | (.error e, s) => (.error e, s)

def fail (e : Error) : Act σ α :=
  fun s => (.error e, s)

def state : Act σ σ :=
  fun s => (.ok s, s)

def modify (f : σ → σ) : Act σ Unit :=
  fun s => (.ok (), f s)

/-- Ends as a finished result says. -/
def ofExcept (r : Except Error α) : Act σ α :=
  fun s => (r, s)

/-- The result of a computation, as a value when it is an error too. -/
def attempt (x : Act σ α) : Act σ (Except Error α) :=
  fun s => match x s with | (r, s) => (.ok r, s)

/-- Runs a computation on a part of the state. -/
def within (get : τ → σ) (set : σ → τ → τ) (x : Act σ α) : Act τ α :=
  fun t => match x (get t) with | (r, s) => (r, set s t)

@[simp] theorem pure_apply (a : α) (s : σ) : (pure a : Act σ α) s = (.ok a, s) := rfl

theorem bind_apply (x : Act σ α) (f : α → Act σ β) (s : σ) :
    (x >>= f) s = match x s with
      | (.ok a, s) => f a s
      | (.error e, s) => (.error e, s) := rfl

theorem bind_of_ok {x : Act σ α} {f : α → Act σ β} {s s' : σ} {a : α} (h : x s = (.ok a, s')) :
    (x >>= f) s = f a s' := by
  rw [bind_apply, h]

theorem bind_of_error {x : Act σ α} {f : α → Act σ β} {s s' : σ} {e : Error}
    (h : x s = (.error e, s')) : (x >>= f) s = (.error e, s') := by
  rw [bind_apply, h]

/-- A computation whose value is only converted ends as it does without that. -/
theorem bind_pure_of {x : Act σ α} {s s' : σ} {r : Except Error α} (g : α → β) (h : x s = (r, s')) :
    (x >>= fun a => pure (g a)) s = (r.map g, s') := by
  rw [bind_apply, h]
  cases r <;> rfl

theorem bind_of_fst_ok {x : Act σ α} {f : α → Act σ β} {s : σ} {b : β} (h : ((x >>= f) s).1 = .ok b) :
    ∃ a s', x s = (.ok a, s') ∧ (x >>= f) s = f a s' := by
  rw [bind_apply] at h
  cases hx : x s with
  | mk r s' =>
    rw [hx] at h
    cases r with
    | error e => cases h
    | ok a => exact ⟨a, s', rfl, bind_of_ok hx⟩

theorem bind_eq_ok {x : Act σ α} {f : α → Act σ β} {s t : σ} {b : β} :
    (x >>= f) s = (.ok b, t) ↔ ∃ a s', x s = (.ok a, s') ∧ f a s' = (.ok b, t) := by
  constructor
  · intro h
    obtain ⟨a, s', hx, hf⟩ := bind_of_fst_ok (congrArg Prod.fst h)
    exact ⟨a, s', hx, hf.symm.trans h⟩
  · rintro ⟨a, s', hx, hf⟩
    exact (bind_of_ok hx).trans hf

theorem attempt_apply (x : Act σ α) (s : σ) : attempt x s = (.ok (x s).1, (x s).2) := rfl

@[simp] theorem fail_apply (e : Error) (s : σ) : (fail e : Act σ α) s = (.error e, s) := rfl

theorem ofExcept_eq_ok {r : Except Error α} {a : α} {s t : σ} :
    (ofExcept r : Act σ α) s = (.ok a, t) ↔ r = .ok a ∧ s = t :=
  ⟨Prod.mk.inj, fun ⟨hr, hs⟩ => Prod.ext hr hs⟩

theorem ofExcept_ok_bind (a : α) (f : α → Act σ β) : (ofExcept (.ok a) >>= f) = f a := rfl

theorem ofExcept_error_bind (e : Error) (f : α → Act σ β) : (ofExcept (.error e) >>= f) = fail e := rfl

instance : LawfulMonad (Act σ) := .mk' (Act σ)
  (fun x => by
    funext s
    show (match x s with | (.ok a, s) => (.ok a, s) | (.error e, s) => (.error e, s)) = x s
    cases x s with
    | mk r s => cases r <;> rfl)
  (fun _ _ => rfl)
  fun x f g => by
    funext s
    simp only [bind_apply]
    cases x s with
    | mk r s => cases r <;> rfl

end Act
end Depot
