/-!
# Attempts

A computation that changes a state and may fail. What it did to the state before it failed stays.
-/

namespace Logicless

def Attempt (S E α : Type) : Type :=
  S → Except E α × S

namespace Attempt

variable {S E α β : Type}

def pure (a : α) : Attempt S E α :=
  fun s => (.ok a, s)

def bind (x : Attempt S E α) (f : α → Attempt S E β) : Attempt S E β :=
  fun s => match x s with
    | (.ok a, s) => f a s
    | (.error e, s) => (.error e, s)

instance : Monad (Attempt S E) where
  pure := pure
  bind := bind

def fail (e : E) : Attempt S E α :=
  fun s => (.error e, s)

def state : Attempt S E S :=
  fun s => (.ok s, s)

def update (f : S → S) : Attempt S E Unit :=
  fun s => (.ok (), f s)

def ofExcept (r : Except E α) : Attempt S E α :=
  fun s => (r, s)

/-- What `after` does to the state is done whether the attempt succeeds or not. -/
def ensuring (x : Attempt S E α) (after : S → S) : Attempt S E α :=
  fun s => match x s with
    | (r, s) => (r, after s)

theorem pure_apply (a : α) (s : S) : (Pure.pure a : Attempt S E α) s = (.ok a, s) := rfl

theorem bind_apply (x : Attempt S E α) (f : α → Attempt S E β) (s : S) :
    (x >>= f) s = match x s with
      | (.ok a, s) => f a s
      | (.error e, s) => (.error e, s) := rfl

theorem bind_of_ok {x : Attempt S E α} {f : α → Attempt S E β} {s t : S} {a : α}
    (h : x s = (.ok a, t)) : (x >>= f) s = f a t := by
  rw [bind_apply, h]

theorem bind_of_error {x : Attempt S E α} {f : α → Attempt S E β} {s t : S} {e : E}
    (h : x s = (.error e, t)) : (x >>= f) s = (.error e, t) := by
  rw [bind_apply, h]

theorem ensuring_apply (x : Attempt S E α) (after : S → S) (s : S) :
    ensuring x after s = ((x s).1, after (x s).2) := rfl

instance : LawfulMonad (Attempt S E) := LawfulMonad.mk' (Attempt S E)
  (fun x => funext fun s => by
    show (match x s with | (.ok a, s) => _ | (.error e, s) => _) = x s
    rcases x s with ⟨_ | _, _⟩ <;> rfl)
  (fun _ _ => rfl)
  (fun x f g => funext fun s => by
    simp only [bind_apply]
    rcases x s with ⟨_ | _, _⟩ <;> rfl)

end Attempt

end Logicless
