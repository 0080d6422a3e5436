import Mathlib.Init

/-!
# Computations that may fail

When a computation in `Except` succeeds, and when it fails: a sequence succeeds exactly where both
of its parts do, and fails with the error of the part that is the first to fail. The claims about
rows and menus are taken apart with these facts.
-/

namespace Picklist

variable {ε α β γ : Type}

/-- **A sequence succeeds exactly where both parts do.** -/
theorem bind_eq_ok_iff {first : Except ε α} {next : α → Except ε β} {b : β} :
    first >>= next = .ok b ↔ ∃ a, first = .ok a ∧ next a = .ok b := by
  cases first with
  | error e => simp [bind, Except.bind]
  | ok a => simp [bind, Except.bind]

/-- So does a sequence of steps that ask their surroundings. -/
theorem run_bind_eq_ok_iff {first : ExceptT ε Id α} {next : α → ExceptT ε Id β} {b : β} :
    (first >>= next).run = .ok b ↔ ∃ a, first.run = .ok a ∧ (next a).run = .ok b := by
  have hbind : (first >>= next).run = (first.run >>= fun a => (next a).run : Except ε β) := by
    change ExceptT.bindCont next first.run = _
    cases first.run <;> rfl
  rw [hbind, bind_eq_ok_iff]

/-- A mapped computation succeeds exactly where the computation does. -/
theorem map_eq_ok_iff {first : Except ε α} {f : α → β} {b : β} :
    first.map f = .ok b ↔ ∃ a, first = .ok a ∧ f a = b := by
  cases first with
  | error e => simp [Except.map]
  | ok a => simp [Except.map]

/-- A sequence fails where its first part fails, or where the second fails after it. -/
theorem bind_eq_error_iff {first : Except ε α} {next : α → Except ε β} {e : ε} :
    first >>= next = .error e ↔ first = .error e ∨ ∃ a, first = .ok a ∧ next a = .error e := by
  cases first with
  | error e => simp [bind, Except.bind]
  | ok a => simp [bind, Except.bind]

/-- What is made of a result adds no failure. -/
theorem bind_pure_eq_error_iff {first : Except ε α} {f : α → β} {e : ε} :
    (first >>= fun a => pure (f a)) = .error e ↔ first = .error e := by
  cases first with
  | error e => simp [bind, Except.bind]
  | ok a => simp [bind, Except.bind, pure, Except.pure]

/-- **Of two computations the first to fail decides the error.** The second one is reached only
    where the first succeeds. -/
theorem bind_bind_pure_eq_error_iff {first : Except ε α} {second : Except ε β} {f : α → β → γ}
    {e : ε} :
    (first >>= fun a => second >>= fun b => pure (f a b)) = .error e ↔
      first = .error e ∨ (∃ a, first = .ok a) ∧ second = .error e := by
  rw [bind_eq_error_iff]
  simp only [bind_pure_eq_error_iff, exists_and_right]

/-- A mapped computation fails exactly where the computation does. -/
theorem map_eq_error_iff {first : Except ε α} {f : α → β} {e : ε} :
    first.map f = .error e ↔ first = .error e := by
  cases first with
  | error e => simp [Except.map]
  | ok a => simp [Except.map]

/-- What must be there is the result where it is there. -/
theorem elim_error_eq_ok_iff {found : Option α} {missing : ε} {a : α} :
    found.elim (.error missing) .ok = (.ok a : Except ε α) ↔ found = some a := by
  cases found with
  | none => simp
  | some held => simp

/-- Where it is not there, that is the failure. -/
theorem elim_error_eq_error_iff {found : Option α} {missing e : ε} :
    found.elim (.error missing) .ok = (.error e : Except ε α) ↔ found = none ∧ e = missing := by
  cases found with
  | none => simp [eq_comm]
  | some held => simp

/-- A computation that never fails succeeds. -/
theorem exists_ok_iff {computation : Except ε α} :
    (∃ a, computation = .ok a) ↔ ∀ e, computation ≠ .error e := by
  cases computation with
  | error e => simp
  | ok a => simp

end Picklist
