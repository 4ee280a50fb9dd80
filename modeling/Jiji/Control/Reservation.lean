import Mathlib

/-!
# Reservations

Several writers of one table look at an entry first and write it later.  Between the two
a writer has a reservation: the value that it is about to write at a key.  A table is
coherent with the reservations if every entry that a reservation is about has the value
that will be written over it, so that no write changes the value of an entry.
-/

namespace Control

variable {κ α : Type*}

/-- Every entry that is about to be written over has the value that will be written. -/
def Coherent (reserved : κ → α → Prop) (table : κ → Option α) : Prop :=
  ∀ key value, reserved key value → ∀ current, table key = some current → current = value

namespace Coherent

variable {reserved remaining : κ → α → Prop} {table next : κ → Option α}

/-- Fewer reservations are about fewer entries. -/
theorem mono
    (coherent : Coherent reserved table)
    (fewer : ∀ key value, remaining key value → reserved key value) :
    Coherent remaining table := by
  intro key value reservation
  exact coherent key value (fewer key value reservation)

/-- A writer that has looked at an entry reserves what it has found, or anything if it has
found nothing. -/
theorem reserve
    (coherent : Coherent reserved table)
    (looked : ∀ current, table target = some current → current = pending)
    (added : ∀ key value, remaining key value →
      reserved key value ∨ key = target ∧ value = pending) :
    Coherent remaining table := by
  intro key value reservation
  cases added key value reservation with
  | inl earlier => exact coherent key value earlier
  | inr new =>
      rw [new.1, new.2]
      exact looked

/-- A write agrees with the reservations that remain if they are about the same value. -/
theorem write
    (coherent : Coherent reserved table)
    (fewer : ∀ key value, remaining key value → reserved key value)
    (agreed : ∀ value, remaining target value → value = written)
    (stored : next target = some written)
    (others : ∀ key, key ≠ target → next key = table key) :
    Coherent remaining next := by
  intro key value reservation current found
  by_cases same : key = target
  · subst same
    rw [stored] at found
    rw [agreed value reservation]
    exact (Option.some.inj found).symm
  · rw [others key same] at found
    exact coherent key value (fewer key value reservation) current found

/-- An entry that is removed agrees with every reservation. -/
theorem erase
    (coherent : Coherent reserved table)
    (fewer : ∀ key value, remaining key value → reserved key value)
    (erased : next target = none)
    (others : ∀ key, key ≠ target → next key = table key) :
    Coherent remaining next := by
  intro key value reservation current found
  by_cases same : key = target
  · subst same
    rw [erased] at found
    cases found
  · rw [others key same] at found
    exact coherent key value (fewer key value reservation) current found

end Coherent

end Control
