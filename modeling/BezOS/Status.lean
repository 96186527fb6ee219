import Mathlib.Tactic.Common

/-!
# Statuses and faults

The status codes of `bezos/status.h` that the modelled functions return, and the ways a modelled
call can end without returning: `KM_CHECK`, `KM_ASSERT` and `KM_PANIC` all stop in `km::BugCheck`.
-/

namespace BezOS

inductive OsStatus
  | success
  | outOfMemory
  | notFound
  | invalidInput
  | notAvailable
  | completed
  | moreData
  | accessDenied
  | invalidHandle
  | notSupported
  | invalidAddress
  | invalidSpan
  | invalidData
  | alreadyExists
  | traverseNonFolder
  | invalidType
  | invalidPath
  | endOfFile
  | interfaceNotSupported
  | functionNotSupported
  deriving DecidableEq

inductive Fault
  /-- `km::BugCheck`: a failed check, a failed assertion or a panic. -/
  | bugCheck
  /-- An access the language does not define: a null pointer, `end()`, an index out of bounds. -/
  | badAccess
  /-- The bound on a modelled loop was too small; no call of the source ends this way. -/
  | outOfFuel
  /-- A spin lock taken twice by one call. -/
  | deadlock
  /-- A loop of the source that never ends. -/
  | diverges
  deriving DecidableEq

section Except

variable {ε α β : Type} {x : Except ε α}

lemma bind_eq_ok {f : α → Except ε β} {b : β} :
    x >>= f = .ok b ↔ ∃ a, x = .ok a ∧ f a = .ok b := by
  cases x <;> simp [bind, Except.bind]

lemma map_eq_ok {f : α → β} {b : β} : x.map f = .ok b ↔ ∃ a, x = .ok a ∧ f a = b := by
  cases x <;> simp [Except.map]

lemma eq_ok_of_toOption {a : α} (h : x.toOption = some a) : x = .ok a := by
  cases x with
  | error e => cases h
  | ok b => cases h; rfl

end Except

end BezOS
