import Diamond.Lib.Cleanup

/-!
# Unwind handlers

Model of the handler stack of one interpreter frame: `UnwindHandler`, `PendingUnwind`,
`pop_unwind_handler`, `enter_ensure` and `unwind_for_jump` in `src/vm_internal.h`, `catch_exception`
in `src/vm_exceptions.c`, and the loop with which `RETURN`, `END_ENSURE` and `nonlocal_exit_arrives`
look for the next ensure body.

Values are of any type.  Every exit has a number, every ensure handler the number of its `begin`,
and what happens to them is written to a log: these are for the statements only, no function reads
them.
-/

namespace Diamond.Unwind

open Cleanup (Event)

variable {V : Type}

inductive HandlerKind
  | rescue
  | ensure
  | activeEnsure
  deriving DecidableEq, Repr

/-- What a `PendingUnwind` other than `PENDING_NONE` asks for. -/
inductive Outcome (V : Type)
  | normal (continuation : ℕ)
  | jump (continuation levels : ℕ)
  | ret (value : V)
  | exception (value : V)
  | nonlocal (value : V) (target : ℕ) (isBreak : Bool)
  deriving DecidableEq, Repr

structure Exit (V : Type) where
  outcome : Outcome V
  number : ℕ
  deriving DecidableEq, Repr

abbrev PendingUnwind (V : Type) := Option (Exit V)

structure UnwindHandler (V : Type) where
  kind : HandlerKind
  target : ℕ
  types : List ℕ
  enabled : Bool
  savedPending : PendingUnwind V
  cleanup : ℕ
  deriving DecidableEq, Repr

/-- The handlers of a frame, topmost first, its pending exit, and the log. -/
structure Unwinder (V : Type) where
  handlers : List (UnwindHandler V)
  pending : PendingUnwind V
  log : List Event
  deriving DecidableEq, Repr

/-- `pop_unwind_handler` drops the pending exit of an active ensure when another one leaves it. -/
def replacePending (pending : PendingUnwind V) (number : ℕ) (log : List Event) : List Event :=
  match pending with
  | some exit => .replaced exit.number number :: log
  | none => log

/-- `enter_ensure` on the topmost handler, and where its body is. -/
def enterEnsure (handler : UnwindHandler V) (rest : List (UnwindHandler V))
    (pending : PendingUnwind V) (log : List Event) (next : Exit V) : Unwinder V × ℕ :=
  (⟨{ handler with kind := .activeEnsure, savedPending := pending } :: rest, some next,
    .ran handler.cleanup next.number :: log⟩, handler.target)

/-- Pops handlers until an ensure that has not run is on top. -/
def discardToEnsure (number : ℕ) :
    List (UnwindHandler V) → PendingUnwind V → List Event → Unwinder V
  | [], pending, log => ⟨[], pending, log⟩
  | handler :: rest, pending, log =>
    match handler.kind with
    | .ensure => ⟨handler :: rest, pending, log⟩
    | .rescue => discardToEnsure number rest pending log
    | .activeEnsure =>
      discardToEnsure number rest handler.savedPending (replacePending pending number log)

/-- `catch_exception`: the handlers afterwards, and where to go on if it was caught. -/
def catchException (matchesType : V → ℕ → Bool) (value : V) (number : ℕ) :
    List (UnwindHandler V) → PendingUnwind V → List Event → Unwinder V × Option ℕ
  | [], pending, log => (⟨[], pending, log⟩, none)
  | handler :: rest, pending, log =>
    match handler.kind with
    | .ensure =>
      let entered := enterEnsure handler rest pending log ⟨.exception value, number⟩
      (entered.1, some entered.2)
    | .activeEnsure =>
      catchException matchesType value number rest handler.savedPending
        (replacePending pending number log)
    | .rescue =>
      if handler.enabled ∧ (handler.types = [] ∨ handler.types.any (matchesType value)) then
        (⟨rest, pending, .took number :: log⟩, some handler.target)
      else
        catchException matchesType value number rest pending log

/-- `unwind_for_jump`; `none` on an inconsistent handler stack. -/
def unwindForJump (number target : ℕ) :
    ℕ → List (UnwindHandler V) → PendingUnwind V → List Event → Option (Unwinder V × ℕ)
  | 0, handlers, pending, log => some (⟨handlers, pending, .took number :: log⟩, target)
  | _ + 1, [], _, _ => none
  | levels + 1, handler :: rest, pending, log =>
    match handler.kind with
    | .rescue => unwindForJump number target (levels + 1) rest pending log
    | .activeEnsure =>
      unwindForJump number target levels rest handler.savedPending
        (replacePending pending number log)
    | .ensure => some (enterEnsure handler rest pending log ⟨.jump target levels, number⟩)

end Diamond.Unwind
