import Diamond.Unwind.Safety

/-!
# Callbacks in a database transaction

Model of `Transaction.run` and `run_nested` in `packages/active_record/lib/active_record/transaction.d6`
and of `Repo#transaction` in `packages/mjolnir/lib/mjolnir/repo.d6`.

The wrappers are function bodies of the unwinding model: their code is what the compiler emits for
them, and the interpreter runs it, handlers and all.  What the interpreter's model leaves to a choice
is decided here by the two registers a wrapper has, the callback's result and the rescued value, and
by whether the database accepts a statement; one that it refuses raises.  The callback is seen where
it leaves: its frame is gone, and its value or its exit has reached the wrapper.
-/

namespace Diamond.Transactions

open Unwind

variable {V : Type}

inductive Statement
  | begin
  | beginImmediate
  | commit
  | rollback
  | savepoint (name : String)
  | release (name : String)
  | rollbackTo (name : String)
  deriving DecidableEq, Repr

/-- What a branch of a wrapper tests: that of a rescue clause is taken for a StandardError, that of
`if result is Err` for anything but an Err. -/
inductive Test
  | standardError
  | notErr
  deriving DecidableEq, Repr

/-- A wrapper: its body, where in its code it calls the callback and executes statements, and what its
branches test. -/
structure Wrapper where
  function : FunctionBody
  callback : ℕ
  statements : List (ℕ × Statement)
  tests : List (ℕ × Test)

/-- `begin; callback(); success; rescue error: StandardError; failure; raise error; end`, after
`opening`. -/
def runBetween (opening success failure : Statement) : Wrapper where
  function :=
    { inBlock := false
      body := .seq (.other false) (.begin (.seq (.other true) (.other false))
        (.typed 1 (.seq (.other false) .raise) .reraise) .skip .skip)
      accepted := rfl }
  callback := 3
  statements := [(0, opening), (4, success), (10, failure)]
  tests := [(8, .standardError)]

/-- `Transaction.run` -/
def transactionRun : Wrapper := runBetween .begin .commit .rollback

/-- `Transaction.run_nested`, once the name has been checked. -/
def transactionRunNested (name : String) : Wrapper :=
  runBetween (.savepoint name) (.release name) (.rollbackTo name)

/-- `Repo#transaction`; the first instruction finds the dialect. -/
def repoTransaction (sqlite : Bool) : Wrapper where
  function :=
    { inBlock := false
      body := .seq (.other false) (.seq (.other false) (.begin
        (.seq (.other true) (.seq (.other false) (.ite (.other false) (.other false))))
        (.typed 1 (.seq (.other false) .raise) .reraise) .skip .skip))
      accepted := rfl }
  callback := 4
  statements := [(1, if sqlite then .beginImmediate else .begin), (7, .rollback), (9, .commit),
    (15, .rollback)]
  tests := [(6, .notErr), (13, .standardError)]

/-! ## Running a wrapper -/

/-- What the wrapper's surroundings decide: the classes of values, which statements the database
accepts, and the error it raises for one that it refuses. -/
structure Environment (V : Type) where
  isStandardError : V → Bool
  isErr : V → Bool
  accepts : Statement → Bool
  refusal : V

inductive Leave (V : Type)
  | value (result : V)
  | raised (error : V)
  | nonlocal (value : V) (target : ℕ) (isBreak : Bool)

/-- The interpreter in a wrapper: its two registers, and the statements that were accepted. -/
structure Running (V : Type) where
  vm : DiamondVm V
  result : V
  error : V
  executed : List Statement

/-- An exit of the callback has reached the frame that called it. -/
def Running.leave (r : Running V) (outcome : Outcome V) : Running V :=
  { r with vm := { r.vm.start with leaving := some ⟨outcome, r.vm.clock⟩ } }

def Running.callback (P : Program V) (r : Running V) : Leave V → Option (Running V)
  | .value result => (r.vm.step P (.next result)).map fun vm => { r with vm, result }
  | .raised error => some (r.leave (.exception error))
  | .nonlocal value target isBreak => some (r.leave (.nonlocal value target isBreak))

def Running.choice (env : Environment V) (w : Wrapper) (r : Running V) (ip : ℕ) : Choice V :=
  match w.tests.lookup ip with
  | some .standardError => if env.isStandardError r.error then .taken else .next r.error
  | some .notErr => if env.isErr r.result then .next r.result else .taken
  | none => .next r.error

def Running.step (env : Environment V) (w : Wrapper) (P : Program V) (leave : Leave V)
    (r : Running V) : Option (Running V) :=
  match r.vm.leaving, r.vm.frames with
  | some exit, _ =>
    -- `catch_exception` puts the exception into the register of the clause.
    let error := match exit.outcome with
      | .exception value => value
      | _ => r.error
    (r.vm.step P (.next env.refusal)).map fun vm => { r with vm, error }
  | none, frame :: _ =>
    if frame.ip = w.callback then r.callback P leave
    else
      match w.statements.lookup frame.ip with
      | some statement =>
        if env.accepts statement then
          (r.vm.step P (.next r.result)).map fun vm =>
            { r with vm, executed := r.executed ++ [statement] }
        else
          (r.vm.step P (.fail env.refusal)).map fun vm => { r with vm, error := env.refusal }
      | none => (r.vm.step P (r.choice env w frame.ip)).map fun vm => { r with vm }
  | none, [] => none

def Running.run (env : Environment V) (w : Wrapper) (P : Program V) (leave : Leave V)
    (depth : ℕ) : ℕ → Running V → Option (Running V)
  | 0, _ => none
  | fuel + 1, r =>
    if r.vm.frames.length ≤ depth then some r
    else (r.step env w P leave).bind fun r => r.run env w P leave depth fuel

def Wrapper.program (w : Wrapper) (matchesType : V → ℕ → Bool) : Program V :=
  programOf [w.function] matchesType

/-- A wrapper is called by the frames `callers`; the number of its frame is `serial`. -/
def Wrapper.call (w : Wrapper) (env : Environment V) (matchesType : V → ℕ → Bool) (leave : Leave V)
    (callers : List (DiamondFrame V)) (serial : ℕ) (nil : V) (fuel : ℕ) : Option (Running V) :=
  Running.run env w (w.program matchesType) leave callers.length fuel
    ⟨⟨⟨0, 0, [], none, serial, none, none, none⟩ :: callers, none, false, [], serial + 1⟩, nil, nil,
      []⟩

end Diamond.Transactions
