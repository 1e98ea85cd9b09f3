import Diamond.Lib.Transition
import Mathlib.Algebra.Order.Ring.Int

/-!
# Supervised children

The restart loop of a supervised child (`supervisor_child_entry_trampoline`) and the calls of the
thread that owns the supervisor: `add_child`, `restart_policy`, `stop`, `join` and the release of
the last handle.  A step is one critical section of the supervisor's lock, or one access to the
atomic `stop_requested`; the steps of the children and of the owner interleave in any order.

A supervisor cannot be sent to another thread, so it has one owner.  Times are read from the
monotonic clock and are parameters of the steps that read them.
-/

namespace Diamond.Supervisor

inductive Strategy
  | oneForOne
  | oneForAll
  | restForOne
  deriving DecidableEq, Repr

/-- Where a child's thread stands between two steps. -/
inductive Point
  /-- Counted in `child_count`; its thread does not run yet. -/
  | created
  /-- Before the section at the top of the loop. -/
  | loopTop
  /-- The attempt's VM is being set up. -/
  | preparing
  | running (startedNs : ℤ)
  /-- The attempt failed and is recorded; `stop_requested` is about to be read. -/
  | ended (interruptedBySibling : Bool) (restartDelayMs : ℤ)
  | pausing (restartDelayMs : ℤ)
  /-- `stop_requested` was seen; the child is about to be marked as done. -/
  | stopping
  | finished
  deriving DecidableEq, Repr

/-- The VM of an attempt: whether its dispatch loop looks at the interrupt flag. -/
structure DiamondVm where
  resourceLimitsActive : Bool
  deriving DecidableEq, Repr

structure DiamondSupervisorChild where
  point : Point
  interrupt : Bool
  runningVm : Option DiamondVm
  done : Bool
  restartCount : ℕ
  lastError : String
  consecutiveCrashes : ℕ
  deriving DecidableEq, Repr

structure DiamondSupervisor where
  stopRequested : Bool
  children : ℕ → DiamondSupervisorChild
  childCount : ℕ
  stopped : Bool
  stopForced : Bool
  strategy : Strategy
  maxRestarts : ℤ
  withinMs : ℤ
  backoffMs : ℤ
  maxBackoffMs : ℤ
  crashTimesNs : List ℤ
  failed : Bool
  failureMessage : String

/-- A slot of the zeroed `children` array, as `add_child` fills it in. -/
def freshChild : DiamondSupervisorChild where
  point := .created
  interrupt := false
  runningVm := none
  done := false
  restartCount := 0
  lastError := ""
  consecutiveCrashes := 0

/-- `Supervisor.new`. -/
def supervisorNew (strategy : Strategy) : DiamondSupervisor where
  stopRequested := false
  children := fun _ => freshChild
  childCount := 0
  stopped := false
  stopForced := false
  strategy := strategy
  maxRestarts := -1
  withinMs := 5000
  backoffMs := 20
  maxBackoffMs := 20
  crashTimesNs := []
  failed := false
  failureMessage := ""

/-! ## Interrupts -/

def supervisorInterruptChild (child : DiamondSupervisorChild) : DiamondSupervisorChild :=
  { child with
    runningVm := child.runningVm.map fun _ => ⟨true⟩
    interrupt := true }

/-- Interrupts the children of the array that `reached` picks and that are not done. -/
def interruptWhere (s : DiamondSupervisor) (reached : ℕ → Prop) [DecidablePred reached] :
    DiamondSupervisor :=
  { s with
    children := fun other =>
      if other < s.childCount ∧ reached other ∧ (s.children other).done = false then
        supervisorInterruptChild (s.children other)
      else s.children other }

/-- The first index that a crash of child `index` reaches (`interrupt_strategy_siblings`). -/
def firstReached (strategy : Strategy) (index : ℕ) : ℕ :=
  if strategy = .oneForAll then 0 else index + 1

def interruptStrategySiblings (s : DiamondSupervisor) (index : ℕ) : DiamondSupervisor :=
  interruptWhere s fun other => firstReached s.strategy index ≤ other ∧ other ≠ index

/-! ## The end of a failed attempt -/

/-- How an attempt failed: `vm->error` for the statuses that are neither an interruption nor an
uncaught exception, with the status name that stands in when it is empty. -/
inductive Failure
  | interrupted
  | exception (message : String)
  | internal (error : String) (statusName : String)
  deriving DecidableEq, Repr

def intensityExceeded : String := "stopped: the supervisor's restart intensity was exceeded"

def recordAttemptFailure (s : DiamondSupervisor) (child : DiamondSupervisorChild) :
    Failure → DiamondSupervisorChild
  | .interrupted =>
    if s.failed then
      { child with lastError := intensityExceeded }
    else if s.stopForced then
      { child with lastError := "stopped: Supervisor#stop timed out" }
    else
      { child with
        restartCount := child.restartCount + 1
        lastError := "restarted: a sibling crashed" }
  | .exception message =>
    { child with restartCount := child.restartCount + 1, lastError := message }
  | .internal error statusName =>
    { child with
      restartCount := child.restartCount + 1
      lastError := if error ≠ "" then error else statusName }

/-- The supervisor with its slot `index` replaced. -/
def DiamondSupervisor.setChild (s : DiamondSupervisor) (index : ℕ)
    (child : DiamondSupervisorChild) : DiamondSupervisor :=
  { s with children := Function.update s.children index child }

/-- The part of `count_crash_against_intensity` that gives up: the crash of child `index` is not
followed by a restart, and every other child is interrupted. -/
def giveUp (s : DiamondSupervisor) (index : ℕ) : DiamondSupervisor :=
  let child := s.children index
  let counted := { s with
    failed := true
    failureMessage := "supervisor gave up: more than " ++ toString s.maxRestarts ++
      " crashes within " ++ toString s.withinMs ++ " ms (last error: " ++ child.lastError ++ ")"
    stopRequested := true }
  interruptWhere (counted.setChild index { child with restartCount := child.restartCount - 1 })
    fun other => other ≠ index

def countCrashAgainstIntensity (s : DiamondSupervisor) (index : ℕ) (nowNs : ℤ) :
    DiamondSupervisor :=
  if s.maxRestarts < 0 ∨ s.failed = true ∨ s.stopRequested = true then s
  else
    let times := s.crashTimesNs.filter (fun time => nowNs - time ≤ s.withinMs * 1000000) ++ [nowNs]
    let counted := { s with crashTimesNs := times }
    if (times.length : ℤ) > s.maxRestarts then giveUp counted index else counted

/-- The loop of `crash_restart_delay_ms` that doubles the delay, at most `doublings` times. -/
def doubleDelay (maxBackoffMs : ℤ) : ℕ → ℤ → ℤ
  | 0, delay => delay
  | doublings + 1, delay =>
    if delay < maxBackoffMs then doubleDelay maxBackoffMs doublings (delay * 2) else delay

/-- The crashes in a row with the one at `nowNs` of an attempt that began at `startedNs`. -/
def crashesInARow (s : DiamondSupervisor) (child : DiamondSupervisorChild)
    (startedNs nowNs : ℤ) : ℕ :=
  if (nowNs - startedNs).tdiv 1000000 > s.maxBackoffMs then 1 else child.consecutiveCrashes + 1

/-- The delay of `crash_restart_delay_ms` after so many crashes in a row. -/
def restartDelayMs (s : DiamondSupervisor) (crashes : ℕ) : ℤ :=
  min (doubleDelay s.maxBackoffMs (crashes - 1) s.backoffMs) s.maxBackoffMs

/-- `crash_restart_delay_ms`, with the delay left in the child's point. -/
def crashRestartDelay (s : DiamondSupervisor) (index : ℕ) (startedNs nowNs : ℤ) :
    DiamondSupervisor :=
  let child := s.children index
  let crashes := crashesInARow s child startedNs nowNs
  countCrashAgainstIntensity
    (s.setChild index
      { child with consecutiveCrashes := crashes, point := .ended false (restartDelayMs s crashes) })
    index nowNs

/-- The section of the loop after an attempt that failed. -/
def endAttempt (s : DiamondSupervisor) (index : ℕ) (startedNs nowNs : ℤ) (failure : Failure) :
    DiamondSupervisor :=
  let child := { s.children index with runningVm := none }
  let recorded := recordAttemptFailure s child failure
  match failure with
  | .interrupted => s.setChild index { recorded with point := .ended true s.backoffMs }
  | .exception _ | .internal _ _ =>
    let crashed := crashRestartDelay (s.setChild index recorded) index startedNs nowNs
    if crashed.failed = false ∧ crashed.strategy ≠ .oneForOne ∧ crashed.stopRequested = false then
      interruptStrategySiblings crashed index
    else crashed

/-! ## The loop of a child -/

/-- The section at the top of the loop: an attempt begins, with its interrupt flag cleared, unless
the supervisor gave up.  Nothing here reads `stop_requested`. -/
def loopTopSection (s : DiamondSupervisor) (child : DiamondSupervisorChild) :
    DiamondSupervisorChild :=
  if s.failed then
    { child with lastError := intensityExceeded, done := true, point := .finished }
  else { child with interrupt := false, point := .preparing }

/-- The end of the set-up (`prepare_supervised_attempt` and the section that publishes the VM). -/
def publishSection (s : DiamondSupervisor) (child : DiamondSupervisorChild) (nowNs : ℤ) :
    DiamondSupervisorChild :=
  { child with
    runningVm := some
      ⟨decide (s.strategy ≠ .oneForOne ∨ s.maxRestarts ≥ 0) || s.stopForced⟩
    point := .running nowNs }

inductive Move
  | enter
  | outOfMemory
  | publish (nowNs : ℤ)
  | succeed
  | fail (failure : Failure) (nowNs : ℤ)
  | check
  | wake
  | quit
  deriving DecidableEq, Repr

/-- One step of the thread of child `index`. -/
def childStep (s : DiamondSupervisor) (index : ℕ) (move : Move) : Option DiamondSupervisor :=
  let child := s.children index
  match child.point, move with
  | .loopTop, .enter => some (s.setChild index (loopTopSection s child))
  | .preparing, .outOfMemory =>
    some (s.setChild index { child with
      lastError := "out of memory allocating supervised run state"
      done := true
      point := .finished })
  | .preparing, .publish nowNs => some (s.setChild index (publishSection s child nowNs))
  | .running _, .succeed =>
    some (s.setChild index { child with runningVm := none, done := true, point := .finished })
  | .running startedNs, .fail failure nowNs => some (endAttempt s index startedNs nowNs failure)
  | .ended interruptedBySibling delay, .check =>
    some (s.setChild index { child with
      point := if s.stopRequested then .stopping
        else if interruptedBySibling then .loopTop else .pausing delay })
  | .pausing _, .wake =>
    some (s.setChild index { child with point := if s.stopRequested then .stopping else .loopTop })
  | .stopping, .quit => some (s.setChild index { child with done := true, point := .finished })
  | _, _ => none

/-! ## The owner -/

inductive Owner
  | idle
  /-- `add_child` found the supervisor neither stopped nor failed, nor full. -/
  | adding
  /-- `add_child` counted the child whose thread it creates next. -/
  | counted
  /-- `stop` marked the supervisor as stopped; `stop_requested` is not set yet. -/
  | stopping (timed : Bool)
  /-- `stop(timeout_ms)` waits for the children to finish on their own. -/
  | waiting
  | joining
  /-- The last handle is gone: the children are joined and the supervisor is freed. -/
  | released
  deriving DecidableEq, Repr

structure State where
  supervisor : DiamondSupervisor
  owner : Owner

def maxSupervisorChildren : ℕ := 32

def maxSupervisorRestarts : ℤ := 100

def int32Max : ℤ := 2147483647

/-- The values `restart_policy` accepts; `max_restarts` stays `-1` when it is not given. -/
structure Policy where
  maxRestarts : ℤ
  withinMs : ℤ
  backoffMs : ℤ
  maxBackoffMs : ℤ
  restarts_range : -1 ≤ maxRestarts ∧ maxRestarts ≤ maxSupervisorRestarts
  within_range : 1 ≤ withinMs ∧ withinMs ≤ int32Max
  backoff_range : 1 ≤ backoffMs ∧ backoffMs ≤ maxBackoffMs ∧ maxBackoffMs ≤ int32Max

inductive Action
  | restartPolicy (policy : Policy)
  | addChild
  | refuseChild
  | countChild
  | startChild (created : Bool)
  | stop (timed : Bool)
  | requestStop
  | force
  | join
  | returned
  | release
  | child (index : ℕ) (move : Move)

/-- The forced part of `stop(timeout_ms)`: the children that are not done are interrupted. -/
def forceSection (s : DiamondSupervisor) : DiamondSupervisor :=
  interruptWhere
    { s with
      stopForced := s.stopForced || decide (∃ index < s.childCount, (s.children index).done = false) }
    fun _ => True

/-- One step of the supervisor's owner or of one of its children. -/
def perform (s : State) : Action → Option State
  | .restartPolicy policy =>
    if s.owner = .idle ∧ s.supervisor.childCount = 0 then
      some { s with supervisor := { s.supervisor with
        maxRestarts := policy.maxRestarts
        withinMs := policy.withinMs
        backoffMs := policy.backoffMs
        maxBackoffMs := policy.maxBackoffMs } }
    else none
  | .addChild =>
    if s.owner = .idle ∧ s.supervisor.stopped = false ∧ s.supervisor.failed = false ∧
        s.supervisor.childCount < maxSupervisorChildren then
      some { s with owner := .adding }
    else none
  -- One of the checks of `add_child` that do not look at the supervisor failed.
  | .refuseChild => if s.owner = .adding then some { s with owner := .idle } else none
  | .countChild =>
    if s.owner = .adding then
      some {
        supervisor := { s.supervisor.setChild s.supervisor.childCount freshChild with
          childCount := s.supervisor.childCount + 1 }
        owner := .counted }
    else none
  | .startChild created =>
    if s.owner = .counted then
      let index := s.supervisor.childCount - 1
      if created then
        some {
          supervisor := s.supervisor.setChild index
            { s.supervisor.children index with point := .loopTop }
          owner := .idle }
      else
        some {
          supervisor := { s.supervisor.setChild index freshChild with childCount := index }
          owner := .idle }
    else none
  | .stop timed =>
    if s.owner = .idle then
      some { supervisor := { s.supervisor with stopped := true }, owner := .stopping timed }
    else none
  | .requestStop =>
    match s.owner with
    | .stopping timed =>
      some {
        supervisor := { s.supervisor with stopRequested := true }
        owner := if timed then .waiting else .joining }
    | _ => none
  -- The wait ends when every child is done or the deadline has passed.
  | .force =>
    if s.owner = .waiting then some { supervisor := forceSection s.supervisor, owner := .joining }
    else none
  | .join => if s.owner = .idle then some { s with owner := .joining } else none
  | .returned =>
    if s.owner = .joining ∧
        ∀ index < s.supervisor.childCount, (s.supervisor.children index).point = .finished then
      some { s with owner := .idle }
    else none
  | .release =>
    if s.owner = .idle then
      some { supervisor := { s.supervisor with stopRequested := true }, owner := .released }
    else none
  | .child index move =>
    if index < s.supervisor.childCount then
      (childStep s.supervisor index move).map fun supervisor => { s with supervisor }
    else none

def machine : Machine State where
  initial s := (∃ strategy, s.supervisor = supervisorNew strategy) ∧ s.owner = .idle
  step s t := ∃ action, perform s action = some t

end Diamond.Supervisor
