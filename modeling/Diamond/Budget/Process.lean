import Diamond.Lib.Transition
import Diamond.Budget.Limits
import Mathlib.Algebra.BigOperators.Intervals
import Mathlib.Algebra.Order.BigOperators.Group.Finset

/-!
# The VMs of a process

The runs of the VMs of a process that has budgets: the top-level program, its threads, the attempts
of supervised children.  VMs are numbered in the order in which they register.  A step is one access
to the shared counters, with the VM's own fields that go with it, and the steps of different VMs
interleave in any order.

`budget_register` resets the counters when it finds no live VM.  The machine makes the assumption
its comment makes, that no other VM registers until this is done.
-/

namespace Diamond.Budget

inductive Phase
  /-- Counted in `budget_live_vms`; `first` if it found the count at zero. -/
  | entering (first : Bool)
  | running
  /-- Its program has ended. -/
  | ended
  /-- `budget_release_finished` has added its instructions. -/
  | releasing
  | finished
  /-- `budget_unregister` has added its instructions. -/
  | leaving
  /-- `budget_unregister` has also taken back its memory. -/
  | left
  | gone
  deriving DecidableEq, Repr

/-- The counters, the VMs and their phases.  `epoch` is the first VM registered since the counters
were reset, `liveThreads` the number of VMs that are being run, and `executedAfter` the number of
instructions executed while the total was over the instruction budget. -/
structure Process where
  counters : Counters
  vms : ℕ → DiamondVm
  phases : ℕ → Phase
  count : ℕ
  epoch : ℕ
  liveThreads : ℕ
  executedAfter : ℕ

inductive Action
  | enter
  | register (nowNs : ℤ)
  | dispatch (nowNs : ℤ) (interrupt : Bool)
  | wait (nowNs : ℤ) (taken : Bool)
  | collect (bytes : ℕ)
  | finish
  | releaseInstructions
  | releaseBytes
  | unregisterInstructions
  | unregisterBytes
  | unregister
  deriving DecidableEq, Repr

def Process.setPhase (s : Process) (v : ℕ) (phase : Phase) : Process :=
  { s with phases := Function.update s.phases v phase }

def Process.Exceeded (config : Config) (s : Process) : Prop :=
  s.counters.budgetInstructions > config.maxInstructions

instance (config : Config) (s : Process) : Decidable (s.Exceeded config) :=
  inferInstanceAs (Decidable (_ > _))

/-- A VM with the next number registers: the first access of `budget_register`. -/
def Process.enter (config : Config) (s : Process) : Process :=
  { s with
    counters := { s.counters with budgetLiveVms := s.counters.budgetLiveVms + 1 }
    vms := Function.update s.vms s.count (vmInit config)
    phases := Function.update s.phases s.count
      (.entering (decide (s.counters.budgetLiveVms = 0)))
    count := s.count + 1
    liveThreads := s.liveThreads + 1 }

/-- The counters that `budget_register` leaves behind, and the time at which the clock started. -/
def registerCounters (vm : DiamondVm) (counters : Counters) (first : Bool) (nowNs : ℤ) : Counters :=
  let reset := if first then { counters with
      budgetInstructions := 0, budgetBytes := 0, budgetStartNs := 0 } else counters
  if vm.maxWallNanoseconds ≠ 0 ∧ reset.budgetStartNs = 0 then { reset with budgetStartNs := nowNs }
  else reset

def Process.register (s : Process) (v : ℕ) (first : Bool) (nowNs : ℤ) : Process :=
  let vm := s.vms v
  let counters := registerCounters vm s.counters first nowNs
  { s with
    counters := counters
    vms := Function.update s.vms v { vm with
      budgetsRegistered := true
      startTimeNs := if vm.maxWallNanoseconds ≠ 0 then counters.budgetStartNs else vm.startTimeNs }
    phases := Function.update s.phases v .running
    epoch := if first then v else s.epoch }

/-- The phase of a VM after a status: an uncatchable one ends its program. -/
def Status.next : Status → Phase
  | .ok | .resourceLimitError | .outOfMemory => .running
  | .interrupted | .resourceExhausted => .ended

/-- A VM makes the checks before an instruction and executes it if they let it. -/
def Process.dispatch (config : Config) (s : Process) (v : ℕ) (nowNs : ℤ) (interrupt : Bool) :
    Process :=
  let (vm, counters, status) := dispatchCheck (s.vms v) s.counters nowNs interrupt
  { s with
    counters := counters
    vms := Function.update s.vms v vm
    phases := Function.update s.phases v status.next
    liveThreads := if status.next = .ended then s.liveThreads - 1 else s.liveThreads
    executedAfter :=
      if status = .ok ∧ s.Exceeded config then s.executedAfter + 1 else s.executedAfter }

/-- A wait ends at `nowNs`.  If it is that of a rendezvous send whose value has been taken in the
meantime, `channel_send_helper` drops its status and the program goes on. -/
def Process.wait (s : Process) (v : ℕ) (nowNs : ℤ) (taken : Bool) : Process :=
  let (vm, waited) := wallBudgetAfterWait (s.vms v) nowNs
  let status := if taken then .ok else waited
  { s with
    vms := Function.update s.vms v vm
    phases := Function.update s.phases v status.next
    liveThreads := if status.next = .ended then s.liveThreads - 1 else s.liveThreads }

def Process.collect (s : Process) (v : ℕ) (bytes : ℕ) : Process :=
  let (vm, counters, _) := maybeCollect (s.vms v) s.counters bytes
  { s with counters := counters, vms := Function.update s.vms v vm }

def DiamondVm.unflushed (vm : DiamondVm) : ℕ := vm.instructionsExecuted - vm.instructionsFlushed

def Counters.addInstructions (counters : Counters) (pending : ℕ) : Counters :=
  { counters with budgetInstructions := counters.budgetInstructions + pending }

def Counters.subBytes (counters : Counters) (bytes : ℤ) : Counters :=
  { counters with budgetBytes := counters.budgetBytes - bytes }

def Process.releaseInstructions (s : Process) (v : ℕ) : Process :=
  let vm := s.vms v
  { s with
    counters := s.counters.addInstructions vm.unflushed
    vms := Function.update s.vms v { vm with instructionsFlushed := vm.instructionsExecuted }
    phases := Function.update s.phases v .releasing }

def Process.releaseBytes (s : Process) (v : ℕ) : Process :=
  let vm := s.vms v
  { s with
    counters := s.counters.subBytes vm.memoryPublished
    vms := Function.update s.vms v { vm with memoryPublished := 0, maxMemoryBytes := 0 }
    phases := Function.update s.phases v .finished }

def perform (config : Config) (limit : ℕ) (s : Process) (v : ℕ) : Action → Option Process
  | .enter =>
    if v = s.count ∧ s.liveThreads < limit ∧ ∀ other < s.count, s.phases other ≠ .entering true then
      some (s.enter config)
    else none
  | .register nowNs =>
    if v < s.count then
      match s.phases v with
      | .entering first => some (s.register v first nowNs)
      | _ => none
    else none
  | .dispatch nowNs interrupt =>
    if v < s.count ∧ s.phases v = .running ∧ (s.vms v).instructionsExecuted + 1 < sizeMod then
      some (s.dispatch config v nowNs interrupt)
    else none
  | .wait nowNs taken =>
    if v < s.count ∧ s.phases v = .running then some (s.wait v nowNs taken) else none
  | .collect bytes =>
    if v < s.count ∧ s.phases v = .running then some (s.collect v bytes) else none
  | .finish =>
    if v < s.count ∧ s.phases v = .running then
      some { s.setPhase v .ended with liveThreads := s.liveThreads - 1 }
    else none
  -- A thread releases its budgets when its entry function has returned.
  | .releaseInstructions =>
    if v < s.count ∧ s.phases v = .ended then some (s.releaseInstructions v) else none
  | .releaseBytes =>
    if v < s.count ∧ s.phases v = .releasing then some (s.releaseBytes v) else none
  -- A VM is freed after its program has ended; a thread's has released its budgets by then.
  | .unregisterInstructions =>
    if v < s.count ∧ (s.phases v = .ended ∨ s.phases v = .finished) then
      some { s.setPhase v .leaving with counters := s.counters.addInstructions (s.vms v).unflushed }
    else none
  | .unregisterBytes =>
    if v < s.count ∧ s.phases v = .leaving then
      some { s.setPhase v .left with counters := s.counters.subBytes (s.vms v).memoryPublished }
    else none
  | .unregister =>
    if v < s.count ∧ s.phases v = .left then
      some { s.setPhase v .gone with
        counters := { s.counters with budgetLiveVms := s.counters.budgetLiveVms - 1 } }
    else none

/-- No VM has registered yet; the counters are static variables. -/
def start (config : Config) : Process where
  counters := ⟨0, 0, 0, 0⟩
  vms := fun _ => vmInit config
  phases := fun _ => .gone
  count := 0
  epoch := 0
  liveThreads := 0
  executedAfter := 0

/-- The VMs of a process with the budgets `config` and at most `limit` threads at a time. -/
def machine (config : Config) (limit : ℕ) : Machine Process where
  initial s := s = start config
  step s t := ∃ v action, perform config limit s v action = some t

def runOf (config : Config) (limit : ℕ) (steps : List (ℕ × Action)) : Option Process :=
  steps.foldlM (fun s step => perform config limit s step.1 step.2) (start config)

lemma runOf_reachable {config limit steps s}
    (h : runOf config limit steps = some s) : (machine config limit).Reachable s :=
  (Machine.Reachable.start rfl).run (fun _ step _ hstep => ⟨step.1, step.2, hstep⟩) h

/-! ## The steps by what they do -/

variable {config : Config} {limit : ℕ} {s t : Process} {v : ℕ}

inductive Performed (config : Config) (limit : ℕ) (s : Process) (v : ℕ) : Action → Process → Prop
  | enter (hnext : v = s.count) (hlimit : s.liveThreads < limit)
      (hnone : ∀ other < s.count, s.phases other ≠ .entering true) :
      Performed config limit s v .enter (s.enter config)
  | register {nowNs : ℤ} (first : Bool) (hv : v < s.count) (hphase : s.phases v = .entering first) :
      Performed config limit s v (.register nowNs) (s.register v first nowNs)
  | dispatch {nowNs : ℤ} {interrupt : Bool} (hv : v < s.count) (hphase : s.phases v = .running)
      (hbelow : (s.vms v).instructionsExecuted + 1 < sizeMod) :
      Performed config limit s v (.dispatch nowNs interrupt) (s.dispatch config v nowNs interrupt)
  | wait {nowNs : ℤ} {taken : Bool} (hv : v < s.count) (hphase : s.phases v = .running) :
      Performed config limit s v (.wait nowNs taken) (s.wait v nowNs taken)
  | collect {bytes : ℕ} (hv : v < s.count) (hphase : s.phases v = .running) :
      Performed config limit s v (.collect bytes) (s.collect v bytes)
  | finish (hv : v < s.count) (hphase : s.phases v = .running) :
      Performed config limit s v .finish
        { s.setPhase v .ended with liveThreads := s.liveThreads - 1 }
  | releaseInstructions (hv : v < s.count) (hphase : s.phases v = .ended) :
      Performed config limit s v .releaseInstructions (s.releaseInstructions v)
  | releaseBytes (hv : v < s.count) (hphase : s.phases v = .releasing) :
      Performed config limit s v .releaseBytes (s.releaseBytes v)
  | unregisterInstructions (hv : v < s.count)
      (hphase : s.phases v = .ended ∨ s.phases v = .finished) :
      Performed config limit s v .unregisterInstructions
        { s.setPhase v .leaving with
          counters := s.counters.addInstructions (s.vms v).unflushed }
  | unregisterBytes (hv : v < s.count) (hphase : s.phases v = .leaving) :
      Performed config limit s v .unregisterBytes
        { s.setPhase v .left with counters := s.counters.subBytes (s.vms v).memoryPublished }
  | unregister (hv : v < s.count) (hphase : s.phases v = .left) :
      Performed config limit s v .unregister
        { s.setPhase v .gone with
          counters := { s.counters with budgetLiveVms := s.counters.budgetLiveVms - 1 } }

lemma perform_cases {action} (h : perform config limit s v action = some t) :
    Performed config limit s v action t := by
  cases action
  case register =>
    simp only [perform, Option.ite_none_right_eq_some] at h
    obtain ⟨hv, h⟩ := h
    split at h
    · next first hphase =>
      cases h
      exact .register first hv hphase
    · cases h
  all_goals simp only [perform, Option.ite_none_right_eq_some, Option.some.injEq] at h
  case enter =>
    obtain ⟨⟨hnext, hlimit, hnone⟩, rfl⟩ := h
    exact .enter hnext hlimit hnone
  case dispatch =>
    obtain ⟨⟨hv, hphase, hbelow⟩, rfl⟩ := h
    exact .dispatch hv hphase hbelow
  all_goals obtain ⟨⟨hv, hphase⟩, rfl⟩ := h
  case wait => exact .wait hv hphase
  case collect => exact .collect hv hphase
  case finish => exact .finish hv hphase
  case releaseInstructions => exact .releaseInstructions hv hphase
  case releaseBytes => exact .releaseBytes hv hphase
  case unregisterInstructions => exact .unregisterInstructions hv hphase
  case unregisterBytes => exact .unregisterBytes hv hphase
  case unregister => exact .unregister hv hphase

end Diamond.Budget
