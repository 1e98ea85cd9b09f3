import Mathlib.Tactic.NormNum

/-!
# Resource budgets of one VM

Model of `src/vm_limits.c` and of the resource checks that `run_chunk` makes before an instruction:
the budgets of instructions, of wall-clock time and of memory, which all VMs of the process share,
and the grace allowance of a VM that went over one of them.

The counters are natural numbers and integers.  `hard_stop_instruction_count` is computed as the
code computes it, modulo `2 ^ 64`; the count of the instructions of one VM is taken to stay below
that. Collections are left out: a check of the memory budget is given the bytes in use after it.
-/

namespace Diamond.Budget

def sizeMod : ℕ := 2 ^ 64

/-- The budgets of the environment; `0` stands for a budget or an allowance that is not set. -/
structure Config where
  maxInstructions : ℕ
  graceInstructions : ℕ
  maxWallNanoseconds : ℤ
  graceWallNanoseconds : ℤ
  maxMemoryBytes : ℕ
  graceMemoryBytes : ℕ
  deriving DecidableEq, Repr

structure Counters where
  budgetLiveVms : ℕ
  budgetInstructions : ℕ
  budgetBytes : ℤ
  budgetStartNs : ℤ
  deriving DecidableEq, Repr

/-- The fields of `DiamondVm` that the budgets use. -/
structure DiamondVm where
  maxInstructions : ℕ
  graceInstructions : ℕ
  maxWallNanoseconds : ℤ
  graceWallNanoseconds : ℤ
  maxMemoryBytes : ℕ
  graceMemoryBytes : ℕ
  instructionsExecuted : ℕ
  instructionsFlushed : ℕ
  startTimeNs : ℤ
  bytesAllocated : ℕ
  memoryPublished : ℤ
  memoryLimitTripped : Bool
  memoryHardStopped : Bool
  resourceGraceActive : Bool
  hardStopInstructionCount : ℕ
  hardStopTimeNs : ℤ
  budgetsRegistered : Bool
  error : String
  deriving DecidableEq, Repr

def vmInit (config : Config) : DiamondVm where
  maxInstructions := config.maxInstructions
  graceInstructions := config.graceInstructions
  maxWallNanoseconds := config.maxWallNanoseconds
  graceWallNanoseconds := config.graceWallNanoseconds
  maxMemoryBytes := config.maxMemoryBytes
  graceMemoryBytes := config.graceMemoryBytes
  instructionsExecuted := 0
  instructionsFlushed := 0
  startTimeNs := 0
  bytesAllocated := 0
  memoryPublished := 0
  memoryLimitTripped := false
  memoryHardStopped := false
  resourceGraceActive := false
  hardStopInstructionCount := 0
  hardStopTimeNs := 0
  budgetsRegistered := false
  error := ""

inductive Status
  | ok
  | interrupted
  | resourceLimitError
  | resourceExhausted
  | outOfMemory
  deriving DecidableEq, Repr

def instructionGrace : ℕ := 1000000

def wallGraceMilliseconds : ℤ := 1000

def memoryGraceMinimumBytes : ℕ := 4 * 1024 * 1024

/-- `DIAMOND_RESOURCE_LIMIT_CLOCK_CHECK_MASK + 1`. -/
def clockCheckInterval : ℕ := 4096

/-- The instructions a VM may execute after its ResourceLimitError. -/
def DiamondVm.grace (vm : DiamondVm) : ℕ :=
  if vm.graceInstructions ≠ 0 then vm.graceInstructions else instructionGrace

def resourceLimitTrip (vm : DiamondVm) (nowNs : ℤ) : DiamondVm :=
  { vm with
    hardStopInstructionCount :=
      if vm.maxInstructions ≠ 0 then (vm.instructionsExecuted + vm.grace) % sizeMod
      else vm.hardStopInstructionCount
    hardStopTimeNs :=
      if vm.maxWallNanoseconds ≠ 0 then
        max nowNs (vm.startTimeNs + vm.maxWallNanoseconds) +
          (if vm.graceWallNanoseconds ≠ 0 then vm.graceWallNanoseconds
            else wallGraceMilliseconds * 1000000)
      else vm.hardStopTimeNs
    maxInstructions := 0
    maxWallNanoseconds := 0
    resourceGraceActive := true }

def resourceHardStop (vm : DiamondVm) (budget : String) : DiamondVm :=
  { vm with
    hardStopInstructionCount := 0
    hardStopTimeNs := 0
    error := budget ++ " budget exhausted: the program kept running after its ResourceLimitError" }

def instructionBudgetExceeded (vm : DiamondVm) (counters : Counters) :
    DiamondVm × Counters × Bool :=
  let total := counters.budgetInstructions + (vm.instructionsExecuted - vm.instructionsFlushed)
  ({ vm with instructionsFlushed := vm.instructionsExecuted },
    { counters with budgetInstructions := total },
    decide (total > vm.maxInstructions))

/-- The grace checks of `run_chunk`, for a VM that has counted its next instruction. -/
def graceCheck (vm : DiamondVm) (nowNs : ℤ) : DiamondVm × Status :=
  if vm.hardStopInstructionCount ≠ 0 ∧ vm.instructionsExecuted > vm.hardStopInstructionCount then
    (resourceHardStop vm "instruction", .resourceExhausted)
  else if vm.hardStopTimeNs ≠ 0 ∧ vm.instructionsExecuted % clockCheckInterval = 0 ∧
      nowNs > vm.hardStopTimeNs then
    (resourceHardStop vm "wall-clock", .resourceExhausted)
  else (vm, .ok)

def wallCheck (vm : DiamondVm) (nowNs : ℤ) : DiamondVm × Status :=
  if vm.maxWallNanoseconds ≠ 0 ∧ vm.instructionsExecuted % clockCheckInterval = 0 ∧
      nowNs - vm.startTimeNs > vm.maxWallNanoseconds then
    (resourceLimitTrip vm nowNs, .resourceLimitError)
  else (vm, .ok)

/-- The soft checks of `run_chunk`, for a VM that has counted its next instruction. -/
def softCheck (vm : DiamondVm) (counters : Counters) (nowNs : ℤ) : DiamondVm × Counters × Status :=
  if vm.maxInstructions ≠ 0 ∧ vm.instructionsExecuted % clockCheckInterval = 0 then
    let (flushed, counted, exceeded) := instructionBudgetExceeded vm counters
    if exceeded then (resourceLimitTrip flushed nowNs, counted, .resourceLimitError)
    else
      let (checked, status) := wallCheck flushed nowNs
      (checked, counted, status)
  else
    let (checked, status) := wallCheck vm nowNs
    (checked, counters, status)

/-- The checks of `run_chunk` before an instruction.  The instruction is executed if they return
`ok`. -/
def dispatchCheck (vm : DiamondVm) (counters : Counters) (nowNs : ℤ) (interrupt : Bool) :
    DiamondVm × Counters × Status :=
  let counted := { vm with instructionsExecuted := vm.instructionsExecuted + 1 }
  if interrupt then (counted, counters, .interrupted)
  else if counted.resourceGraceActive then
    let (checked, status) := graceCheck counted nowNs
    (checked, counters, status)
  else softCheck counted counters nowNs

def wallBudgetLimitNs (vm : DiamondVm) : ℤ :=
  if vm.maxWallNanoseconds ≠ 0 then vm.startTimeNs + vm.maxWallNanoseconds
  else if vm.resourceGraceActive = true ∧ vm.hardStopTimeNs ≠ 0 then vm.hardStopTimeNs
  else 0

/-- `wall_budget_after_wait`, after a blocking wait inside an instruction. -/
def wallBudgetAfterWait (vm : DiamondVm) (nowNs : ℤ) : DiamondVm × Status :=
  if wallBudgetLimitNs vm = 0 ∨ nowNs ≤ wallBudgetLimitNs vm then (vm, .ok)
  else if vm.maxWallNanoseconds ≠ 0 then (resourceLimitTrip vm nowNs, .resourceLimitError)
  else (resourceHardStop vm "wall-clock", .resourceExhausted)

def raisedCeiling (vm : DiamondVm) : ℕ :=
  min (sizeMod - 1) (vm.maxMemoryBytes +
    if vm.graceMemoryBytes ≠ 0 then vm.graceMemoryBytes
    else max (vm.maxMemoryBytes / 4) memoryGraceMinimumBytes)

/-- `maybe_collect`, with the bytes in use after its collections. -/
def maybeCollect (vm : DiamondVm) (counters : Counters) (bytes : ℕ) : DiamondVm × Counters × Bool :=
  let collected := { vm with bytesAllocated := bytes }
  if vm.maxMemoryBytes ≠ 0 then
    let total := counters.budgetBytes + ((bytes : ℤ) - vm.memoryPublished)
    let published := { collected with memoryPublished := bytes }
    let counted := { counters with budgetBytes := total }
    if total ≤ 0 ∨ total ≤ vm.maxMemoryBytes then (published, counted, true)
    else if vm.memoryLimitTripped = false then
      ({ published with memoryLimitTripped := true, maxMemoryBytes := raisedCeiling vm }, counted,
        false)
    else
      ({ published with
        memoryHardStopped := true
        error := "memory budget exhausted: the program kept allocating after its ResourceLimitError" },
        counted, false)
  else (collected, counters, true)

/-! ## What the checks do to the counts -/

variable {vm : DiamondVm} {counters : Counters} {nowNs : ℤ}

/-- What a check may do to the counts of a VM: it leaves the executed instructions and the published
memory alone, and adds to the total what it takes as flushed. -/
structure Counted (vm vm' : DiamondVm) (counters counters' : Counters) : Prop where
  executed : vm'.instructionsExecuted = vm.instructionsExecuted
  flushed : vm.instructionsFlushed ≤ vm.instructionsExecuted →
    vm'.instructionsFlushed ≤ vm'.instructionsExecuted
  credited : vm.instructionsFlushed ≤ vm.instructionsExecuted →
    counters'.budgetInstructions + vm.instructionsFlushed =
      counters.budgetInstructions + vm'.instructionsFlushed
  published : vm'.memoryPublished = vm.memoryPublished
  bytes : counters'.budgetBytes = counters.budgetBytes
  live : counters'.budgetLiveVms = counters.budgetLiveVms

lemma Counted.of_fields {vm'} (hexecuted : vm'.instructionsExecuted = vm.instructionsExecuted)
    (hflushed : vm'.instructionsFlushed = vm.instructionsFlushed)
    (hpublished : vm'.memoryPublished = vm.memoryPublished) : Counted vm vm' counters counters where
  executed := hexecuted
  flushed := by
    rw [hexecuted, hflushed]
    exact id
  credited := by
    rw [hflushed]
    exact fun _ => rfl
  published := hpublished
  bytes := rfl
  live := rfl

lemma Counted.trans {vm₁ vm₂ counters₁ counters₂}
    (h : Counted vm vm₁ counters counters₁) (h' : Counted vm₁ vm₂ counters₁ counters₂) :
    Counted vm vm₂ counters counters₂ where
  executed := h'.executed.trans h.executed
  flushed := h'.flushed ∘ h.flushed
  credited := by
    intro hle
    have h₁ := h.credited hle
    have h₂ := h'.credited (h.flushed hle)
    omega
  published := h'.published.trans h.published
  bytes := h'.bytes.trans h.bytes
  live := h'.live.trans h.live

lemma counted_wallCheck : Counted vm (wallCheck vm nowNs).1 counters counters := by
  rw [wallCheck]
  split
  all_goals exact .of_fields rfl rfl rfl

lemma counted_graceCheck : Counted vm (graceCheck vm nowNs).1 counters counters := by
  rw [graceCheck]
  split
  · exact .of_fields rfl rfl rfl
  · split
    all_goals exact .of_fields rfl rfl rfl

lemma counted_exceeded : Counted vm (instructionBudgetExceeded vm counters).1 counters
      (instructionBudgetExceeded vm counters).2.1 where
  executed := rfl
  flushed := fun _ => le_rfl
  credited := by
    intro hle
    change counters.budgetInstructions + (vm.instructionsExecuted - vm.instructionsFlushed) +
      vm.instructionsFlushed = counters.budgetInstructions + vm.instructionsExecuted
    omega
  published := rfl
  bytes := rfl
  live := rfl

lemma counted_softCheck :
    Counted vm (softCheck vm counters nowNs).1 counters (softCheck vm counters nowNs).2.1 := by
  rw [softCheck]
  split
  · dsimp only
    split
    · exact counted_exceeded.trans (.of_fields rfl rfl rfl)
    · exact counted_exceeded.trans counted_wallCheck
  · exact counted_wallCheck

/-- The checks before an instruction count it and add to the total what they take as flushed. -/
lemma counted_dispatchCheck (vm : DiamondVm) (counters : Counters) (nowNs : ℤ) (interrupt : Bool) :
    Counted { vm with instructionsExecuted := vm.instructionsExecuted + 1 }
      (dispatchCheck vm counters nowNs interrupt).1 counters
      (dispatchCheck vm counters nowNs interrupt).2.1 := by
  rw [dispatchCheck]
  split
  · exact .of_fields rfl rfl rfl
  · split
    · exact counted_graceCheck
    · exact counted_softCheck

lemma counted_wallBudgetAfterWait :
    Counted vm (wallBudgetAfterWait vm nowNs).1 counters counters := by
  rw [wallBudgetAfterWait]
  split
  · exact .of_fields rfl rfl rfl
  · split
    all_goals exact .of_fields rfl rfl rfl

lemma maybeCollect_spec (vm : DiamondVm) (counters : Counters) (bytes : ℕ) :
    (maybeCollect vm counters bytes).1.instructionsExecuted = vm.instructionsExecuted ∧
    (maybeCollect vm counters bytes).1.instructionsFlushed = vm.instructionsFlushed ∧
    (maybeCollect vm counters bytes).2.1.budgetInstructions = counters.budgetInstructions ∧
    (maybeCollect vm counters bytes).2.1.budgetLiveVms = counters.budgetLiveVms ∧
    (maybeCollect vm counters bytes).2.1.budgetBytes + vm.memoryPublished =
      counters.budgetBytes + (maybeCollect vm counters bytes).1.memoryPublished := by
  rw [maybeCollect]
  split
  · dsimp only
    split
    · exact ⟨rfl, rfl, rfl, rfl, by dsimp only; omega⟩
    · split
      all_goals exact ⟨rfl, rfl, rfl, rfl, by dsimp only; omega⟩
  · exact ⟨rfl, rfl, rfl, rfl, rfl⟩

end Diamond.Budget
