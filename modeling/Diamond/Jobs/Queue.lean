import Diamond.Lib.Transition
import Mathlib.Tactic

/-!
# Workers of a job queue

Model of `packages/jobs`: `Jobs.enqueue` and the statements that the workers run on the `jobs` table
in `worker.d6`.  A statement is atomic; between two statements of a worker the others may run any of
theirs.  What a worker has read is its own copy of the rows, which may be out of date when it writes.

A job is its place in the table, from which nothing is deleted.  A recurring job that comes due is
one more `enqueue`.
-/

namespace Diamond.Jobs

open List Option

inductive Status
  | pending
  | running
  | succeeded
  | failed
  deriving DecidableEq, Repr

/-- A row of `jobs`, without `created_at`, which no statement reads. -/
structure Job where
  kind : String
  payload : String
  queue : String
  status : Status
  runAt : ℤ
  attempts : ℤ
  maxAttempts : ℤ
  lockedAt : Option ℤ
  lastError : Option String
  finishedAt : Option ℤ
  deriving DecidableEq, Repr

def Job.Finished (job : Job) : Prop := job.status = .succeeded ∨ job.status = .failed

instance (job : Job) : Decidable job.Finished := inferInstanceAs (Decidable (_ ∨ _))

/-- What a worker is about to do: claim or look for stale jobs; end the job that it has claimed; or
put back the rows that it found stale. -/
inductive Point
  | idle
  | claimed (id : ℕ) (row : Job)
  | reaping (rows : List (ℕ × Job))
  deriving DecidableEq, Repr

structure System where
  jobs : List Job
  workers : List Point
  deriving DecidableEq, Repr

/-! ## Statements -/

def enqueue (jobs : List Job) (kind payload queue : String) (runAt maxAttempts : ℤ) : List Job :=
  jobs ++ [⟨kind, payload, queue, .pending, runAt, 0, maxAttempts, none, none, none⟩]

/-- The rows that `claim_next` selects from; no queues means all of them. -/
def due (queues : List String) (now : ℤ) (job : Job) : Bool :=
  job.status == .pending && decide (job.runAt ≤ now) && (queues.isEmpty || queues.contains job.queue)

/-- `ORDER BY run_at ASC, id ASC LIMIT 1`, on rows in the order of their ids. -/
def earliest : List (Job × ℕ) → Option (Job × ℕ)
  | [] => none
  | row :: rest =>
    match earliest rest with
    | none => some row
    | some best => if row.1.runAt ≤ best.1.runAt then some row else some best

def nextDue (queues : List String) (now : ℤ) (jobs : List Job) : Option (Job × ℕ) :=
  earliest (jobs.zipIdx.filter fun row => due queues now row.1)

def succeed (now : ℤ) (job : Job) : Job := { job with status := .succeeded, finishedAt := some now }

def backoffLoop : ℕ → ℤ → ℤ
  | 0, seconds => seconds
  | turns + 1, seconds => backoffLoop turns (seconds * 2)

def backoffSeconds (attempts : ℤ) : ℤ :=
  let seconds := backoffLoop (attempts - 1).toNat 5
  if 300 < seconds then 300 else seconds

/-- `retry_or_fail!`: what it writes depends on the row that was read. -/
def retryOrFail (now : ℤ) (row : Job) (message : String) (job : Job) : Job :=
  let attempts := row.attempts + 1
  if row.maxAttempts ≤ attempts then
    { job with
      status := .failed
      attempts := attempts
      lastError := some message
      finishedAt := some now }
  else
    { job with
      status := .pending
      attempts := attempts
      lastError := some message
      runAt := now + backoffSeconds attempts }

def failUnhandled (now : ℤ) (row job : Job) : Job :=
  { job with
    status := .failed
    attempts := job.attempts + 1
    lastError := some ("no handler registered for kind '" ++ row.kind ++ "'")
    finishedAt := some now }

def stale (timeout now : ℤ) (job : Job) : Bool :=
  job.status == .running && job.lockedAt.any fun lockedAt => decide (lockedAt ≤ now - timeout)

def staleRows (timeout now : ℤ) (jobs : List Job) : List (ℕ × Job) :=
  (jobs.zipIdx.filter fun row => stale timeout now row.1).map fun row => (row.2, row.1)

/-! ## Workers -/

/-- A statement, with the worker that runs it and the time it reads. -/
inductive Action
  | enqueue (kind payload queue : String) (runAt maxAttempts : ℤ)
  | claimNext (worker : ℕ) (queues : List String) (now : ℤ)
  | succeed (worker : ℕ) (now : ℤ)
  | retryOrFail (worker : ℕ) (now : ℤ) (message : String)
  | failUnhandled (worker : ℕ) (now : ℤ)
  | findStale (worker : ℕ) (timeout now : ℤ)
  | reap (worker : ℕ) (now timeout : ℤ)
  | crash (worker : ℕ)
  deriving Repr

/-- A worker ends the job it has claimed with this statement. -/
def System.finish (s : System) (worker : ℕ) (write : Job → Job → Job) : Option System :=
  match s.workers[worker]? with
  | some (.claimed id row) =>
    some { s with jobs := s.jobs.modify id (write row), workers := s.workers.set worker .idle }
  | _ => none

def perform (s : System) : Action → Option System
  | .enqueue kind payload queue runAt maxAttempts =>
    some { s with jobs := Jobs.enqueue s.jobs kind payload queue runAt maxAttempts }
  | .claimNext worker queues now =>
    match s.workers[worker]? with
    | some .idle =>
      match nextDue queues now s.jobs with
      | none => some s
      | some (job, id) =>
        let row := { job with status := .running, lockedAt := some now }
        some { s with jobs := s.jobs.set id row, workers := s.workers.set worker (.claimed id row) }
    | _ => none
  | .succeed worker now => s.finish worker fun _ => Jobs.succeed now
  | .retryOrFail worker now message => s.finish worker fun row => Jobs.retryOrFail now row message
  | .failUnhandled worker now => s.finish worker (Jobs.failUnhandled now)
  | .findStale worker timeout now =>
    match s.workers[worker]? with
    | some .idle =>
      some { s with workers := s.workers.set worker (.reaping (staleRows timeout now s.jobs)) }
    | _ => none
  | .reap worker now timeout =>
    match s.workers[worker]? with
    | some (.reaping []) => some { s with workers := s.workers.set worker .idle }
    | some (.reaping ((id, row) :: rows)) =>
      let message := "worker lock expired after " ++ toString timeout ++ "s"
      some { s with
        jobs := s.jobs.modify id (Jobs.retryOrFail now row message)
        workers := s.workers.set worker (.reaping rows) }
    | _ => none
  | .crash worker => some { s with workers := s.workers.set worker .idle }

/-- Any number of workers, at first all idle, on an empty table. -/
def machine : Machine System where
  initial s := s.jobs = [] ∧ ∀ point ∈ s.workers, point = .idle
  step s t := ∃ action, perform s action = some t

/-! ## What a statement does -/

def Point.rows : Point → List (ℕ × Job)
  | .idle => []
  | .claimed id row => [(id, row)]
  | .reaping rows => rows

def System.Held (s : System) (held : ℕ × Job) : Prop := ∃ point ∈ s.workers, held ∈ point.rows

inductive Ends (row : Job) : (Job → Job) → Prop
  | succeed (now : ℤ) : Ends row (succeed now)
  | retryOrFail (now : ℤ) (message : String) : Ends row (retryOrFail now row message)
  | failUnhandled (now : ℤ) : Ends row (failUnhandled now row)

/-- What a statement may make of the table. -/
inductive Writes (s : System) : List Job → Prop
  | nothing : Writes s s.jobs
  | enqueue {kind payload queue runAt maxAttempts} (hmax : 1 ≤ maxAttempts) :
      Writes s (enqueue s.jobs kind payload queue runAt maxAttempts)
  | claim {id job now} (hjob : s.jobs[id]? = some job) (hpending : job.status = .pending) :
      Writes s (s.jobs.set id { job with status := .running, lockedAt := some now })
  | finish {id row write} (hrow : s.jobs[id]? = some row) (hrunning : row.status = .running)
      (hends : Ends row write) : Writes s (s.jobs.modify id write)

lemma earliest_mem {rows row} (h : earliest rows = some row) : row ∈ rows := by
  induction rows generalizing row with
  | nil => cases h
  | cons _ _ ih =>
    rw [earliest] at h
    split at h
    · cases h
      exact mem_cons_self
    · next _ hbest =>
      split at h
      · cases h
        exact mem_cons_self
      · cases h
        exact mem_cons_of_mem _ (ih hbest)

variable {jobs : List Job}

lemma nextDue_some {queues now job id} (h : nextDue queues now jobs = some (job, id)) :
    jobs[id]? = some job ∧ job.status = .pending := by
  have hmem := mem_filter.1 (earliest_mem h)
  have hdue : job.status = .pending := by
    have hdue := hmem.2
    simp only [due, Bool.and_eq_true, beq_iff_eq] at hdue
    exact hdue.1.1
  exact ⟨mem_zipIdx_iff_getElem?.1 hmem.1, hdue⟩

lemma staleRows_mem {timeout now held} (h : held ∈ staleRows timeout now jobs) :
    jobs[held.1]? = some held.2 ∧ held.2.status = .running := by
  obtain ⟨_, hrow, rfl⟩ := mem_map.1 h
  have hmem := mem_filter.1 hrow
  have hstale := hmem.2
  simp only [stale, Bool.and_eq_true, beq_iff_eq] at hstale
  exact ⟨mem_zipIdx_iff_getElem?.1 hmem.1, hstale.1⟩

variable {s : System}

/-- A worker that goes on to another point holds what that point has; the others hold what they
held. -/
lemma held_of_set {worker point held}
    (h : (⟨jobs, s.workers.set worker point⟩ : System).Held held) :
    held ∈ point.rows ∨ s.Held held := by
  obtain ⟨other, hother, hrows⟩ := h
  rcases mem_or_eq_of_mem_set hother with hmem | rfl
  · exact .inr ⟨other, hmem, hrows⟩
  · exact .inl hrows

variable {action : Action}

/-! ## Who is at which job -/

/-- The worker is at the job. -/
def Point.claims (id : ℕ) : Point → Bool
  | .claimed other _ => other == id
  | _ => false

/-- A job that is added may be attempted.  A reap meets the row as it was found stale, still under
the same claim, and no worker is at the job any more. -/
def Timely (s : System) : Action → Prop
  | .enqueue _ _ _ _ maxAttempts => 1 ≤ maxAttempts
  | .reap worker _ _ =>
    match s.workers[worker]? with
    | some (.reaping ((id, row) :: _)) =>
      s.jobs[id]? = some row ∧ ∀ point ∈ s.workers, point.claims id = false
    | _ => True
  | _ => True

instance (s : System) (action : Action) : Decidable (Timely s action) := by
  unfold Timely
  split
  · infer_instance
  · split <;> infer_instance
  · infer_instance

/-- The runs in which no claim is reaped while a worker is still at the job. -/
def timelyMachine : Machine System where
  initial := machine.initial
  step s t := ∃ action, Timely s action ∧ perform s action = some t

/-- A worker that is at a job is alone at it, and the row is as it claimed it. -/
structure Owned (s : System) : Prop where
  running : ∀ held, s.Held held → held.2.status = .running
  current : ∀ (w id : ℕ) row, s.workers[w]? = some (.claimed id row) → s.jobs[id]? = some row
  alone : ∀ (w w' id : ℕ) row row', s.workers[w]? = some (.claimed id row) →
    s.workers[w']? = some (.claimed id row') → w = w'

/-- A statement that claims nothing and leaves the rows of the claims as they are. -/
lemma Owned.keep {t} (hs : Owned s) (hrunning : ∀ held, t.Held held → held.2.status = .running)
    (hclaims : ∀ (w id : ℕ) row, t.workers[w]? = some (.claimed id row) →
      s.workers[w]? = some (.claimed id row) ∧ t.jobs[id]? = s.jobs[id]?) : Owned t where
  running := hrunning
  current w id row h := by
    obtain ⟨hclaim, hsame⟩ := hclaims w id row h
    rw [hsame]
    exact hs.current w id row hclaim
  alone w w' id row row' h h' :=
    hs.alone w w' id row row' (hclaims w id row h).1 (hclaims w' id row' h').1

/-- A worker has gone on, or is another one at what it was at before. -/
lemma workers_set {worker w : ℕ} {point point'} (h : (s.workers.set worker point)[w]? = some point') :
    w = worker ∧ point' = point ∨ w ≠ worker ∧ s.workers[w]? = some point' := by
  by_cases heq : w = worker
  · subst heq
    obtain ⟨hlt, hpoint⟩ := List.getElem?_eq_some_iff.1 h
    rw [getElem_set_self] at hpoint
    exact .inl ⟨rfl, hpoint.symm⟩
  · rw [getElem?_set_ne (Ne.symm heq)] at h
    exact .inr ⟨heq, h⟩

lemma claimed_of_set {worker w id : ℕ} {row point} (hpoint : point.claims id = false)
    (h : (s.workers.set worker point)[w]? = some (.claimed id row)) :
    w ≠ worker ∧ s.workers[w]? = some (.claimed id row) := by
  rcases workers_set h with ⟨-, rfl⟩ | hother
  · simp [Point.claims] at hpoint
  · exact hother

/-- Nobody is at a job that is pending, so a worker that claims it is alone at it. -/
lemma Owned.claim {worker id : ℕ} {job row} (hs : Owned s) (hjob : s.jobs[id]? = some job)
    (hpending : job.status = .pending) (hrow : row.status = .running) :
    Owned ⟨s.jobs.set id row, s.workers.set worker (.claimed id row)⟩ := by
  have hfree : ∀ (w : ℕ) row', s.workers[w]? ≠ some (.claimed id row') := by
    intro w row' hclaim
    have hrow := hs.running (id, row') ⟨_, mem_of_getElem? hclaim, mem_singleton_self _⟩
    obtain rfl : row' = job := some.inj ((hs.current w id row' hclaim).symm.trans hjob)
    cases hpending.symm.trans hrow
  refine ⟨fun held hmem => ?_, fun w id' row' hclaim => ?_,
    fun w w' id' row' row'' hclaim hclaim' => ?_⟩
  · rcases held_of_set hmem with hmem | hmem
    · rwa [mem_singleton.1 hmem]
    · exact hs.running held hmem
  · rcases workers_set hclaim with ⟨-, heq⟩ | ⟨-, hclaim⟩
    · cases heq
      exact getElem?_set_self (List.getElem?_eq_some_iff.1 hjob).1
    · have hne : id ≠ id' := by
        rintro rfl
        exact hfree w row' hclaim
      exact (getElem?_set_ne hne).trans (hs.current w id' row' hclaim)
  · rcases workers_set hclaim with ⟨rfl, heq⟩ | ⟨-, hclaim⟩
    · cases heq
      rcases workers_set hclaim' with ⟨rfl, -⟩ | ⟨-, hclaim'⟩
      · rfl
      · exact absurd hclaim' (hfree w' row'')
    · rcases workers_set hclaim' with ⟨-, heq⟩ | ⟨-, hclaim'⟩
      · cases heq
        exact absurd hclaim (hfree w row')
      · exact hs.alone w w' id' row' row'' hclaim hclaim'

/-- A worker ends the job that it is at. -/
lemma Owned.finish {t worker write} (hs : Owned s) (h : s.finish worker write = some t)
    (hends : ∀ row, Ends row (write row)) : Writes s t.jobs ∧ Owned t := by
  rw [System.finish] at h
  split at h
  · next ended row hworker =>
    cases h
    have hheld : s.Held (ended, row) := ⟨_, mem_of_getElem? hworker, mem_singleton_self _⟩
    refine ⟨.finish (hs.current _ _ _ hworker) (hs.running _ hheld) (hends row),
      hs.keep (fun held hmem => ?_) fun w id row' hclaim => ?_⟩
    · exact hs.running held ((held_of_set hmem).resolve_left not_mem_nil)
    · obtain ⟨hne, hclaim⟩ := claimed_of_set rfl hclaim
      refine ⟨hclaim, getElem?_modify_ne _ _ ?_⟩
      rintro rfl
      exact hne (hs.alone w worker _ _ _ hclaim hworker)
  · cases h

/-- A worker goes on to other rows that are running, and the table stays as it is. -/
lemma Owned.goOn {worker point} (hs : Owned s) (hpoint : ∀ id, point.claims id = false)
    (hrows : ∀ held ∈ point.rows, held.2.status = .running) :
    Writes s s.jobs ∧ Owned { s with workers := s.workers.set worker point } := by
  refine ⟨.nothing, hs.keep (fun held hmem => ?_) fun w id row hclaim =>
    ⟨(claimed_of_set (hpoint id) hclaim).2, rfl⟩⟩
  exact (held_of_set hmem).elim (hrows held) (hs.running held)

/-- What a statement in time does to the table, and who is at which job then. -/
lemma Owned.step {t} (hs : Owned s) (htimely : Timely s action)
    (h : perform s action = some t) : Writes s t.jobs ∧ Owned t := by
  cases action with
  | enqueue =>
    cases h
    refine ⟨.enqueue htimely, hs.keep hs.running fun w id row hclaim => ⟨hclaim, ?_⟩⟩
    exact getElem?_append_left (List.getElem?_eq_some_iff.1 (hs.current w id row hclaim)).1
  | claimNext =>
    rw [perform] at h
    split at h
    · split at h
      · cases h
        exact ⟨.nothing, hs⟩
      · next hnext =>
        cases h
        obtain ⟨hjob, hpending⟩ := nextDue_some hnext
        exact ⟨.claim hjob hpending, hs.claim hjob hpending rfl⟩
    · cases h
  | succeed _ now => exact hs.finish h fun _ => .succeed now
  | retryOrFail _ now message => exact hs.finish h fun _ => .retryOrFail now message
  | failUnhandled _ now => exact hs.finish h fun _ => .failUnhandled now
  | findStale =>
    rw [perform] at h
    split at h
    · cases h
      exact hs.goOn (fun _ => rfl) fun held hmem => (staleRows_mem hmem).2
    · cases h
  | reap _ now =>
    rw [perform] at h
    split at h
    · cases h
      exact hs.goOn (fun _ => rfl) fun held hmem => absurd hmem not_mem_nil
    · next _ row rows hworker =>
      cases h
      simp only [Timely, hworker] at htimely
      have hpoint := mem_of_getElem? hworker
      have hrunning : ∀ held ∈ (_, row) :: rows, held.2.status = .running := fun held hmem =>
        hs.running held ⟨_, hpoint, hmem⟩
      refine ⟨.finish htimely.1 (hrunning _ mem_cons_self) (.retryOrFail now _),
        hs.keep (fun held hmem => ?_) fun w id row hclaim => ?_⟩
      · exact (held_of_set hmem).elim (fun h => hrunning held (mem_cons_of_mem _ h))
          (hs.running held)
      · have hclaim := (claimed_of_set rfl hclaim).2
        refine ⟨hclaim, getElem?_modify_ne _ _ ?_⟩
        rintro rfl
        simpa [Point.claims] using htimely.2 _ (mem_of_getElem? hclaim)
    · cases h
  | crash =>
    cases h
    exact hs.goOn (fun _ => rfl) fun held hmem => absurd hmem not_mem_nil

/-! ## Attempts -/

structure Job.Counted (job : Job) : Prop where
  le : job.attempts ≤ job.maxAttempts
  lt : ¬job.Finished → job.attempts < job.maxAttempts

lemma Ends.counted {job write} (h : Ends job write) (hlt : job.attempts < job.maxAttempts) :
    (write job).Counted := by
  cases h with
  | succeed => exact ⟨hlt.le, fun _ => hlt⟩
  | retryOrFail =>
    rw [Jobs.retryOrFail]
    split
    · exact ⟨Int.add_one_le_of_lt hlt, fun hnot => absurd (.inr rfl) hnot⟩
    · next hmore => exact ⟨(not_le.1 hmore).le, fun _ => not_le.1 hmore⟩
  | failUnhandled => exact ⟨Int.add_one_le_of_lt hlt, fun hnot => absurd (.inr rfl) hnot⟩

/-- Every job is counted rightly, and one that is finished stays as it is. -/
lemma Writes.job (h : Writes s jobs) (hs : ∀ job ∈ s.jobs, job.Counted) {id : ℕ} :
    (∀ job, jobs[id]? = some job → job.Counted) ∧
      ∀ job, s.jobs[id]? = some job → job.Finished → jobs[id]? = some job := by
  cases h with
  | nothing => exact ⟨fun job hjob => hs job (mem_of_getElem? hjob), fun job hjob _ => hjob⟩
  | enqueue hmax =>
    refine ⟨fun job hjob => ?_, fun job hjob _ => ?_⟩
    · rcases mem_append.1 (mem_of_getElem? hjob) with hmem | hmem
      · exact hs job hmem
      · rw [mem_singleton.1 hmem]
        exact ⟨Int.le_of_lt hmax, fun _ => hmax⟩
    · exact (getElem?_append_left (List.getElem?_eq_some_iff.1 hjob).1).trans hjob
  | @claim claimed row _ hrow hpending =>
    have hopen : ¬row.Finished := by simp [Job.Finished, hpending]
    have hlt := (hs row (mem_of_getElem? hrow)).lt hopen
    refine ⟨fun job hjob => ?_, fun job hjob hdone => ?_⟩
    · rcases mem_or_eq_of_mem_set (mem_of_getElem? hjob) with hmem | rfl
      · exact hs job hmem
      · exact ⟨hlt.le, fun _ => hlt⟩
    · refine (getElem?_set_ne ?_).trans hjob
      rintro rfl
      cases hrow.symm.trans hjob
      exact hopen hdone
  | @finish ended row write hrow hrunning hends =>
    have hopen : ¬row.Finished := by simp [Job.Finished, hrunning]
    by_cases heq : ended = id
    · subst heq
      simp only [getElem?_modify_eq, hrow, Option.map_eq_map, Option.map_some, Option.some.injEq,
        forall_eq']
      exact ⟨hends.counted ((hs row (mem_of_getElem? hrow)).lt hopen), fun hdone =>
        absurd hdone hopen⟩
    · rw [getElem?_modify_ne _ _ heq]
      exact ⟨fun job hjob => hs job (mem_of_getElem? hjob), fun job hjob _ => hjob⟩

/-- What holds in every state of a run in time. -/
structure Counted (s : System) : Prop where
  jobs : ∀ job ∈ s.jobs, job.Counted
  owned : Owned s

lemma Counted.step {t} (hs : Counted s) (hstep : timelyMachine.step s t) :
    Counted t ∧ ∀ (id : ℕ) job, s.jobs[id]? = some job → job.Finished → t.jobs[id]? = some job := by
  obtain ⟨_, htimely, hperform⟩ := hstep
  obtain ⟨hwrites, howned⟩ := hs.owned.step htimely hperform
  refine ⟨⟨fun job hmem => ?_, howned⟩, fun id => (hwrites.job hs.jobs).2⟩
  obtain ⟨id, hid⟩ := mem_iff_getElem?.1 hmem
  exact (hwrites.job hs.jobs).1 job hid

lemma counted_reachable (h : timelyMachine.Reachable s) : Counted s := by
  apply h.invariant
  · rintro s ⟨hjobs, hworkers⟩
    have hheld : ∀ held, ¬s.Held held := by
      rintro held ⟨point, hpoint, hrows⟩
      rw [hworkers point hpoint] at hrows
      cases hrows
    have hidle : ∀ (w id : ℕ) row, s.workers[w]? ≠ some (.claimed id row) := fun w id row hclaim =>
      hheld (id, row) ⟨_, mem_of_getElem? hclaim, mem_singleton_self _⟩
    exact ⟨by simp [hjobs], fun held h => absurd h (hheld held),
      fun w id row h => absurd h (hidle w id row),
      fun w _ id row _ h => absurd h (hidle w id row)⟩
  · intro s t _ hs hstep
    exact (hs.step hstep).1

/-- In runs in which a claim is reaped only when no worker is at the job any more, a job that
succeeded or failed stays as it is, and no job is attempted more often than it may be. -/
theorem finished_jobs_stay {s : System} (h : timelyMachine.Reachable s) :
    (∀ t, Relation.ReflTransGen timelyMachine.step s t → ∀ (id : ℕ) job, s.jobs[id]? = some job →
      job.Finished → t.jobs[id]? = some job) ∧ ∀ job ∈ s.jobs, job.attempts ≤ job.maxAttempts := by
  constructor
  · intro t hrun id job hjob hdone
    induction hrun with
    | refl => exact hjob
    | tail hrun hlast ih =>
      obtain ⟨r, hr, hbefore⟩ := h
      have hcounted := counted_reachable ⟨r, hr, hbefore.trans hrun⟩
      exact (hcounted.step hlast).2 id job ih hdone
  · intro job hmem
    exact ((counted_reachable h).jobs job hmem).le

def twoWorkers : System := ⟨[], [.idle, .idle]⟩

/-- The first worker claims a job that may be attempted twice and crashes; the second puts it back,
claims it and fails at it. -/
def recovered : List Action :=
  [.enqueue "kind" "\x7b\x7d" "default" 0 2, .claimNext 0 [] 0, .crash 0, .findStale 1 3600 3600,
    .reap 1 3600 3600, .reap 1 3600 3600, .claimNext 1 [] 3605, .retryOrFail 1 3606 "failed"]

theorem finished_jobs_stay_recovered : ∃ s, timelyMachine.Reachable s ∧
    s.jobs.map (fun job => (job.status, job.attempts)) = [(.failed, 2)] ∧
    ∀ job ∈ s.jobs, job.attempts ≤ job.maxAttempts := by
  have hrun : (recovered.foldlM (fun s action => if Timely s action then perform s action else none)
      twoWorkers).any (fun s =>
        s.jobs.map (fun job => (job.status, job.attempts)) = [(.failed, 2)]) = true := by
    decide +kernel
  obtain ⟨s, hs, hfailed⟩ := (any_eq_true _ _).1 hrun
  have hstart : timelyMachine.Reachable twoWorkers := .start ⟨rfl, by decide⟩
  have hreachable : timelyMachine.Reachable s := by
    refine hstart.run (fun _ action _ hstep => ?_) hs
    rw [ite_none_right_eq_some] at hstep
    exact ⟨action, hstep⟩
  exact ⟨s, hreachable, of_decide_eq_true hfailed, (finished_jobs_stay hreachable).2⟩

/-- The second worker finds the claim too old and gives the job up, while the first is still at
it. -/
def overtaken : List Action :=
  [.enqueue "kind" "\x7b\x7d" "default" 0 1, .claimNext 0 [] 0, .findStale 1 3600 3600,
    .reap 1 3600 3600]

/-- A job that failed succeeds; and a job that failed is counted as attempted once more than it may
be. -/
theorem finished_job_changes : (∃ s t, machine.Reachable s ∧ machine.step s t ∧
      s.jobs.map Job.status = [.failed] ∧ t.jobs.map Job.status = [.succeeded]) ∧
    ∃ s, machine.Reachable s ∧
      s.jobs.map (fun job => (job.attempts, job.maxAttempts)) = [(2, 1)] := by
  have hstart : machine.Reachable twoWorkers := .start ⟨rfl, by decide⟩
  have hrun : ∀ (actions : List Action) t, actions.foldlM perform twoWorkers = some t →
      machine.Reachable t := fun actions t h => hstart.run (fun s action t h => ⟨action, h⟩) h
  refine ⟨⟨_, _, hrun overtaken _ rfl, ⟨.succeed 0 3601, rfl⟩, ?_, ?_⟩,
    ⟨_, hrun (overtaken ++ [.failUnhandled 0 3601]) _ rfl, ?_⟩⟩
  all_goals rfl

end Diamond.Jobs
