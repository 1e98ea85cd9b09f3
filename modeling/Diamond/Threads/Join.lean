import Mathlib.Data.Nat.Notation

/-!
# Joining a thread

Model of `Thread#join` in `thread_invoke_helper` (`src/vm_concurrency.c`), on one thread handle.  A
call holds `join_lock` while it joins, so the calls come one after another.
-/

namespace Diamond.Threads

variable {V : Type}

/-- The fields that a join uses; `error` is that of the thread's VM.  `joins` counts the calls of
`pthread_join`, and is not in the source. -/
structure DiamondThread (V : Type) where
  spawned : Bool
  joined : Bool
  internalFailure : Bool
  raised : Bool
  result : V
  error : String
  joins : ℕ
  deriving DecidableEq, Repr

/-- What a call meets: an interrupt before the thread has finished, the copy of the result or the
reason that it failed, and the memory for the write barrier and for the `ThreadError`. -/
structure Call (V : Type) where
  interrupted : Bool
  copy : V → Except String V
  barrier : Bool
  threadErrorClass : Bool
  allocates : Bool

inductive Answer (V : Type)
  | value (result : V)
  | exception (result : V)
  | raisedThreadError (message : String)
  | threadError
  | interrupted
  | outOfMemory
  deriving DecidableEq, Repr

namespace DiamondThread

/-- The part after the lock is released, of a thread that was joined. -/
def answer (t : DiamondThread V) (c : Call V) : Answer V :=
  if t.internalFailure then
    if !c.threadErrorClass then .threadError
    else if !c.allocates then .outOfMemory
    else .raisedThreadError (if t.error ≠ "" then t.error else "thread failed")
  else if t.raised then .exception t.result
  else .value t.result

def finishJoin (t : DiamondThread V) (c : Call V) : DiamondThread V × Answer V :=
  ({ t with joined := true }, t.answer c)

def join (t : DiamondThread V) (c : Call V) : DiamondThread V × Answer V :=
  if t.joined then (t, t.answer c)
  else if t.spawned && c.interrupted then (t, .interrupted)
  else
    let t := if t.spawned then { t with joins := t.joins + 1 } else t
    if t.internalFailure then t.finishJoin c
    else
      match c.copy t.result with
      | .error reason =>
        finishJoin { t with error := "Thread result " ++ reason, internalFailure := true } c
      | .ok copied =>
        let t := { t with result := copied }
        if c.barrier then t.finishJoin c else (t, .outOfMemory)

def run (t : DiamondThread V) (calls : List (Call V)) : DiamondThread V :=
  calls.foldl (fun t c => (t.join c).1) t

/-- A call that joins the thread records that it did, unless the write barrier fails. -/
def Records (t : DiamondThread V) (c : Call V) : Prop :=
  t.internalFailure = true ∨ (∃ reason, c.copy t.result = .error reason) ∨ c.barrier = true

variable {t : DiamondThread V} {c : Call V}

lemma join_joined (h : t.joined = true) (c : Call V) : t.join c = (t, t.answer c) := by
  rw [join, if_pos h]

lemma run_joined (h : t.joined = true) (calls : List (Call V)) : t.run calls = t := by
  induction calls with
  | nil => rfl
  | cons _ _ ih =>
    rw [run, List.foldl_cons, join_joined h]
    exact ih

lemma run_interrupted {calls} (hjoined : t.joined = false)
    (hspawned : t.spawned = true) (h : ∀ c ∈ calls, c.interrupted = true) : t.run calls = t := by
  induction calls with
  | nil => rfl
  | cons c _ ih =>
    have hjoin : (t.join c).1 = t := by
      simp [join, hjoined, hspawned, h c List.mem_cons_self]
    rw [run, List.foldl_cons, hjoin]
    exact ih fun c hc => h c (List.mem_cons_of_mem _ hc)

/-- The first join of an OS thread. -/
lemma join_first (hjoined : t.joined = false) (hspawned : t.spawned = true)
    (hc : c.interrupted = false) : (t.join c).1.joins = t.joins + 1 ∧ (t.join c).1.spawned = true ∧
      ((t.join c).1.joined = true ↔ t.Records c) := by
  cases hfailure : t.internalFailure with
  | true => simp [join, finishJoin, Records, hjoined, hspawned, hc, hfailure]
  | false =>
    cases hcopy : c.copy t.result with
    | error => simp [join, finishJoin, Records, hjoined, hspawned, hc, hfailure, hcopy]
    | ok =>
      cases hbarrier : c.barrier <;>
        simp [join, finishJoin, Records, hjoined, hspawned, hc, hfailure, hcopy, hbarrier]

/-- After calls that were interrupted, one call joins the thread.  No later call joins it again, and
each answers with the result or the error that was recorded, if and only if that call recorded its
join. -/
theorem join_once_iff (t : DiamondThread V) (before : List (Call V)) (first : Call V)
    (hnew : t.joined = false ∧ t.spawned = true ∧ t.joins = 0)
    (hbefore : ∀ c ∈ before, c.interrupted = true) (hfirst : first.interrupted = false) :
    (∀ later, (t.run (before ++ first :: later)).joins ≤ 1 ∧
      ∀ c, ((t.run (before ++ first :: later)).join c).2 = (t.join first).1.answer c) ↔
    t.Records first := by
  obtain ⟨hjoined, hspawned, hjoins⟩ := hnew
  obtain ⟨hcount, hspawned', hrecords⟩ := join_first hjoined hspawned hfirst
  have hrun (later : List (Call V)) :
      t.run (before ++ first :: later) = (t.join first).1.run later := by
    rw [run, List.foldl_append, List.foldl_cons]
    exact congrArg (fun s => (s.join first).1.run later) (run_interrupted hjoined hspawned hbefore)
  simp only [hrun]
  constructor
  · intro h
    refine Classical.byContradiction fun hnot => ?_
    have hopen := eq_false_of_ne_true (mt hrecords.1 hnot)
    have hagain := (join_first hopen hspawned' hfirst).1
    have hle := (h [first]).1
    rw [run, List.foldl_cons, List.foldl_nil, hagain, hcount, hjoins] at hle
    exact absurd hle (by decide)
  · intro h later
    rw [run_joined (hrecords.2 h), hcount, hjoins]
    refine ⟨Nat.le_refl _, fun c => ?_⟩
    rw [join_joined (hrecords.2 h)]

/-- The result cannot be copied: a second join raises the same error. -/
theorem join_once_uncopied : let t : DiamondThread ℕ := ⟨true, false, false, false, 7, "", 0⟩
    let call : Call ℕ := ⟨false, fun _ => .error "cannot be sent", true, true, true⟩
    (t.run [call]).joins ≤ 1 ∧
      ((t.run [call]).join call).2 = .raisedThreadError "Thread result cannot be sent" := by
  intro t call
  have hfacts := (join_once_iff t [] call ⟨rfl, rfl, rfl⟩ nofun rfl).2 (.inr (.inl ⟨_, rfl⟩)) []
  exact ⟨hfacts.1, hfacts.2 call⟩

/-- The write barrier runs out of memory: the next join joins the thread a second time. -/
theorem join_twice : let t : DiamondThread ℕ := ⟨true, false, false, false, 7, "", 0⟩
    let call (barrier : Bool) : Call ℕ := ⟨false, .ok, barrier, true, true⟩
    (t.join (call false)).2 = .outOfMemory ∧ (t.run [call false, call true]).joins = 2 :=
  ⟨rfl, rfl⟩

end DiamondThread

end Diamond.Threads
