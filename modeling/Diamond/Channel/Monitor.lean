import Mathlib.Data.List.Basic
import Mathlib.Data.Int.Basic

/-!
# The channel monitor

Model of `channel_send_helper`, `channel_receive_helper` and the `close` branch of
`channel_invoke_helper` in `src/vm_concurrency.c`, and of `Channel.new` (`outlined_channel_new` in
`src/vm_outlined.c`).

Every access to a `DiamondChannel` happens with its lock held, so a call is a sequence of critical
sections: the first runs from the call's `pthread_mutex_lock` to its first wait or to its
`pthread_mutex_unlock`, each later one from the return of a wait to the next wait or unlock.  A
section is a pure function of the channel and of what the environment decides during it: the result
of `copy_value_into_vm` and the status `channel_wait_bounded` returned.  It gives the channel it
leaves, the wake-ups it sends, and where the call stands afterwards.

A section also writes down, in `events`, what it does to the queue.  The events are not part of the
source; they are the history that the properties of whole runs are about.

The first `count` slots of `queue` are a list, and the `uint64_t` counters `sent` and `taken` are
natural numbers (no run performs `2 ^ 64` sends).  The descriptors of `notify_channel_waiters`, the
private VM and the reference count are left out.
-/

namespace Diamond.Channel

inductive Condition
  | notEmpty
  | notFull
  deriving DecidableEq, Repr

/-- The wake-ups a section sends: `pthread_cond_signal`, `pthread_cond_broadcast`, and
`notify_channel_waiters` for the threads polling in `Channel.select`. -/
inductive Wake
  | signal (condition : Condition)
  | broadcast (condition : Condition)
  | notify
  deriving DecidableEq, Repr

/-- The statuses other than `DIAMOND_VM_OK` that `channel_wait_bounded` returns. -/
inductive WaitFailure
  | interrupted
  | resourceLimitError
  | resourceExhausted
  deriving DecidableEq, Repr

inductive CopyFailure
  | tooDeep
  | unsupported
  deriving DecidableEq, Repr

def CopyFailure.reason : CopyFailure → String
  | .tooDeep => "is nested too deeply to copy (or contains itself)"
  | .unsupported => "does not support this type"

/-- The failures of a channel operation, with the text left in `vm->error`. -/
inductive Failure
  | wouldBlock (error : String)
  | ioError (error : String)
  | typeError (error : String)
  | wait (status : WaitFailure)
  deriving DecidableEq, Repr

structure DiamondChannel (V : Type*) where
  capacity : ℕ
  queue : List V
  closed : Bool
  rendezvous : Bool
  sent : ℕ
  taken : ℕ
  receiversWaiting : ℕ
  deriving DecidableEq, Repr

inductive Event (V : Type*)
  | accepted (value : V)
  | withdrawn (values : List V)
  | taken (value : V)
  deriving DecidableEq, Repr

/-- The three waits, with the locals of the call that outlive them: for room in the queue, for a
receiver to take the value queued as number `sequence`, and for a value. -/
inductive Wait (V : Type*)
  | room (value : V)
  | handoff (value : V) (sequence : ℕ)
  | item
  deriving DecidableEq, Repr

def Wait.condition {V : Type*} : Wait V → Condition
  | .room _ => .notFull
  | .handoff _ _ => .notFull
  | .item => .notEmpty

/-- How a section ends.  The result `none` is `nil`. -/
inductive Next (V : Type*)
  | wait (on : Wait V)
  | done (result : Except Failure (Option V))

structure Section (V : Type*) where
  channel : DiamondChannel V
  wakes : List Wake
  events : List (Event V)
  next : Next V

/-- The calls on a channel; `trying` tells `try_send` and `try_receive` from `send` and
`receive`. -/
inductive Operation (V : Type*)
  | send (value : V) (trying : Bool)
  | receive (trying : Bool)
  | close
  deriving DecidableEq, Repr

variable {V : Type*}

def DiamondChannel.count (c : DiamondChannel V) : ℕ := c.queue.length

/-- `Channel.new(n)`: a capacity of zero makes a rendezvous channel with a single slot. -/
def channelNew (V : Type*) (n : ℤ) : Except Failure (DiamondChannel V) :=
  if n < 0 ∨ 1000000 < n then
    .error (.typeError
      "Channel.new's argument must be an Int capacity between 0 (a rendezvous channel) and 1,000,000")
  else
    .ok {
      capacity := if n = 0 then 1 else n.toNat
      queue := []
      closed := false
      rendezvous := n = 0
      sent := 0
      taken := 0
      receiversWaiting := 0 }

/-- The second loop of `channel_send_helper` and what follows it: the handoff of the value queued as
number `sequence`, with the status of the last wait. -/
def handoffLoop (c : DiamondChannel V) (value : V) (trying : Bool) (sequence : ℕ)
    (status : Option WaitFailure) : Section V :=
  if c.rendezvous ∧ ¬trying ∧ c.taken < sequence ∧ ¬c.closed ∧ status = none then
    ⟨c, [], [], .wait (.handoff value sequence)⟩
  else if c.rendezvous ∧ ¬trying ∧ c.taken < sequence then
    -- `count=0` drops whatever the queue holds.
    ⟨{ c with queue := [], sent := c.sent - 1 }, [.broadcast .notFull, .notify],
      [.withdrawn c.queue],
      .done (.error (match status with
        | some failure => .wait failure
        | none => .ioError "channel is closed"))⟩
  else
    ⟨c, [], [], .done (.ok none)⟩

/-- `queue[count++]=copied; sequence=++sent`. -/
def DiamondChannel.push (c : DiamondChannel V) (value : V) : DiamondChannel V :=
  { c with queue := c.queue ++ [value], sent := c.sent + 1 }

def sendQueue (c : DiamondChannel V) (value : V) (trying : Bool) (copy : Option CopyFailure) :
    Section V :=
  if c.closed then
    ⟨c, [], [], .done (.error (.ioError "channel is closed"))⟩
  else
    match copy with
    | some failure =>
      ⟨c, [], [], .done (.error (.typeError ("Channel#send argument " ++ failure.reason)))⟩
    | none =>
      let handoff := handoffLoop (c.push value) value trying (c.push value).sent none
      { handoff with
        wakes := [.notify, .signal .notEmpty] ++ handoff.wakes
        events := [.accepted value] ++ handoff.events }

def sendLoop (c : DiamondChannel V) (value : V) (trying : Bool) (copy : Option CopyFailure) : Section V :=
  if (c.count = c.capacity ∨ (trying ∧ c.rendezvous ∧ c.receiversWaiting = 0)) ∧ ¬c.closed then
    if trying then
      ⟨c, [], [], .done (.error (.wouldBlock "channel send would block"))⟩
    else
      ⟨c, [], [], .wait (.room value)⟩
  else
    sendQueue c value trying copy

/-- `channel_send_helper` from the return of a wait of its first loop. -/
def sendResume (c : DiamondChannel V) (value : V) (status : Option WaitFailure)
    (copy : Option CopyFailure) : Section V :=
  match status with
  | some failure => ⟨c, [], [], .done (.error (.wait failure))⟩
  | none => sendLoop c value false copy

def receiveTake (c : DiamondChannel V) (copy : Option CopyFailure) : Section V :=
  match c.queue with
  | [] => ⟨c, [], [], .done (.ok none)⟩
  | value :: rest =>
    match copy with
    | some failure =>
      ⟨c, [], [], .done (.error (.typeError ("Channel#receive result " ++ failure.reason)))⟩
    | none =>
      ⟨{ c with queue := rest, taken := c.taken + 1 },
        [.notify, if c.rendezvous then .broadcast .notFull else .signal .notFull],
        [.taken value], .done (.ok (some value))⟩

def receiveLoop (c : DiamondChannel V) (trying : Bool) (copy : Option CopyFailure) : Section V :=
  if c.count = 0 ∧ ¬c.closed then
    if trying then
      ⟨c, [], [], .done (.error (.wouldBlock "channel receive would block"))⟩
    else
      ⟨{ c with receiversWaiting := c.receiversWaiting + 1 },
        if c.rendezvous then [.notify] else [], [], .wait .item⟩
  else
    receiveTake c copy

def receiveResume (c : DiamondChannel V) (status : Option WaitFailure) (copy : Option CopyFailure) :
    Section V :=
  let c := { c with receiversWaiting := c.receiversWaiting - 1 }
  match status with
  | some failure => ⟨c, [], [], .done (.error (.wait failure))⟩
  | none => receiveLoop c false copy

def close (c : DiamondChannel V) : Section V :=
  if c.closed then
    ⟨c, [], [], .done (.ok none)⟩
  else
    ⟨{ c with closed := true }, [.notify, .broadcast .notEmpty, .broadcast .notFull], [],
      .done (.ok none)⟩

def enter (c : DiamondChannel V) (copy : Option CopyFailure) : Operation V → Section V
  | .send value trying => sendLoop c value trying copy
  | .receive trying => receiveLoop c trying copy
  | .close => close c

def resume (c : DiamondChannel V) (status : Option WaitFailure) (copy : Option CopyFailure) :
    Wait V → Section V
  | .room value => sendResume c value status copy
  | .handoff value sequence => handoffLoop c value false sequence status
  | .item => receiveResume c status copy

inductive Phase (V : Type*)
  | pending (value : V) (trying : Bool)
  | handoff (value : V) (sequence : ℕ)
  | receiving
  | closing

def Operation.phase : Operation V → Phase V
  | .send value trying => .pending value trying
  | .receive _ => .receiving
  | .close => .closing

def Wait.phase : Wait V → Phase V
  | .room value => .pending value false
  | .handoff value sequence => .handoff value sequence
  | .item => .receiving

/-- Everything a critical section can do: `Act c p c' events next` when a call in phase `p` finds
the channel `c` and leaves `c'`.  The number of parked receivers (`r`) is not tracked. -/
inductive Act (c : DiamondChannel V) : Phase V → DiamondChannel V → List (Event V) → Next V → Prop
  | refused {p} (failure : Failure) (r : ℕ)
      (hp : (∃ v trying, p = .pending v trying) ∨ p = .receiving) :
      Act c p { c with receiversWaiting := r } [] (.done (.error failure))
  | blocked {v} : Act c (.pending v false) c [] (.wait (.room v))
  | queued {v trying} (hopen : c.closed = false) (hroom : c.count ≠ c.capacity)
      (hend : c.rendezvous = true → trying = false → c.sent < c.taken) :
      Act c (.pending v trying) (c.push v) [.accepted v] (.done (.ok none))
  | offered {v} (hopen : c.closed = false) (hroom : c.count ≠ c.capacity)
      (hrendezvous : c.rendezvous = true) :
      Act c (.pending v false) (c.push v) [.accepted v] (.wait (.handoff v (c.sent + 1)))
  | untaken {v n} : Act c (.handoff v n) c [] (.wait (.handoff v n))
  | withdrew {v n} (failure : Failure) (htaken : c.taken < n) :
      Act c (.handoff v n) { c with queue := [], sent := c.sent - 1 } [.withdrawn c.queue]
        (.done (.error failure))
  | completed {v n} (htaken : c.rendezvous = true → n ≤ c.taken) :
      Act c (.handoff v n) c [] (.done (.ok none))
  | parked (r : ℕ) : Act c .receiving { c with receiversWaiting := r } [] (.wait .item)
  | drained (r : ℕ) (hqueue : c.queue = []) (hclosed : c.closed = true) :
      Act c .receiving { c with receiversWaiting := r } [] (.done (.ok none))
  | took {v rest} (r : ℕ) (hqueue : c.queue = v :: rest) :
      Act c .receiving { c with queue := rest, taken := c.taken + 1, receiversWaiting := r }
        [.taken v] (.done (.ok (some v)))
  | closed (hopen : c.closed = false) :
      Act c .closing { c with closed := true } [] (.done (.ok none))
  | closedAlready (hclosed : c.closed = true) : Act c .closing c [] (.done (.ok none))

def Section.Acts (c : DiamondChannel V) (p : Phase V) (s : Section V) : Prop :=
  Act c p s.channel s.events s.next

variable (c : DiamondChannel V) (value : V)

lemma handoffLoop_acts (n : ℕ) (status : Option WaitFailure) :
    (handoffLoop c value false n status).Acts c (.handoff value n) := by
  unfold handoffLoop
  split
  case isTrue => exact .untaken
  case isFalse =>
    split
    case isTrue h => exact .withdrew _ h.2.2
    case isFalse h =>
      refine .completed fun hr => ?_
      by_contra hn
      exact h ⟨hr, by simp, by omega⟩

variable (trying : Bool)

/-- At its first test, with no failed wait behind it and the channel open, the handoff loop either
waits or is not for this send. -/
lemma handoffLoop_start (n : ℕ) (hopen : c.closed = false) : handoffLoop c value trying n none =
      if c.rendezvous ∧ ¬trying ∧ c.taken < n then ⟨c, [], [], .wait (.handoff value n)⟩
      else ⟨c, [], [], .done (.ok none)⟩ := by
  by_cases h : c.rendezvous ∧ ¬trying ∧ c.taken < n
  · have hloop : c.rendezvous ∧ ¬trying ∧ c.taken < n ∧ ¬c.closed ∧
        (none : Option WaitFailure) = none := ⟨h.1, h.2.1, h.2.2, by simp [hopen], rfl⟩
    rw [handoffLoop, if_pos hloop, if_pos h]
  · have hloop : ¬(c.rendezvous ∧ ¬trying ∧ c.taken < n ∧ ¬c.closed ∧
        (none : Option WaitFailure) = none) := fun hloop => h ⟨hloop.1, hloop.2.1, hloop.2.2.1⟩
    rw [handoffLoop, if_neg hloop, if_neg h, if_neg h]

variable (copy : Option CopyFailure)

lemma sendQueue_acts (hroom : c.closed = false → c.count ≠ c.capacity) :
    (sendQueue c value trying copy).Acts c (.pending value trying) := by
  unfold sendQueue
  split
  case isTrue => exact .refused _ c.receiversWaiting (by simp)
  case isFalse hopen =>
    have hopen : c.closed = false := by simpa using hopen
    cases copy with
    | some => exact .refused _ c.receiversWaiting (by simp)
    | none =>
      rw [handoffLoop_start _ _ _ _ (by exact hopen)]
      by_cases h : (c.push value).rendezvous ∧ ¬trying ∧ (c.push value).taken < (c.push value).sent
      · obtain rfl : trying = false := by simpa using h.2.1
        simp only [if_pos h]
        exact .offered hopen (hroom hopen) h.1
      · simp only [if_neg h]
        refine .queued hopen (hroom hopen) fun hr htry => ?_
        by_contra hn
        exact h ⟨hr, by simp [htry], by simp only [DiamondChannel.push]; omega⟩

lemma sendLoop_acts : (sendLoop c value trying copy).Acts c (.pending value trying) := by
  unfold sendLoop
  split
  case isTrue =>
    cases trying with
    | true => exact .refused _ c.receiversWaiting (by simp)
    | false => exact .blocked
  case isFalse h =>
    refine sendQueue_acts c value trying copy fun hopen hfull => h ⟨.inl hfull, by simp [hopen]⟩

/-- What follows the loop of a receive that finds the channel closed or not empty; `r` is the number
of parked receivers when the section began. -/
lemma receiveTake_acts (r : ℕ) (copy : Option CopyFailure) (h : c.queue = [] → c.closed = true) :
    (receiveTake { c with receiversWaiting := r } copy).Acts c .receiving := by
  unfold receiveTake
  cases hqueue : c.queue with
  | nil =>
    have := Act.drained r hqueue (h hqueue)
    simpa [Section.Acts, hqueue] using this
  | cons =>
    cases copy with
    | some failure =>
      have := Act.refused (c := c) (p := .receiving)
        (.typeError ("Channel#receive result " ++ failure.reason)) r (by simp)
      simpa [Section.Acts, hqueue] using this
    | none => exact .took r hqueue

lemma receiveLoop_acts (r : ℕ) (trying : Bool) (copy : Option CopyFailure) :
    (receiveLoop { c with receiversWaiting := r } trying copy).Acts c .receiving := by
  unfold receiveLoop
  split
  case isTrue =>
    cases trying with
    | true => exact .refused _ r (by simp)
    | false => exact .parked (r + 1)
  case isFalse h =>
    refine receiveTake_acts c r copy fun hqueue => ?_
    by_contra hopen
    exact h ⟨by simp [DiamondChannel.count, hqueue], hopen⟩

lemma enter_acts (op : Operation V) : (enter c copy op).Acts c op.phase := by
  cases op with
  | send value trying => exact sendLoop_acts c value trying copy
  | receive trying => exact receiveLoop_acts c c.receiversWaiting trying copy
  | close =>
    simp only [enter, close, Operation.phase]
    split
    case isTrue h => exact .closedAlready h
    case isFalse h => exact .closed (by simpa using h)

lemma resume_acts (status : Option WaitFailure) (copy : Option CopyFailure) (w : Wait V) :
    (resume c status copy w).Acts c w.phase := by
  cases w with
  | room value =>
    cases status with
    | some => exact .refused _ c.receiversWaiting (by simp [Wait.phase])
    | none => exact sendLoop_acts c value false copy
  | handoff value n => exact handoffLoop_acts c value n status
  | item =>
    cases status with
    | some => exact .refused _ _ (by simp [Wait.phase])
    | none => exact receiveLoop_acts c _ false copy

end Diamond.Channel
