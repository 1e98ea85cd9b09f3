import Diamond.Lib.Transition
import Diamond.Channel.Monitor
import Mathlib.Order.Nat

/-!
# Threads on one channel

The runs of any number of threads that call `send`, `try_send`, `receive`, `try_receive` and `close`
on one channel.  A step starts a call, runs one critical section of a call (`enter`, `resume`), or
ends a sleep without a signal; the steps of different threads interleave in any order.

Calls are numbered in the order in which they are made, and a value travels through the channel with
the number of the call that sent it.  The channel's code is generic in its values, so this tells two
equal values apart without touching what the code does.
-/

namespace Diamond.Channel

variable {T V : Type*}

/-- A value and the call that sent it. -/
@[ext]
structure Message (V : Type*) where
  call : ℕ
  value : V
  deriving DecidableEq, Repr

/-- The operation of call number `call`, with its value marked. -/
def Operation.tag (call : ℕ) : Operation V → Operation (Message V)
  | .send value trying => .send ⟨call, value⟩ trying
  | .receive trying => .receive trying
  | .close => .close

/-- A waiting thread sleeps until it is signalled, or until its time slice or its budget ends (or it
wakes up for no reason, as `pthread_cond_wait` may). -/
inductive Sleep
  | asleep
  | signalled
  | expired
  deriving DecidableEq, Repr

inductive Point (V : Type*)
  | idle
  | called (call : ℕ) (op : Operation V)
  | waiting (call : ℕ) (on : Wait (Message V)) (sleep : Sleep)

/-- The history: calls, what their sections did to the queue, and their results. -/
inductive Entry (V : Type*)
  | called (call : ℕ) (op : Operation V)
  | did (call : ℕ) (event : Event (Message V))
  | returned (call : ℕ) (result : Except Failure (Option (Message V)))

/-- A channel, the threads that use it, the number of calls made so far, and their history. -/
structure State (T V : Type*) where
  channel : DiamondChannel (Message V)
  points : T → Point V
  calls : ℕ
  log : List (Entry V)

def Point.AsleepOn (c : Condition) : Point V → Prop
  | .waiting _ on .asleep => on.condition = c
  | _ => False

instance (c : Condition) : (p : Point V) → Decidable (p.AsleepOn c)
  | .idle => .isFalse id
  | .called _ _ => .isFalse id
  | .waiting _ on .asleep => inferInstanceAs (Decidable (on.condition = c))
  | .waiting _ _ .signalled => .isFalse id
  | .waiting _ _ .expired => .isFalse id

def Point.signal : Point V → Point V
  | .waiting call on _ => .waiting call on .signalled
  | p => p

/-- The wake-ups `ws` take the threads from `ps` to `ps'`.  A signal reaches one of the threads
asleep on the condition variable, whichever the system picks, and is lost if there is none. -/
inductive Woken [DecidableEq T] : List Wake → (T → Point V) → (T → Point V) → Prop
  | nil {ps} : Woken [] ps ps
  | notify {ws ps ps'} (h : Woken ws ps ps') : Woken (.notify :: ws) ps ps'
  | signal {c ws ps ps'} (t : T) (ht : (ps t).AsleepOn c)
      (h : Woken ws (Function.update ps t (ps t).signal) ps') : Woken (.signal c :: ws) ps ps'
  | missed {c ws ps ps'} (hall : ∀ t, ¬(ps t).AsleepOn c) (h : Woken ws ps ps') :
      Woken (.signal c :: ws) ps ps'
  | broadcast {c ws ps ps'}
      (h : Woken ws (fun t => if (ps t).AsleepOn c then (ps t).signal else ps t) ps') :
      Woken (.broadcast c :: ws) ps ps'

def Next.point (call : ℕ) : Next (Message V) → Point V
  | .wait on => .waiting call on .asleep
  | .done _ => .idle

def Next.entries (call : ℕ) : Next (Message V) → List (Entry V)
  | .wait _ => []
  | .done result => [.returned call result]

section
variable [DecidableEq T]

/-- The state after thread `t` ran the section `sec` of its call and woke the threads in `points`.
-/
def State.finish (s : State T V) (t : T) (call : ℕ) (sec : Section (Message V))
    (points : T → Point V) : State T V :=
  { s with
    channel := sec.channel
    points := Function.update points t (sec.next.point call)
    log := s.log ++ (sec.events.map (.did call) ++ sec.next.entries call) }

inductive Step (s : State T V) : State T V → Prop
  | call (t : T) (op : Operation V) (ht : s.points t = .idle) :
      Step s { s with
        points := Function.update s.points t (.called s.calls op)
        calls := s.calls + 1
        log := s.log ++ [.called s.calls op] }
  | enter {call op points} (t : T) (copy : Option CopyFailure) (ht : s.points t = .called call op)
      (hwoken : Woken (enter s.channel copy (op.tag call)).wakes s.points points) :
      Step s (s.finish t call (enter s.channel copy (op.tag call)) points)
  | expire {call on} (t : T) (ht : s.points t = .waiting call on .asleep) :
      Step s { s with points := Function.update s.points t (.waiting call on .expired) }
  -- A signalled `channel_wait_bounded` returns `DIAMOND_VM_OK`; one whose time ran out returns what
  -- the interrupt flag and the wall-clock budget say.
  | resume {call on sleep points} (t : T) (status : Option WaitFailure)
      (copy : Option CopyFailure) (ht : s.points t = .waiting call on sleep)
      (hsleep : sleep ≠ .asleep) (hstatus : sleep = .signalled → status = none)
      (hwoken : Woken (resume s.channel status copy on).wakes s.points points) :
      Step s (s.finish t call (resume s.channel status copy on) points)

def machine (T V : Type*) [DecidableEq T] : Machine (State T V) where
  initial s := (∃ n, channelNew (Message V) n = .ok s.channel) ∧ (∀ t, s.points t = .idle) ∧
    s.calls = 0 ∧ s.log = []
  step := Step

end

/-! ## What one step changes -/

def Point.phase : Point V → Option (ℕ × Phase (Message V))
  | .idle => none
  | .called call op => some (call, (op.tag call).phase)
  | .waiting call on _ => some (call, on.phase)

def State.phases (s : State T V) (t : T) : Option (ℕ × Phase (Message V)) := (s.points t).phase

def Next.phase (call : ℕ) : Next (Message V) → Option (ℕ × Phase (Message V))
  | .wait on => some (call, on.phase)
  | .done _ => none

@[simp]
lemma Point.phase_signal (p : Point V) : p.signal.phase = p.phase := by
  cases p <;> rfl

@[simp]
lemma Next.phase_point (call : ℕ) (next : Next (Message V)) :
    (next.point call).phase = next.phase call := by
  cases next <;> rfl

variable [DecidableEq T]

lemma Woken.phase {ws} {ps ps' : T → Point V} (h : Woken ws ps ps') (t : T) :
    (ps' t).phase = (ps t).phase := by
  induction h with
  | nil => rfl
  | notify _ ih => exact ih
  | @signal _ _ _ _ u _ _ ih =>
    rw [ih]
    by_cases htu : t = u
    · subst htu
      simp
    · rw [Function.update_of_ne htu]
  | missed _ _ ih => exact ih
  | broadcast _ ih =>
    rw [ih]
    dsimp only
    split <;> simp

/-- A step seen from the channel, the history and the phases: a call begins, a call acts on the
channel, or nothing that they show. -/
inductive Moves (s s' : State T V) : Prop
  | begins (t : T) (op : Operation V) (hidle : s.phases t = none)
      (hchannel : s'.channel = s.channel) (hcalls : s'.calls = s.calls + 1)
      (hlog : s'.log = s.log ++ [.called s.calls op])
      (hphases : s'.phases = Function.update s.phases t (some (s.calls, (op.tag s.calls).phase)))
  | acts (t : T) (call : ℕ) (p : Phase (Message V)) (events : List (Event (Message V)))
      (next : Next (Message V)) (hphase : s.phases t = some (call, p))
      (hact : Act s.channel p s'.channel events next) (hcalls : s'.calls = s.calls)
      (hlog : s'.log = s.log ++ (events.map (.did call) ++ next.entries call))
      (hphases : s'.phases = Function.update s.phases t (next.phase call))
  | stutters (hchannel : s'.channel = s.channel) (hcalls : s'.calls = s.calls)
      (hlog : s'.log = s.log) (hphases : s'.phases = s.phases)

lemma phase_update (points : T → Point V) (t : T) (p : Point V) :
    (fun u => (Function.update points t p u).phase) =
      Function.update (fun u => (points u).phase) t p.phase := by
  funext u
  by_cases hut : u = t
  · subst hut
    simp
  · simp [Function.update_of_ne hut]

lemma State.finish_moves (s : State T V) (t : T) (call : ℕ) (p : Phase (Message V))
    (sec : Section (Message V)) (points : T → Point V) (hphase : s.phases t = some (call, p))
    (hacts : sec.Acts s.channel p) (hwoken : Woken sec.wakes s.points points) :
    Moves s (s.finish t call sec points) := by
  refine .acts t call p sec.events sec.next hphase hacts rfl rfl ?_
  have hpoints : (fun u => (points u).phase) = s.phases := funext hwoken.phase
  rw [← hpoints, ← Next.phase_point]
  exact phase_update points t _

lemma Step.moves {s s' : State T V} (h : Step s s') : Moves s s' := by
  cases h with
  | call t op ht =>
    refine .begins t op ?_ rfl rfl rfl (phase_update s.points t _)
    simp [State.phases, ht, Point.phase]
  | enter t _ ht hwoken =>
    refine s.finish_moves t _ _ _ _ ?_ (enter_acts _ _ _) hwoken
    simp [State.phases, ht, Point.phase]
  | expire t ht =>
    refine .stutters rfl rfl rfl ?_
    refine (phase_update s.points t _).trans (Function.update_eq_self_iff.2 ?_)
    rw [ht]
    rfl
  | resume t _ _ ht _ _ hwoken =>
    refine s.finish_moves t _ _ _ _ ?_ (resume_acts _ _ _ _) hwoken
    simp [State.phases, ht, Point.phase]

end Diamond.Channel
