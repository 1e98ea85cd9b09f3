import Diamond.Channel.Safety
import Mathlib.Data.Finset.Card
import Mathlib.Tactic.FinCases

/-!
# Wake-ups of channels

A signal wakes one thread and is used up by it.  What keeps the others from sleeping on is that the
thread either takes what it was woken for, or finds that it is gone.  `Covered` counts: while a
thread sleeps, as many threads are woken as there are free slots or queued values.

A woken `send` or `receive` whose copy of the value fails does neither.
-/

namespace Diamond.Channel

open Finset DiamondChannel

attribute [local simp] State.finish sendQueue

variable {T V : Type*}

inductive Resource
  | room
  | item
  deriving DecidableEq, Repr

/-- The resource that ends a wait; a handoff waits for its own value to be taken. -/
def Wait.resource : Wait V → Option Resource
  | .room _ => some .room
  | .handoff _ _ => none
  | .item => some .item

def Resource.condition : Resource → Condition
  | .room => .notFull
  | .item => .notEmpty

attribute [local simp] Resource.condition

/-- The free slots, or the queued values. -/
def DiamondChannel.available (c : DiamondChannel V) : Resource → ℕ
  | .room => c.capacity - c.count
  | .item => c.count

def Point.Sleeps (r : Resource) (p : Point V) : Prop :=
  ∃ call on, p = .waiting call on .asleep ∧ on.resource = some r

/-- The thread was waiting for `r` and has been signalled: it is due to take the lock. -/
def Point.Woke (r : Resource) (p : Point V) : Prop :=
  ∃ call on, p = .waiting call on .signalled ∧ on.resource = some r

lemma Wait.condition_of_resource {on : Wait V} {r : Resource} (h : on.resource = some r) :
    on.condition = r.condition := by
  cases on with
  | room | item =>
    cases h
    rfl
  | handoff => cases h

variable {p : Point V}

lemma Point.asleepOn_iff {c} :
    p.AsleepOn c ↔ ∃ call on, p = .waiting call on .asleep ∧ on.condition = c := by
  constructor
  · intro h
    cases p with
    | idle | called => exact h.elim
    | waiting call on sleep =>
      cases sleep with
      | asleep => exact ⟨call, on, rfl, h⟩
      | signalled | expired => exact h.elim
  · rintro ⟨call, on, rfl, h⟩
    exact h

lemma Point.signal_ne_asleep {call on} : p.signal ≠ .waiting call on .asleep := by
  cases p with
  | idle | called | waiting => exact fun h => (by cases h)

lemma Point.Sleeps.asleepOn {r} (h : p.Sleeps r) : p.AsleepOn r.condition := by
  obtain ⟨call, on, rfl, hon⟩ := h
  exact Wait.condition_of_resource hon

/-! ## What wake-ups do to the threads -/

section Woken

variable [DecidableEq T] {ws : List Wake} {ps ps' : T → Point V} {c : Condition} {t : T}
  {call : ℕ} {on : Wait (Message V)}

/-- A signal to another thread, or to one that does not sleep, leaves a sleeper alone. -/
lemma asleep_of_update {u} (h : Function.update ps u (ps u).signal t = .waiting call on .asleep) :
    ps t = .waiting call on .asleep := by
  by_cases htu : t = u
  · rw [htu, Function.update_self] at h
    exact absurd h Point.signal_ne_asleep
  · rwa [Function.update_of_ne htu] at h

omit [DecidableEq T] in
lemma asleep_of_broadcast
    (h : (if (ps t).AsleepOn c then (ps t).signal else ps t) = .waiting call on .asleep) :
    ¬(ps t).AsleepOn c ∧ ps t = .waiting call on .asleep := by
  split at h
  case isTrue => exact absurd h Point.signal_ne_asleep
  case isFalse hnot => exact ⟨hnot, h⟩

section
variable (h : Woken ws ps ps')
include h

lemma Woken.asleep (ht : ps' t = .waiting call on .asleep) : ps t = .waiting call on .asleep := by
  induction h with
  | nil => exact ht
  | notify _ ih | missed _ _ ih => exact ih ht
  | signal u _ _ ih => exact asleep_of_update (ih ht)
  | broadcast _ ih => exact (asleep_of_broadcast (ih ht)).2

lemma Woken.signalled (ht : ps t = .waiting call on .signalled) :
    ps' t = .waiting call on .signalled := by
  induction h with
  | nil => exact ht
  | notify _ ih | missed _ _ ih => exact ih ht
  | @signal _ _ _ _ u _ _ ih =>
    apply ih
    by_cases htu : t = u
    · rw [htu] at ht ⊢
      rw [Function.update_self, ht]
      rfl
    · rwa [Function.update_of_ne htu]
  | @broadcast _ _ _ _ _ ih =>
    apply ih
    dsimp only
    split
    · rw [ht]
      rfl
    · exact ht

lemma Woken.asleepOn (ht : (ps' t).AsleepOn c) : (ps t).AsleepOn c := by
  obtain ⟨call, on, hp, hon⟩ := Point.asleepOn_iff.1 ht
  exact Point.asleepOn_iff.2 ⟨call, on, h.asleep hp, hon⟩

lemma Woken.of_broadcast (hws : .broadcast c ∈ ws) : ¬(ps' t).AsleepOn c := by
  induction h with
  | nil => cases hws
  | notify _ ih | signal u _ _ ih | missed _ _ ih =>
    cases hws with
    | tail _ hws => exact ih hws
  | @broadcast _ _ _ _ h ih =>
    cases hws with
    | head =>
      intro hasleep
      obtain ⟨call, on, hp, hon⟩ := Point.asleepOn_iff.1 (h.asleepOn hasleep)
      obtain ⟨hnot, hps⟩ := asleep_of_broadcast hp
      exact hnot (Point.asleepOn_iff.2 ⟨call, on, hps, hon⟩)
    | tail _ hws => exact ih hws

/-- A signal wakes a thread that sleeps on the condition variable, if there is one. -/
lemma Woken.of_signal (hws : .signal c ∈ ws) (hsleeper : (ps' t).AsleepOn c) :
    ∃ u call on, ps u = .waiting call on .asleep ∧ on.condition = c ∧
      ps' u = .waiting call on .signalled := by
  induction h with
  | nil => cases hws
  | notify _ ih =>
    cases hws with
    | tail _ hws => exact ih hws hsleeper
  | @signal _ _ _ _ u hu h ih =>
    cases hws with
    | head =>
      obtain ⟨call, on, hp, hon⟩ := Point.asleepOn_iff.1 hu
      refine ⟨u, call, on, hp, hon, h.signalled ?_⟩
      rw [Function.update_self, hp]
      rfl
    | tail _ hws =>
      obtain ⟨v, call, on, hv, hon, hv'⟩ := ih hws hsleeper
      exact ⟨v, call, on, asleep_of_update hv, hon, hv'⟩
  | @missed _ _ _ _ hall h ih =>
    cases hws with
    | head => exact absurd (h.asleepOn hsleeper) (hall t)
    | tail _ hws => exact ih hws hsleeper
  | @broadcast _ _ _ _ _ ih =>
    cases hws with
    | tail _ hws =>
      obtain ⟨v, call, on, hv, hon, hv'⟩ := ih hws hsleeper
      exact ⟨v, call, on, (asleep_of_broadcast hv).2, hon, hv'⟩

end

end Woken

/-! ## What a section does to a resource -/

/-- The section makes no more of `r`, or one more and signals, or it wakes everyone.  The slot that
a receive frees in a rendezvous channel is announced to everyone. -/
def Section.Announces (c : DiamondChannel V) (r : Resource) (sec : Section V) : Prop :=
  sec.channel.available r ≤ c.available r ∨ .broadcast r.condition ∈ sec.wakes ∨
    (sec.channel.available r ≤ c.available r + 1 ∧ .signal r.condition ∈ sec.wakes ∧
      (r = .item ∨ c.rendezvous = false))

/-- A section waits only for a resource that it found used up. -/
def Section.Waits (r : Resource) (sec : Section V) : Prop :=
  ∀ on, sec.next = .wait on → on.resource = some r → sec.channel.available r = 0

/-- The section uses up one of `r`, or leaves none, or leaves the channel closed. -/
def Section.Uses (c : DiamondChannel V) (r : Resource) (sec : Section V) : Prop :=
  sec.channel.closed = true ∨ sec.channel.available r = 0 ∨
    sec.channel.available r + 1 ≤ c.available r

section Sections

variable (c : DiamondChannel V) (r : Resource) (value : V) (trying : Bool)
  (copy : Option CopyFailure) (status : Option WaitFailure)

@[simp]
lemma available_push_room : (c.push value).available .room = c.available .room - 1 := by
  simp only [available, push, count, List.length_append, List.length_singleton]
  omega

@[simp]
lemma available_push_item : (c.push value).available .item = c.available .item + 1 := by
  simp [available, push, count]

lemma handoffLoop_announces (n : ℕ) : (handoffLoop c value trying n status).Announces c r := by
  unfold handoffLoop
  split
  case isTrue => exact .inl le_rfl
  case isFalse =>
    split
    case isTrue =>
      cases r with
      | room => exact .inr (.inl (by simp))
      | item => exact .inl (Nat.zero_le _)
    case isFalse => exact .inl le_rfl

lemma handoffLoop_waits (n : ℕ) : (handoffLoop c value trying n status).Waits r := by
  intro _ hnext hon
  unfold handoffLoop at hnext
  split at hnext
  case isTrue =>
    cases hnext
    cases hon
  case isFalse =>
    split at hnext
    case isTrue | isFalse => cases hnext

/-- A send that finds room and copies its value queues it and signals the receivers. -/
lemma sendQueue_pushes (hopen : c.closed = false) :
    (sendQueue c value trying none).channel = c.push value ∧
      .signal .notEmpty ∈ (sendQueue c value trying none).wakes := by
  have hstart := handoffLoop_start (c.push value) value trying (c.push value).sent hopen
  constructor
  · simp only [sendQueue, hopen, Bool.false_eq_true, if_false, hstart]
    split
    all_goals rfl
  · simp [hopen]

lemma sendQueue_announces : (sendQueue c value trying copy).Announces c r := by
  cases hclosed : c.closed with
  | true => exact .inl (by simp [hclosed])
  | false =>
    cases copy with
    | some => exact .inl (by simp [hclosed])
    | none =>
      obtain ⟨hchannel, hsignal⟩ := sendQueue_pushes c value trying hclosed
      cases r with
      | room =>
        left
        rw [hchannel, available_push_room]
        exact Nat.sub_le _ _
      | item =>
        refine .inr (.inr ⟨?_, hsignal, .inl rfl⟩)
        rw [hchannel, available_push_item]

lemma sendQueue_waits : (sendQueue c value trying copy).Waits r := by
  unfold sendQueue
  split
  case isTrue => exact fun _ hnext => by cases hnext
  case isFalse =>
    cases copy with
    | some => exact fun _ hnext => by cases hnext
    | none => exact handoffLoop_waits (c.push value) r value trying none (c.push value).sent

lemma sendLoop_announces : (sendLoop c value trying copy).Announces c r := by
  unfold sendLoop
  split
  case isTrue =>
    cases trying with
    | true | false => exact .inl le_rfl
  case isFalse => exact sendQueue_announces c r value trying copy

lemma sendLoop_waits : (sendLoop c value trying copy).Waits r := by
  unfold sendLoop
  split
  case isTrue hfull =>
    cases trying with
    | true => exact fun _ hnext => by cases hnext
    | false =>
      intro _ hnext hon
      cases hnext
      cases hon
      have hcount : c.count = c.capacity := by simpa using hfull.1
      simp [available, hcount]
  case isFalse => exact sendQueue_waits c r value trying copy

lemma receiveTake_announces : (receiveTake c copy).Announces c r := by
  unfold receiveTake
  cases hqueue : c.queue with
  | nil => exact .inl le_rfl
  | cons =>
    cases copy with
    | some => exact .inl le_rfl
    | none =>
      cases r with
      | item => exact .inl (by simp [available, count, hqueue])
      | room =>
        cases hr : c.rendezvous with
        | true => exact .inr (.inl (by simp))
        | false =>
          refine .inr (.inr ⟨?_, by simp, .inr hr⟩)
          simp only [available, count, hqueue, List.length_cons]
          omega

lemma receiveTake_waits : (receiveTake c copy).Waits r := by
  unfold receiveTake
  split
  · exact fun _ hnext => by cases hnext
  · cases copy with
    | some | none => exact fun _ hnext => by cases hnext

lemma receiveLoop_announces : (receiveLoop c trying copy).Announces c r := by
  unfold receiveLoop
  split
  case isTrue =>
    cases trying with
    | true => exact .inl le_rfl
    | false => exact .inl (by cases r <;> exact le_rfl)
  case isFalse => exact receiveTake_announces c r copy

lemma receiveLoop_waits : (receiveLoop c trying copy).Waits r := by
  unfold receiveLoop
  split
  case isTrue hempty =>
    cases trying with
    | true => exact fun _ hnext => by cases hnext
    | false =>
      intro _ hnext hon
      cases hnext
      cases hon
      exact hempty.1
  case isFalse => exact receiveTake_waits c r copy

lemma enter_announces (op : Operation V) : (enter c copy op).Announces c r := by
  cases op with
  | send value trying => exact sendLoop_announces c r value trying copy
  | receive trying => exact receiveLoop_announces c r trying copy
  | close =>
    simp only [enter, close]
    split
    · exact .inl le_rfl
    · exact .inl (by cases r <;> exact le_rfl)

lemma enter_waits (op : Operation V) : (enter c copy op).Waits r := by
  cases op with
  | send value trying => exact sendLoop_waits c r value trying copy
  | receive trying => exact receiveLoop_waits c r trying copy
  | close =>
    simp only [enter, close]
    split
    all_goals exact fun _ hnext => by cases hnext

lemma available_receiversWaiting (n : ℕ) :
    { c with receiversWaiting := n }.available r = c.available r := by
  cases r <;> rfl

lemma resume_announces (on : Wait V) : (resume c status copy on).Announces c r := by
  cases on with
  | room value =>
    cases status with
    | some => exact .inl le_rfl
    | none => exact sendLoop_announces c r value false copy
  | handoff value n => exact handoffLoop_announces c r value false status n
  | item =>
    cases status with
    | some => exact .inl (available_receiversWaiting c r _).le
    | none =>
      have h := receiveLoop_announces { c with receiversWaiting := c.receiversWaiting - 1 } r false copy
      unfold Section.Announces at h
      rwa [available_receiversWaiting] at h

lemma resume_waits (on : Wait V) : (resume c status copy on).Waits r := by
  cases on with
  | room value =>
    cases status with
    | some => exact fun on hnext => by cases hnext
    | none => exact sendLoop_waits c r value false copy
  | handoff value n => exact handoffLoop_waits c r value false status n
  | item =>
    cases status with
    | some => exact fun on hnext => by cases hnext
    | none => exact receiveLoop_waits _ r false copy

lemma resume_uses {on} (hon : on.resource = some r) : (resume c none none on).Uses c r := by
  cases on with
  | room value =>
    cases hon
    simp only [resume, sendResume, sendLoop]
    split
    case isTrue hfull =>
      have hcount : c.count = c.capacity := by simpa using hfull.1
      exact .inr (.inl (by simp [available, hcount]))
    case isFalse =>
      cases hclosed : c.closed with
      | true => exact .inl (by simp [hclosed])
      | false =>
        right
        rw [(sendQueue_pushes c value false hclosed).1, available_push_room]
        omega
  | handoff => cases hon
  | item =>
    cases hon
    simp only [resume, receiveResume, receiveLoop]
    split
    case isTrue hempty => exact .inr (.inl hempty.1)
    case isFalse =>
      right
      cases hqueue : c.queue with
      | nil => exact .inl (by simp [receiveTake, available, count])
      | cons =>
        right
        simp [receiveTake, available, count, hqueue]

end Sections

/-! ## The invariant -/

section Threads

variable [DecidableEq T] {s s' : State T V} {r : Resource}

/-- While the channel is open and a thread sleeps waiting for `r`, at least as many threads are
woken for `r` as there is of it. -/
def Covered (r : Resource) (s : State T V) : Prop :=
  s.channel.closed = false → (∃ t, (s.points t).Sleeps r) →
    ∃ ts : Finset T, s.channel.available r ≤ ts.card ∧ ∀ t ∈ ts, (s.points t).Woke r

/-- A thread that is moved to a point where it does not sleep, and was not woken for `r`. -/
lemma Covered.update (h : Covered r s) (t : T) (hchannel : s'.channel = s.channel)
    (hpoints : s'.points = Function.update s.points t p)
    (hp : ∀ call on, p ≠ .waiting call on .asleep) (ht : ¬(s.points t).Woke r) : Covered r s' := by
  rintro hopen ⟨u, call, on, hu, hon⟩
  rw [hchannel] at hopen ⊢
  rw [hpoints] at hu ⊢
  have hut : u ≠ t := by
    rintro rfl
    exact hp call on (by simpa using hu)
  rw [Function.update_of_ne hut] at hu
  obtain ⟨ts, hcard, hts⟩ := h hopen ⟨u, call, on, hu, hon⟩
  refine ⟨ts, hcard, fun v hv => ?_⟩
  have hvt : v ≠ t := by
    rintro rfl
    exact ht (hts v hv)
  rw [Function.update_of_ne hvt]
  exact hts v hv

lemma Wait.resource_of_condition {on : Wait V} (h : on.condition = r.condition)
    (hon : r = .item ∨ ∀ value n, on ≠ .handoff value n) : on.resource = some r := by
  cases on with
  | room =>
    cases r with
    | room => rfl
    | item => cases h
  | handoff value n =>
    rcases hon with rfl | hon
    · cases h
    · exact absurd rfl (hon value n)
  | item =>
    cases r with
    | room => cases h
    | item => rfl

/-- A section of thread `t` keeps the count: whatever it makes available it announces, and if it was
itself one of the woken threads it uses what it was woken for. -/
lemma Covered.finish (h : Covered r s) (t : T) (call : ℕ) {sec points}
    (hwoken : Woken sec.wakes s.points points)
    (hannounces : sec.Announces s.channel r) (hwaits : sec.Waits r)
    (hcloses : s.channel.closed = true → sec.channel.closed = true)
    (hawake : ∀ call on, s.points t ≠ .waiting call on .asleep)
    (huses : (s.points t).Woke r → sec.Uses s.channel r) (hhandoff : s.channel.rendezvous = false →
      ∀ u call on sleep, s.points u = .waiting call on sleep → ∀ value n, on ≠ .handoff value n) :
    Covered r (s.finish t call sec points) := by
  rintro hopen' ⟨u, call', on, hu, hon⟩
  by_cases hnone : sec.channel.available r = 0
  · exact ⟨∅, by simp [hnone], by simp⟩
  have hut : u ≠ t := by
    rintro rfl
    simp only [State.finish, Function.update_self] at hu
    cases hnext : sec.next with rw [hnext] at hu
    | wait =>
      cases hu
      exact hnone (hwaits on hnext hon)
    | done =>
      cases hu
  have hu : points u = .waiting call' on .asleep := by
    simpa [Function.update_of_ne hut] using hu
  have hsleeper : (points u).AsleepOn r.condition := Point.Sleeps.asleepOn ⟨call', on, hu, hon⟩
  have hopen : s.channel.closed = false := by
    cases hclosed : s.channel.closed with
    | false => rfl
    | true => exact absurd hopen' (by simp [hcloses hclosed])
  obtain ⟨ts, hcard, hts⟩ := h hopen ⟨u, call', on, hwoken.asleep hu, hon⟩
  -- Every woken thread other than `t` stays woken.
  have hkept : ∀ v ∈ ts.erase t, ((s.finish t call sec points).points v).Woke r := by
    intro v hv
    obtain ⟨hvt, hvts⟩ := mem_erase.1 hv
    obtain ⟨call, on, hpoint, hon⟩ := hts v hvts
    refine ⟨call, on, ?_, hon⟩
    simpa [Function.update_of_ne hvt] using hwoken.signalled hpoint
  by_cases htts : t ∈ ts
  · rcases huses (hts t htts) with hclosed | hzero | hless
    · exact absurd hopen' (by simp [hclosed])
    · exact absurd hzero hnone
    · refine ⟨ts.erase t, ?_, hkept⟩
      rw [card_erase_of_mem htts]
      exact Nat.le_sub_one_of_lt (hless.trans hcard)
  rw [erase_eq_of_notMem htts] at hkept
  rcases hannounces with hle | hbroadcast | ⟨hle, hsignal, hon'⟩
  · exact ⟨ts, hle.trans hcard, hkept⟩
  · exact absurd hsleeper (hwoken.of_broadcast hbroadcast)
  obtain ⟨v, callv, onv, hv, hcondition, hv'⟩ := hwoken.of_signal hsignal hsleeper
  have hresource : onv.resource = some r :=
    Wait.resource_of_condition hcondition (hon'.imp_right fun hr => hhandoff hr v _ _ _ hv)
  have hvt : v ≠ t := by
    rintro rfl
    exact hawake callv onv hv
  have hvts : v ∉ ts := by
    intro hmem
    obtain ⟨_, _, hpoint, _⟩ := hts v hmem
    rw [hv] at hpoint
    cases hpoint
  refine ⟨insert v ts, ?_, ?_⟩
  · rw [card_insert_of_notMem hvts]
    exact hle.trans (Nat.succ_le_succ hcard)
  · intro w hw
    rcases mem_insert.1 hw with rfl | hw
    · exact ⟨callv, onv, by simpa [Function.update_of_ne hvt] using hv', hresource⟩
    · exact hkept w hw

/-- A step that is not the return of a woken call whose copy failed: one that leaves every woken
thread where it is, or the section of a woken thread that copies its value if it comes to that. -/
inductive CopyingStep (s : State T V) : State T V → Prop
  | other {s' : State T V} (hstep : Step s s')
      (hsame : ∀ t call on, s.points t = .waiting call on .signalled → s'.points t = s.points t) :
      CopyingStep s s'
  | resume {call on points} (t : T) (ht : s.points t = .waiting call on .signalled)
      (hwoken : Woken (resume s.channel none none on).wakes s.points points) :
      CopyingStep s (s.finish t call (resume s.channel none none on) points)

/-- The runs in which no woken call fails to copy its value. -/
def copyingMachine (T V : Type*) [DecidableEq T] : Machine (State T V) where
  initial := (machine T V).initial
  step := CopyingStep

lemma CopyingStep.step (h : CopyingStep s s') : Step s s' := by
  cases h with
  | other hstep => exact hstep
  | resume t ht hwoken => exact .resume t none none ht (by simp) (fun _ => rfl) hwoken

lemma reachable_of_copying (h : (copyingMachine T V).Reachable s) : (machine T V).Reachable s :=
  h.invariant (fun _ hs => .start hs) fun _ _ _ hs hstep => hs.next hstep.step

omit [DecidableEq T] in
lemma Invariant.handoff_rendezvous (h : Invariant s) (hr : s.channel.rendezvous = false) (u : T)
    (call : ℕ) (on : Wait (Message V)) (sleep : Sleep) (hu : s.points u = .waiting call on sleep)
    (value : Message V) (n : ℕ) : on ≠ .handoff value n := by
  rintro rfl
  obtain ⟨hphase, -⟩ :=
    h.active u call (.handoff value n) (by simp [State.phases, hu, Point.phase, Wait.phase])
  have hrendezvous : s.channel.rendezvous = true := hphase.2.2.2.2.1
  rw [hr] at hrendezvous
  cases hrendezvous

omit [DecidableEq T] in
lemma Covered.start [DecidableEq T] (h : (machine T V).initial s) : Covered r s := by
  obtain ⟨-, hidle, -⟩ := h
  rintro - ⟨t, _, _, ht, -⟩
  rw [hidle t] at ht
  cases ht

lemma Covered.step (h : Covered r s) (hs : Invariant s) (hstep : CopyingStep s s') :
    Covered r s' := by
  cases hstep with
  | resume t ht hwoken =>
    refine h.finish t _ hwoken (resume_announces _ r _ _ _) (resume_waits _ r _ _ _)
      (resume_acts _ _ _ _).closed_stays (by simp [ht]) ?_ hs.handoff_rendezvous
    rintro ⟨call, on, hpoint, hon⟩
    rw [ht] at hpoint
    cases hpoint
    exact resume_uses _ r hon
  | other hstep hsame =>
    cases hstep with
    | call t _ ht | expire t ht => exact h.update t rfl rfl (by simp) (by simp [Point.Woke, ht])
    | enter t _ ht hwoken =>
      exact h.finish t _ hwoken (enter_announces _ r _ _) (enter_waits _ r _ _)
        (enter_acts _ _ _).closed_stays (by simp [ht]) (by simp [Point.Woke, ht])
        hs.handoff_rendezvous
    | @resume _ on _ _ t status copy ht hsleep _ hwoken =>
      refine h.finish t _ hwoken (resume_announces _ r _ _ _) (resume_waits _ r _ _ _)
        (resume_acts _ _ _ _).closed_stays ?_ ?_ hs.handoff_rendezvous
      · intro call' on' hpoint
        rw [ht] at hpoint
        cases hpoint
        exact hsleep rfl
      -- The section moves its thread on, so the thread was not a woken one.
      rintro ⟨call', on', hpoint, -⟩
      have hnext := hsame t call' on' hpoint
      rw [hpoint] at hnext
      simp only [State.finish, Function.update_self] at hnext
      cases hsec : (resume s.channel status copy on).next with
      | wait | done =>
        rw [hsec] at hnext
        cases hnext

lemma Covered.of_reachable (h : (copyingMachine T V).Reachable s) : Covered r s :=
  h.invariant (fun _ hs => .start hs) fun _ _ hs hc hstep =>
    hc.step (.of_reachable (reachable_of_copying hs)) hstep

/-- No wake-up is lost while woken calls can copy their values.  In every state of every such run,
if the channel is open, a thread sleeps waiting for a free slot (or a value) and there is one, then
other threads, as many as there are free slots (or values), have been woken for it and are due to
take the lock. -/
theorem wakeups_pending (s : State T V) (hs : (copyingMachine T V).Reachable s) (r : Resource)
    (t : T) (hopen : s.channel.closed = false) (havailable : 0 < s.channel.available r)
    (ht : (s.points t).Sleeps r) : ∃ ts : Finset T, ts.Nonempty ∧ s.channel.available r ≤ ts.card ∧
      ∀ u ∈ ts, u ≠ t ∧ (s.points u).Woke r := by
  obtain ⟨ts, hcard, hts⟩ := Covered.of_reachable hs hopen ⟨t, ht⟩
  refine ⟨ts, Finset.card_pos.1 (havailable.trans_le hcard), hcard, fun u hu => ⟨?_, hts u hu⟩⟩
  rintro rfl
  obtain ⟨_, _, hpoint, -⟩ := hts u hu
  obtain ⟨_, _, hpoint', -⟩ := ht
  rw [hpoint] at hpoint'
  cases hpoint'

end Threads

def bufferedStart : State (Fin 3) ℕ where
  channel := ⟨1, [], false, false, 0, 0, 0⟩
  points _ := .idle
  calls := 0
  log := []

/-- Thread 0 fills the channel, threads 1 and 2 go to sleep in `send`, and thread 0 takes the value,
which wakes thread 1. -/
lemma exists_blocked_senders : ∃ s : State (Fin 3) ℕ, (copyingMachine (Fin 3) ℕ).Reachable s ∧
    s.channel = ⟨1, [], false, false, 1, 1, 0⟩ ∧
    s.points 0 = .idle ∧ s.points 1 = .waiting 1 (.room ⟨1, 8⟩) .signalled ∧
    s.points 2 = .waiting 2 (.room ⟨2, 9⟩) .asleep := by
  -- Up to the last step no thread has been woken, so every step copies.
  have hidle : ∀ {s s' : State (Fin 3) ℕ}, (copyingMachine (Fin 3) ℕ).Reachable s →
      (∀ t, ∀ call on, s.points t ≠ .waiting call on .signalled) → Step s s' →
      (copyingMachine (Fin 3) ℕ).Reachable s' := fun hreach hs hstep =>
    hreach.next (.other hstep fun t call on ht => absurd ht (hs t call on))
  have h₀ : (copyingMachine (Fin 3) ℕ).Reachable bufferedStart :=
    .start ⟨⟨1, by rfl⟩, fun _ => rfl, rfl, rfl⟩
  have h₁ := hidle h₀ (by simp [bufferedStart]) (.call 0 (.send 7 false) rfl)
  have hmissed : Woken [.notify, .signal .notEmpty]
      (Function.update bufferedStart.points 0 (.called 0 (.send 7 false))) _ :=
    .notify (.missed (by decide) .nil)
  have h₂ := hidle h₁ (fun t => by fin_cases t <;> rintro _ _ ⟨⟩) (.enter 0 none rfl hmissed)
  have h₃ := hidle h₂ (fun t => by fin_cases t <;> rintro _ _ ⟨⟩) (.call 1 (.send 8 false) rfl)
  have h₄ := hidle h₃ (fun t => by fin_cases t <;> rintro _ _ ⟨⟩) (.enter 1 none rfl .nil)
  have h₅ := hidle h₄ (fun t => by fin_cases t <;> rintro _ _ ⟨⟩) (.call 2 (.send 9 false) rfl)
  have h₆ := hidle h₅ (fun t => by fin_cases t <;> rintro _ _ ⟨⟩) (.enter 2 none rfl .nil)
  have h₇ := hidle h₆ (fun t => by fin_cases t <;> rintro _ _ ⟨⟩) (.call 0 (.receive false) rfl)
  have h₈ := hidle h₇ (fun t => by fin_cases t <;> rintro _ _ ⟨⟩)
    (.enter 0 none rfl (.notify (.signal 1 (by decide) .nil)))
  exact ⟨_, h₈, rfl, rfl, rfl, rfl⟩

/-- Thread 2 sleeps although the slot is free, and thread 1 has been woken for it. -/
theorem wakeups_pending_sender : ∃ s : State (Fin 3) ℕ, (copyingMachine (Fin 3) ℕ).Reachable s ∧
    s.channel.available .room = 1 ∧ (s.points 2).Sleeps .room ∧
    ∃ ts : Finset (Fin 3), ts.Nonempty ∧ 1 ≤ ts.card ∧
      ∀ u ∈ ts, u ≠ 2 ∧ (s.points u).Woke .room := by
  obtain ⟨s, hs, hchannel, -, -, h2⟩ := exists_blocked_senders
  have havailable : s.channel.available .room = 1 := by
    rw [hchannel]
    rfl
  have hsleeps : (s.points 2).Sleeps .room := ⟨2, _, h2, rfl⟩
  have hpending := wakeups_pending s hs .room 2 (by rw [hchannel]) (by rw [havailable]; decide) hsleeps
  rw [havailable] at hpending
  exact ⟨s, hs, havailable, hsleeps, hpending⟩

/-- A lost wake-up.  Thread 1, woken for the free slot, fails to copy its value and returns; thread
2 sleeps on, the slot stays free, and no thread is in a call that could wake it. -/
theorem wakeup_lost : ∃ s : State (Fin 3) ℕ, (machine (Fin 3) ℕ).Reachable s ∧
    s.channel.closed = false ∧ 0 < s.channel.available .room ∧ (s.points 2).Sleeps .room ∧
    s.points 0 = .idle ∧ s.points 1 = .idle := by
  obtain ⟨s, hs, hchannel, h0, h1, h2⟩ := exists_blocked_senders
  have hsec : resume s.channel none (some .unsupported) (.room ⟨1, 8⟩) =
      ⟨s.channel, [], [], .done (.error
        (.typeError ("Channel#send argument " ++ CopyFailure.unsupported.reason)))⟩ := by
    rw [hchannel]
    rfl
  have hstep : Step s _ := .resume 1 none (some .unsupported) h1 (by decide) (fun _ => rfl)
    (by rw [hsec]; exact .nil)
  refine ⟨_, (reachable_of_copying hs).next hstep, ?_, ?_, ?_, ?_, ?_⟩
  · rw [hsec]
    simp [hchannel]
  · rw [hsec]
    simp [hchannel, DiamondChannel.available, DiamondChannel.count]
  · exact ⟨2, _, h2, rfl⟩
  · exact h0
  · rw [hsec]
    rfl

end Diamond.Channel
