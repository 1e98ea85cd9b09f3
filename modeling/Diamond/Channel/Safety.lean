import Diamond.Channel.Ledger
import Mathlib.Data.Fintype.Basic

/-!
# Safety of channels

The invariant of the threads on one channel, and from it the properties of every run.
-/

namespace Diamond.Channel

open List Function

attribute [local simp] sectionEntries Next.entries

variable {T V : Type*} {c c' : DiamondChannel (Message V)} {log : List (Entry V)} {k : ℕ}
variable {p : Phase (Message V)} {next : Next (Message V)} {events : List (Event (Message V))}

structure Answers (c : DiamondChannel (Message V)) (log : List (Entry V)) : Prop where
  delivered : ∀ k m, .returned k (.ok (some m)) ∈ log ↔ .did k (.taken m) ∈ log
  drained : ∀ k trying, .called k (.receive trying) ∈ log → .returned k (.ok none) ∈ log →
    c.closed = true ∧ c.queue = []
  closes : ∀ k res, .called k .close ∈ log → .returned k res ∈ log → c.closed = true
  settled : ∀ k v trying res, .called k (.send v trying) ∈ log → .returned k res ∈ log →
    res = .ok none ∧ ⟨k, v⟩ ∈ kept log ∨
      (∃ failure, res = .error failure) ∧ k ∉ (kept log).map Message.call
  outcome : ∀ k v res, .called k (.send v false) ∈ log → .returned k res ∈ log →
    c.rendezvous = true →
      res = .ok none ∧ ⟨k, v⟩ ∈ received log ∨
      (∃ failure, res = .error failure) ∧
        ∀ m ∈ accepted log, m.call = k → .did k (.withdrawn [m]) ∈ log

/-- Each call is for one operation. -/
def Sole (log : List (Entry V)) : Prop :=
  ∀ k op op', .called k op ∈ log → .called k op' ∈ log → op = op'

lemma called_of_mem_append {op k'}
    (h : .called k' op ∈ log ++ sectionEntries k events next) : .called k' op ∈ log := by
  rcases mem_append.1 h with h | h
  · exact h
  · rcases mem_append.1 h with h | h
    · simp at h
    · cases next <;> simp at h

lemma Act.drained_stays (hact : Act c p c' events next) (hclosed : c.closed = true)
    (hqueue : c.queue = []) : c'.closed = true ∧ c'.queue = [] := by
  cases hact with
  | queued hopen | offered hopen => simp [hopen] at hclosed
  | took r hcons => simp [hqueue] at hcons
  | closed => exact ⟨rfl, hqueue⟩
  | withdrew => exact ⟨hclosed, rfl⟩
  | refused | blocked | untaken | completed | parked | drained | closedAlready =>
    exact ⟨hclosed, hqueue⟩

lemma Act.nil_result {trying} (hact : Act c p c' events (.done (.ok none)))
    (hphase : InPhase c log k p) (hsole : Sole log) (hcalled : .called k (.receive trying) ∈ log) :
    c'.closed = true ∧ c'.queue = [] := by
  cases hact with
  | drained r hqueue hclosed => exact ⟨hclosed, hqueue⟩
  | queued | completed => cases hsole _ _ _ hcalled hphase.2.1
  | closed | closedAlready => cases hsole _ _ _ hcalled hphase.1

lemma Ledger.accepted_eq (h : Ledger c log) {m m'} (hm : m ∈ accepted log)
    (hm' : m' ∈ accepted log) (heq : m.call = m'.call) : m = m' :=
  inj_on_of_nodup_map h.distinct hm hm' heq

variable {res : Except Failure (Option (Message V))} {s s' : State T V}

section
variable (hact : Act c p c' events (.done res)) (hl : Ledger c log) (hphase : InPhase c log k p)
include hact hl hphase

/-- How a blocking send on a rendezvous channel ends: with its value received, or with a failure and
its value withdrawn if it was ever queued. -/
lemma Act.send_result {v} (hsole : Sole log) (hcalled : .called k (.send v false) ∈ log)
    (hr : c.rendezvous = true) : res = .ok none ∧ ⟨k, v⟩ ∈ received log ∨
      (∃ failure, res = .error failure) ∧
        ∀ m ∈ accepted log, m.call = k → .did k (.withdrawn [m]) ∈ sectionEntries k events (.done res) := by
  cases hact with
  | refused failure r hp =>
    refine .inr ⟨⟨failure, rfl⟩, fun m hm hk => ?_⟩
    -- No call outside its handoff has queued a value.
    have hnone : ∀ event, .did k event ∉ log := by
      obtain ⟨m, _, rfl⟩ | rfl := hp
      · exact hphase.2.2
      · exact hphase.2
    exact absurd (mem_map.2 ⟨m, hm, hk⟩) (hl.not_accepted hnone)
  | queued _ _ hend =>
    cases hsole _ _ _ hcalled hphase.2.1
    have := hend hr rfl
    have := hl.counted
    omega
  | withdrew failure htaken =>
    refine .inr ⟨⟨failure, rfl⟩, fun m hm hk => ?_⟩
    rw [hphase.queue_eq htaken]
    obtain ⟨hown, -, hacc, -⟩ := hphase
    cases hl.accepted_eq hm hacc (hk.trans hown.symm)
    simp
  | @completed m n htaken =>
    refine .inl ⟨rfl, ?_⟩
    have hn := htaken hr
    obtain ⟨rfl, hsend, -, -, -, ⟨-, hm⟩ | ⟨hn', -⟩⟩ := hphase
    · cases hsole _ _ _ hcalled hsend
      exact hm
    · omega
  | took | drained =>
    obtain ⟨⟨t, ht⟩, -⟩ := hphase
    cases hsole _ _ _ hcalled ht
  | closed | closedAlready => cases hsole _ _ _ hcalled hphase.1

/-- How any send ends: with its value kept, or with a failure and its value not kept. -/
lemma Act.send_settled {v trying} (hsole : Sole log) (hcalled : .called k (.send v trying) ∈ log) :
    res = .ok none ∧ ⟨k, v⟩ ∈ kept (log ++ sectionEntries k events (.done res)) ∨
      (∃ failure, res = .error failure) ∧
        k ∉ (kept (log ++ sectionEntries k events (.done res))).map Message.call := by
  have hl' := hl.act hphase hact
  cases hact with
  | refused failure r hp =>
    refine .inr ⟨⟨failure, rfl⟩, fun hk => ?_⟩
    have hnone : ∀ event, .did k event ∉ log := by
      obtain ⟨m, trying, rfl⟩ | rfl := hp
      · exact hphase.2.2
      · exact hphase.2
    obtain ⟨m, hm, rfl⟩ := mem_map.1 hk
    have hm : m ∈ accepted log := by
      simpa [accepted] using (mem_kept.1 hm).1
    exact hl.not_accepted hnone (mem_map_of_mem hm)
  | @queued _ _ _ _ _ =>
    obtain ⟨rfl, hsend, hnone⟩ := hphase
    cases hsole _ _ _ hcalled hsend
    refine .inl ⟨rfl, mem_kept.2 ⟨by simp [accepted], fun hk => ?_⟩⟩
    obtain ⟨_, hms⟩ := hl'.did_of_mem_withdrawn hk
    rcases mem_append.1 hms with hms | hms
    · exact hnone _ hms
    · simp at hms
  | @withdrew m n failure htaken =>
    refine .inr ⟨⟨failure, rfl⟩, fun hk => ?_⟩
    obtain ⟨_, hm', hk⟩ := mem_map.1 hk
    refine (mem_kept.1 hm').2 (mem_map.2 ⟨m, ?_, hphase.1.trans hk.symm⟩)
    simp [hphase.queue_eq htaken, withdrawn]
  | @completed _ _ _ =>
    obtain ⟨rfl, hsend, hacc, hnone, -⟩ := hphase
    cases hsole _ _ _ hcalled hsend
    refine .inl ⟨rfl, mem_kept.2 ⟨by simp [hacc], fun hk => ?_⟩⟩
    obtain ⟨_, hms⟩ := hl'.did_of_mem_withdrawn hk
    rcases mem_append.1 hms with hms | hms
    · exact hnone _ hms
    · simp at hms
  | took | drained =>
    obtain ⟨⟨t, ht⟩, -⟩ := hphase
    cases hsole _ _ _ hcalled ht
  | closed | closedAlready => cases hsole _ _ _ hcalled hphase.1

end

lemma Act.closed_stays (hact : Act c p c' events next) (hclosed : c.closed = true) :
    c'.closed = true := by
  cases hact with
  | closed => rfl
  | refused | blocked | queued | offered | untaken | withdrew | completed | parked | drained | took
  | closedAlready => exact hclosed

lemma Act.accepts_nothing (hact : Act c p c' events next) (hclosed : c.closed = true) :
    accepted (sectionEntries k events next) = [] := by
  cases hact with
  | queued hopen | offered hopen => simp [hopen] at hclosed
  | refused | blocked | untaken | withdrew | completed | parked | drained | took | closed
  | closedAlready => rfl

lemma Act.close_result (hact : Act c p c' events (.done res)) (hphase : InPhase c log k p)
    (hsole : Sole log) (hcalled : .called k .close ∈ log) : c'.closed = true := by
  cases hact with
  | closed => rfl
  | closedAlready hclosed | drained _ _ hclosed => exact hclosed
  | refused _ _ hp =>
    obtain ⟨m, _, rfl⟩ | rfl := hp
    · cases hsole _ _ _ hcalled hphase.2.1
    · cases hsole _ _ _ hcalled hphase.1.choose_spec
  | queued | withdrew | completed => cases hsole _ _ _ hcalled hphase.2.1
  | took => cases hsole _ _ _ hcalled hphase.1.choose_spec

lemma Act.delivers (hact : Act c p c' events next) (k' : ℕ) (m : Message V) :
    .returned k' (.ok (some m)) ∈ sectionEntries k events next ↔
      .did k' (.taken m) ∈ sectionEntries k events next := by
  cases hact with
  | took => simp
  | refused | blocked | queued | offered | untaken | withdrew | completed | parked | drained
  | closed | closedAlready => simp

lemma returned_cases {k'} (h : .returned k' res ∈ log ++ sectionEntries k events next) :
    .returned k' res ∈ log ∨ k' = k ∧ next = .done res := by
  rcases mem_append.1 h with h | h
  · exact .inl h
  rcases mem_append.1 h with h | h
  · simp at h
  cases next with
  | wait => simp at h
  | done =>
    cases mem_singleton.1 h
    exact .inr ⟨rfl, rfl⟩

lemma Answers.act (h : Answers c log) (hl : Ledger c log) (hphase : InPhase c log k p)
    (hsole : Sole log) (hout : ∀ res, .returned k res ∉ log) (hact : Act c p c' events next) :
    Answers c' (log ++ sectionEntries k events next) := by
  have hr : c'.rendezvous = c.rendezvous := by cases hact <;> rfl
  constructor
  case delivered =>
    intro k' m
    simp only [mem_append, h.delivered, hact.delivers]
  case drained =>
    intro k' trying hcalled hret
    replace hcalled := called_of_mem_append hcalled
    rcases returned_cases hret with hold | ⟨rfl, rfl⟩
    · obtain ⟨hclosed, hqueue⟩ := h.drained k' trying hcalled hold
      exact hact.drained_stays hclosed hqueue
    · exact hact.nil_result hphase hsole hcalled
  case closes =>
    intro k' res hcalled hret
    replace hcalled := called_of_mem_append hcalled
    rcases returned_cases hret with hold | ⟨rfl, rfl⟩
    · exact hact.closed_stays (h.closes k' res hcalled hold)
    · exact hact.close_result hphase hsole hcalled
  case settled =>
    intro k' v trying res hcalled hret
    replace hcalled := called_of_mem_append hcalled
    rcases returned_cases hret with hold | ⟨rfl, rfl⟩
    · have hne : k' ≠ k := by
        rintro rfl
        exact hout res hold
      refine (h.settled k' v trying res hcalled hold).imp
        (fun ⟨hres, hm⟩ => ⟨hres, (hl.mem_kept_act hphase hact hne).2 hm⟩)
        (fun ⟨hres, hm⟩ => ⟨hres, fun hk => hm ?_⟩)
      obtain ⟨m, hmem, rfl⟩ := mem_map.1 hk
      exact mem_map_of_mem ((hl.mem_kept_act hphase hact hne).1 hmem)
    · exact hact.send_settled hl hphase hsole hcalled
  case outcome =>
    intro k' v res hcalled hret hrend
    replace hcalled := called_of_mem_append hcalled
    rw [hr] at hrend
    rw [received_append, accepted_append]
    rcases returned_cases hret with hold | ⟨rfl, rfl⟩
    · have hne : k' ≠ k := by
        rintro rfl
        exact hout res hold
      refine (h.outcome k' v res hcalled hold hrend).imp
        (fun ⟨hres, hm⟩ => ⟨hres, mem_append_left _ hm⟩)
        (fun ⟨hres, hall⟩ => ⟨hres, fun m hm hk => ?_⟩)
      -- A value accepted now is the acting call's.
      rcases mem_append.1 hm with hm | hm
      · exact mem_append_left _ (hall m hm hk)
      refine absurd ?_ hne
      rw [← hk]
      obtain ⟨_, hk₂⟩ := mem_accepted.1 hm
      cases call_of_mem_sectionEntries hk₂
      exact (hl.act hphase hact).signed _ _ (mem_append_right _ hk₂)
    · refine (hact.send_result hl hphase hsole hcalled hrend).imp
        (fun ⟨hres, hm⟩ => ⟨hres, mem_append_left _ hm⟩)
        (fun ⟨hres, hall⟩ => ⟨hres, fun m hm hk => ?_⟩)
      rcases mem_append.1 hm with hm | hm
      · exact mem_append_right _ (hall m hm hk)
      · -- A section that accepts a value does not fail.
        obtain ⟨_, rfl⟩ := hres
        cases hact <;> simp [accepted] at hm

lemma Answers.begin {calls} (h : Answers c log) (hknown : ∀ e ∈ log, e.call < calls)
    (op : Operation V) : Answers c (log ++ [.called calls op]) := by
  -- The new call has no result yet.
  have hret : ∀ {k res}, .returned k res ∈ log ++ [.called calls op] → .returned k res ∈ log := by
    intro k res hmem
    simpa using hmem
  have hcalled : ∀ {k op' res}, .called k op' ∈ log ++ [.called calls op] →
      .returned k res ∈ log → .called k op' ∈ log := by
    intro k op' res hmem hres
    rcases mem_append.1 hmem with hmem | hmem
    · exact hmem
    · cases mem_singleton.1 hmem
      exact absurd (hknown _ hres) (lt_irrefl _)
  constructor
  case delivered =>
    intro k m
    simpa using h.delivered k m
  case drained =>
    intro k trying hk hres
    exact h.drained k trying (hcalled hk (hret hres)) (hret hres)
  case closes =>
    intro k res hk hres
    exact h.closes k res (hcalled hk (hret hres)) (hret hres)
  case settled =>
    intro k v trying res hk hres
    rw [kept_other rfl rfl]
    exact h.settled k v trying res (hcalled hk (hret hres)) (hret hres)
  case outcome =>
    intro k v res hk hres hr
    have hacc : accepted (log ++ [.called calls op]) = accepted log := by simp [accepted]
    have hrec : received (log ++ [.called calls op]) = received log := by simp [received]
    rw [hacc, hrec]
    exact (h.outcome k v res (hcalled hk (hret hres)) (hret hres) hr).imp id
      fun hother => ⟨hother.1, fun m hm hk => mem_append_left _ (hother.2 m hm hk)⟩

lemma InPhase.begin {calls} (hknown : ∀ e ∈ log, e.call < calls) (op : Operation V) :
    InPhase c (log ++ [.called calls op]) calls (op.tag calls).phase := by
  have hnone : ∀ event, .did calls event ∉ log ++ [.called calls op] := by
    intro event hmem
    rcases mem_append.1 hmem with hmem | hmem
    · exact absurd (hknown _ hmem) (lt_irrefl _)
    · simp at hmem
  cases op with
  | send => exact ⟨rfl, by simp, hnone⟩
  | receive trying => exact ⟨⟨trying, by simp⟩, hnone⟩
  | close => exact ⟨by simp, hnone⟩

/-! ## The invariant of all threads -/

variable [DecidableEq T]

/-- The invariant of the threads on one channel. -/
structure Invariant (s : State T V) : Prop where
  ledger : Ledger s.channel s.log
  answers : Answers s.channel s.log
  sole : Sole s.log
  known : ∀ e ∈ s.log, e.call < s.calls
  active : ∀ t k p, s.phases t = some (k, p) →
    InPhase s.channel s.log k p ∧ k < s.calls ∧ ∀ res, .returned k res ∉ s.log
  apart : ∀ t u k p q, s.phases t = some (k, p) → s.phases u = some (k, q) → t = u

lemma Ledger.of_new {n} (h : channelNew (Message V) n = .ok c) : Ledger c [] := by
  unfold channelNew at h
  split at h
  case isTrue => cases h
  case isFalse =>
    cases h
    refine ⟨by simp [DiamondChannel.count], ?_, rfl, rfl, nodup_nil, ?_, ?_, ?_⟩
    · intro hr
      simp [of_decide_eq_true hr]
    · simp
    · simp [accepted]
    · simp

/-- The invariant holds initially. -/
lemma Invariant.start (h : (machine T V).initial s) : Invariant s := by
  obtain ⟨⟨n, hn⟩, hidle, hcalls, hlog⟩ := h
  have hphases : ∀ t, s.phases t = none := fun t => by simp [State.phases, hidle, Point.phase]
  refine ⟨?_, ?_, ?_, ?_, ?_, ?_⟩
  · rw [hlog]
    exact .of_new hn
  · rw [hlog]
    exact ⟨by simp, by simp, by simp, by simp, by simp⟩
  · rw [hlog]
    exact fun _ _ _ h => by simp at h
  · simp [hlog]
  · intro t k p h
    simp [hphases] at h
  · intro t u k p q h
    simp [hphases] at h

/-- A call that begins keeps the invariant. -/
lemma Invariant.begins (h : Invariant s) (t : T) (op : Operation V)
    (hchannel : s'.channel = s.channel) (hcalls : s'.calls = s.calls + 1)
    (hlog : s'.log = s.log ++ [.called s.calls op])
    (hphases : s'.phases = Function.update s.phases t (some (s.calls, (op.tag s.calls).phase))) :
    Invariant s' := by
  have hfresh : ∀ {u k p}, s.phases u = some (k, p) → k ≠ s.calls :=
    fun hu => (h.active _ _ _ hu).2.1.ne
  constructor
  case ledger =>
    rw [hchannel, hlog]
    exact h.ledger.silent trivial
  case answers =>
    rw [hchannel, hlog]
    exact h.answers.begin h.known op
  case sole =>
    rw [hlog]
    intro k op₁ op₂ h₁ h₂
    rcases mem_append.1 h₁ with h₁ | h₁ <;> rcases mem_append.1 h₂ with h₂ | h₂
    · exact h.sole k op₁ op₂ h₁ h₂
    · cases mem_singleton.1 h₂
      exact absurd (h.known _ h₁) (lt_irrefl _)
    · cases mem_singleton.1 h₁
      exact absurd (h.known _ h₂) (lt_irrefl _)
    · cases mem_singleton.1 h₁
      cases mem_singleton.1 h₂
      rfl
  case known =>
    rw [hlog, hcalls]
    intro e he
    rcases mem_append.1 he with he | he
    · exact Nat.lt_succ_of_lt (h.known e he)
    · obtain rfl := mem_singleton.1 he
      exact Nat.lt_succ_self _
  case active =>
    rw [hchannel, hlog, hcalls, hphases]
    intro u k p hu
    by_cases hut : u = t
    · subst hut
      simp only [update_self, Option.some.injEq, Prod.mk.injEq] at hu
      obtain ⟨rfl, rfl⟩ := hu
      refine ⟨.begin h.known op, Nat.lt_succ_self _, fun _ hres => ?_⟩
      rcases mem_append.1 hres with hres | hres
      · exact absurd (h.known _ hres) (lt_irrefl _)
      · simp at hres
    · rw [update_of_ne hut] at hu
      obtain ⟨hphase, hk, hres⟩ := h.active u k p hu
      refine ⟨?_, Nat.lt_succ_of_lt hk, by simpa using hres⟩
      refine hphase.extend ?_ rfl ?_
      · intro e he
        obtain rfl := mem_singleton.1 he
        exact (hfresh hu).symm
      · rintro m n - hcase
        simpa [received] using hcase
  case apart =>
    rw [hphases]
    intro u w k p q hu hw
    by_cases hut : u = t <;> by_cases hwt : w = t
    · rw [hut, hwt]
    · subst hut
      rw [update_self, Option.some.injEq, Prod.mk.injEq] at hu
      rw [update_of_ne hwt] at hw
      exact absurd hu.1.symm (hfresh hw)
    · subst hwt
      rw [update_self, Option.some.injEq, Prod.mk.injEq] at hw
      rw [update_of_ne hut] at hu
      exact absurd hw.1.symm (hfresh hu)
    · rw [update_of_ne hut] at hu
      rw [update_of_ne hwt] at hw
      exact h.apart u w k p q hu hw

/-- An act keeps the invariant. -/
lemma Invariant.acts (h : Invariant s) (t : T) (hphase : s.phases t = some (k, p))
    (hact : Act s.channel p s'.channel events next) (hcalls : s'.calls = s.calls)
    (hlog : s'.log = s.log ++ sectionEntries k events next)
    (hphases : s'.phases = Function.update s.phases t (next.phase k)) : Invariant s' := by
  obtain ⟨hin, hk, hout⟩ := h.active t k p hphase
  -- The acting thread, if it goes on, goes on with its call.
  have hself : ∀ {u k' q}, s'.phases u = some (k', q) → (u = t ∧ k' = k) ∨ (u ≠ t ∧ k' ≠ k ∧
      s.phases u = some (k', q)) := by
    intro u k' q hu
    rw [hphases] at hu
    by_cases hut : u = t
    · subst hut
      rw [update_self] at hu
      cases next with
      | wait =>
        simp only [Next.phase, Option.some.injEq, Prod.mk.injEq] at hu
        exact .inl ⟨rfl, hu.1.symm⟩
      | done => simp [Next.phase] at hu
    · rw [update_of_ne hut] at hu
      refine .inr ⟨hut, ?_, hu⟩
      rintro rfl
      exact hut (h.apart u t _ _ _ hu hphase)
  constructor
  case ledger =>
    rw [hlog]
    exact h.ledger.act hin hact
  case answers =>
    rw [hlog]
    exact h.answers.act h.ledger hin h.sole hout hact
  case sole =>
    rw [hlog]
    intro k' op op' h₁ h₂
    exact h.sole k' op op' (called_of_mem_append h₁) (called_of_mem_append h₂)
  case known =>
    rw [hlog, hcalls]
    intro e he
    rcases mem_append.1 he with he | he
    · exact h.known e he
    · rwa [call_of_mem_sectionEntries he]
  case active =>
    intro u k' q hu
    rcases hself hu with ⟨rfl, rfl⟩ | ⟨-, hne, hold⟩
    · rw [hphases, update_self] at hu
      cases next with
      | done => simp [Next.phase] at hu
      | wait =>
        simp only [Next.phase, Option.some.injEq, Prod.mk.injEq, true_and] at hu
        rw [hlog, hcalls]
        refine ⟨hin.act h.ledger hact hu, hk, fun res hres => ?_⟩
        rcases returned_cases hres with hres | ⟨-, hnext⟩
        · exact hout res hres
        · cases hnext
    · obtain ⟨hin', hk', hout'⟩ := h.active u k' q hold
      rw [hlog, hcalls]
      refine ⟨hin'.other h.ledger hne.symm hin hact, hk', fun res hres => ?_⟩
      rcases returned_cases hres with hres | ⟨heq, -⟩
      · exact hout' res hres
      · exact hne heq
  case apart =>
    intro u w k' q q' hu hw
    rcases hself hu with ⟨rfl, rfl⟩ | ⟨-, hne, hold⟩
    · rcases hself hw with ⟨rfl, -⟩ | ⟨-, hne, -⟩
      · rfl
      · exact absurd rfl hne
    · rcases hself hw with ⟨-, rfl⟩ | ⟨-, -, hold'⟩
      · exact absurd rfl hne
      · exact h.apart u w k' q q' hold hold'

/-- Every step keeps the invariant. -/
lemma Invariant.step (h : Invariant s) (hstep : Step s s') : Invariant s' := by
  cases hstep.moves with
  | begins t op _ hchannel hcalls hlog hphases => exact h.begins t op hchannel hcalls hlog hphases
  | acts t _ _ _ _ hphase hact hcalls hlog hphases =>
    exact h.acts t hphase hact hcalls hlog hphases
  | stutters hchannel hcalls hlog hphases =>
    obtain ⟨hl, ha, hs, hk, hactive, hapart⟩ := h
    constructor
    case ledger | answers => rwa [hchannel, hlog]
    case sole => rwa [hlog]
    case known => rwa [hlog, hcalls]
    case active => rwa [hphases, hchannel, hlog, hcalls]
    case apart => rwa [hphases]

/-- The invariant holds in every run. -/
lemma Invariant.of_reachable (h : (machine T V).Reachable s) : Invariant s :=
  h.invariant (fun _ => Invariant.start) fun _ _ _ hinv hstep => hinv.step hstep

/-- A closed channel accepts nothing more, however the run goes on. -/
lemma accepted_of_closed (hrun : Relation.ReflTransGen Step s s')
    (hclosed : s.channel.closed = true) :
    s'.channel.closed = true ∧ accepted s'.log = accepted s.log := by
  induction hrun with
  | refl => exact ⟨hclosed, rfl⟩
  | tail _ hstep ih =>
    obtain ⟨hclosed, hacc⟩ := ih
    cases hstep.moves with
    | begins _ _ _ hchannel _ hlog =>
      rw [hchannel, hlog, accepted_append, hacc]
      exact ⟨hclosed, by simp [accepted]⟩
    | acts _ _ _ _ _ _ hact _ hlog =>
      refine ⟨hact.closed_stays hclosed, ?_⟩
      rw [hlog, accepted_append, hacc]
      exact (congrArg _ (hact.accepts_nothing hclosed)).trans (append_nil _)
    | stutters hchannel _ hlog =>
      rw [hchannel, hlog]
      exact ⟨hclosed, hacc⟩

lemma receive_drained {V : Type*} (c : DiamondChannel V) (hclosed : c.closed = true)
    (hqueue : c.queue = []) (copy : Option CopyFailure) :
    (∀ trying, (enter c copy (.receive trying)).next = .done (.ok none)) ∧
      (resume c none copy .item).next = .done (.ok none) := by
  constructor
  · intro trying
    simp [enter, receiveLoop, receiveTake, hclosed, hqueue]
  · simp [resume, receiveResume, receiveLoop, receiveTake, hclosed, hqueue]

def rendezvousStart : State (Fin 2) ℕ where
  channel := ⟨1, [], false, true, 0, 0, 0⟩
  points _ := .idle
  calls := 0
  log := []

/-- A run of a blocking send, the receive that takes its value, and the send's return. -/
lemma exists_handoff : ∃ s : State (Fin 2) ℕ, (machine (Fin 2) ℕ).Reachable s ∧
    s.channel = ⟨1, [], false, true, 1, 1, 0⟩ ∧
    s.log = [.called 0 (.send 7 false), .did 0 (.accepted ⟨0, 7⟩), .called 1 (.receive false),
      .did 1 (.taken ⟨0, 7⟩), .returned 1 (.ok (some ⟨0, 7⟩)), .returned 0 (.ok none)] := by
  have h₀ : (machine (Fin 2) ℕ).Reachable rendezvousStart :=
    .start ⟨⟨0, by rfl⟩, fun _ => rfl, rfl, rfl⟩
  have h₁ := h₀.next (.call 0 (.send 7 false) rfl)
  -- Nobody waits for a value yet, so the signal is lost.
  have hsignal : Woken [.notify, .signal .notEmpty]
      (Function.update rendezvousStart.points 0 (.called 0 (.send 7 false))) _ :=
    .notify (.missed (by decide) .nil)
  have h₂ := h₁.next (.enter 0 none rfl hsignal)
  have h₃ := h₂.next (.call 1 (.receive false) rfl)
  have h₄ := h₃.next (.enter 1 none rfl (.notify (.broadcast .nil)))
  have h₅ := h₄.next (.resume 0 none none
    (show _ = Point.waiting 0 (.handoff ⟨0, 7⟩ 1) .signalled from rfl) (by decide) (fun _ => rfl) .nil)
  exact ⟨_, h₅, rfl, rfl⟩

/-- Channels are first in, first out.  In every state of every run: the values received are a prefix
of the accepted ones that were not withdrawn and the queue holds the rest; no value is accepted
twice, every accepted value is one that was sent, a send succeeds exactly when its value is kept,
and what a call gets is what it took from the queue; the queue's count is within the capacity and is
`sent` minus `taken`; a channel that is closed, as it is once a `close` has returned, accepts
nothing more; and a receive on a closed, drained channel gives `nil`. -/
theorem channel_fifo (s : State T V) (hs : (machine T V).Reachable s) :
    received s.log <+: kept s.log ∧ kept s.log = received s.log ++ s.channel.queue ∧
    ((accepted s.log).map Message.call).Nodup ∧
    (∀ m ∈ accepted s.log, ∃ trying, .called m.call (.send m.value trying) ∈ s.log) ∧
    (∀ k v trying res, .called k (.send v trying) ∈ s.log → .returned k res ∈ s.log →
      (res = .ok none ↔ ⟨k, v⟩ ∈ kept s.log)) ∧
    (∀ k m, .returned k (.ok (some m)) ∈ s.log ↔ .did k (.taken m) ∈ s.log) ∧
    s.channel.count ≤ s.channel.capacity ∧
    s.channel.taken ≤ s.channel.sent ∧ s.channel.count = s.channel.sent - s.channel.taken ∧
    (∀ k res, .called k .close ∈ s.log → .returned k res ∈ s.log → s.channel.closed = true) ∧
    (s.channel.closed = true → ∀ s', Relation.ReflTransGen Step s s' →
      accepted s'.log = accepted s.log) ∧ (s.channel.closed = true → s.channel.queue = [] → ∀ copy,
      (∀ trying, (enter s.channel copy (.receive trying)).next = .done (.ok none)) ∧
        (resume s.channel none copy .item).next = .done (.ok none)) := by
  obtain ⟨hledger, hanswers, -⟩ := Invariant.of_reachable hs
  have hcounted := hledger.counted
  refine ⟨?_, hledger.order, hledger.distinct, hledger.sourced, ?_, hanswers.delivered,
    hledger.bounded, by omega, by omega, hanswers.closes, ?_, ?_⟩
  · rw [hledger.order]
    exact prefix_append _ _
  · intro k v trying res hcalled hret
    rcases hanswers.settled k v trying res hcalled hret with ⟨rfl, hm⟩ | ⟨⟨_, rfl⟩, hm⟩
    · exact iff_of_true rfl hm
    · exact iff_of_false (by simp) fun hk => hm (mem_map_of_mem hk)
  · intro hclosed s' hrun
    exact (accepted_of_closed hrun hclosed).2
  · intro hclosed hqueue copy
    exact receive_drained s.channel hclosed hqueue copy

/-- After a completed handoff the one value sent is received and the queue is empty. -/
theorem channel_fifo_handoff : ∃ s : State (Fin 2) ℕ, (machine (Fin 2) ℕ).Reachable s ∧
    kept s.log = [⟨0, 7⟩] ∧ received s.log = [⟨0, 7⟩] ∧ s.channel.count = 0 := by
  obtain ⟨s, hs, hchannel, hlog⟩ := exists_handoff
  have hreceived : received s.log = [⟨0, 7⟩] := by
    rw [hlog]
    rfl
  have hcount : s.channel.count = 0 := by
    rw [hchannel]
    rfl
  refine ⟨s, hs, ?_, hreceived, hcount⟩
  rw [(channel_fifo s hs).2.1, hreceived, hchannel]
  rfl

/-- The handoff of a rendezvous channel.  In every state of every run, a blocking send that has
returned succeeded exactly when one receiver took its value, and a failed one was taken by none; a
send that fails after it queued its value has withdrawn it; and whoever withdraws withdraws exactly
the value it sent. -/
theorem rendezvous_handoff (s : State T V) (hs : (machine T V).Reachable s)
    (hr : s.channel.rendezvous = true) :
    (∀ k v res, .called k (.send v false) ∈ s.log → .returned k res ∈ s.log →
      (res = .ok none ↔ ∃ receiver, takers k s.log = [receiver] ∧
        .returned receiver (.ok (some ⟨k, v⟩)) ∈ s.log) ∧ (res ≠ .ok none → takers k s.log = [] ∧
        ∀ m ∈ accepted s.log, m.call = k → .did k (.withdrawn [m]) ∈ s.log)) ∧
    (∀ k ms, .did k (.withdrawn ms) ∈ s.log →
      ∃ v, .called k (.send v false) ∈ s.log ∧ ms = [⟨k, v⟩]) := by
  obtain ⟨hledger, hanswers, -⟩ := Invariant.of_reachable hs
  refine ⟨fun k v res hcalled hret => ?_, hledger.own⟩
  have hnodup : ((received s.log).map Message.call).Nodup := by
    have := hledger.kept_nodup
    rw [map_append] at this
    exact this.of_append_left
  rcases hanswers.outcome k v res hcalled hret hr with ⟨rfl, hm⟩ | ⟨⟨_, rfl⟩, hall⟩
  · refine ⟨iff_of_true rfl ?_, fun h => absurd rfl h⟩
    have hlength : (takers k s.log).length = 1 := by
      rw [takers_length]
      exact count_eq_one_of_mem hnodup (mem_map.2 ⟨_, hm, rfl⟩)
    obtain ⟨receiver, htakers⟩ := length_eq_one_iff.1 hlength
    refine ⟨receiver, htakers, ?_⟩
    obtain ⟨k', hk'⟩ := mem_received.1 hm
    have hmem : k' ∈ takers k s.log := mem_filterMap.2 ⟨_, hk', by simp⟩
    rw [htakers, mem_singleton] at hmem
    subst hmem
    exact (hanswers.delivered _ _).2 hk'
  · -- A received value would be kept, but this one was withdrawn if it was queued at all.
    have hnone : takers k s.log = [] := by
      rw [← length_eq_zero_iff, takers_length]
      refine count_eq_zero_of_not_mem fun hk => ?_
      obtain ⟨m, hm, rfl⟩ := mem_map.1 hk
      have hkept : m ∈ kept s.log := by
        rw [hledger.order]
        exact mem_append_left _ hm
      obtain ⟨hacc, hwith⟩ := mem_kept.1 hkept
      refine hwith (mem_map.2 ⟨m, ?_, rfl⟩)
      exact mem_withdrawn.2 ⟨_, _, hall m hacc rfl, mem_singleton.2 rfl⟩
    refine ⟨iff_of_false (by simp) ?_, fun _ => ⟨hnone, hall⟩⟩
    rintro ⟨receiver, htakers, -⟩
    rw [hnone] at htakers
    cases htakers

/-- The sender of a completed handoff has one receiver. -/
theorem rendezvous_handoff_taken : ∃ s : State (Fin 2) ℕ, (machine (Fin 2) ℕ).Reachable s ∧
    s.channel.rendezvous = true ∧ ∃ receiver, takers 0 s.log = [receiver] ∧
      .returned receiver (.ok (some ⟨0, 7⟩)) ∈ s.log := by
  obtain ⟨s, hs, hchannel, hlog⟩ := exists_handoff
  have hr : s.channel.rendezvous = true := by rw [hchannel]
  have hcalled : .called 0 (.send 7 false) ∈ s.log := by simp [hlog]
  have hreturned : .returned 0 (.ok none) ∈ s.log := by simp [hlog]
  exact ⟨s, hs, hr, ((rendezvous_handoff s hs hr).1 0 7 _ hcalled hreturned).1.1 rfl⟩

end Diamond.Channel
