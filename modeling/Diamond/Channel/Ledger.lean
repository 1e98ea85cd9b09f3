import Diamond.Channel.System
import Mathlib.Data.List.Nodup
import Mathlib.Data.List.Perm.Basic

/-!
# The ledger of a channel

What the history of a channel says about the values in its queue.  `Ledger` is the invariant between
the two; every act of a call keeps it, given what is known of a call in its phase (`InPhase`).
-/

namespace Diamond.Channel

open List

attribute [local simp] Next.entries DiamondChannel.count DiamondChannel.push

variable {V : Type*}

/-! ## Reading the history -/

def Entry.call : Entry V → ℕ
  | .called call _ => call
  | .did call _ => call
  | .returned call _ => call

def accepted (log : List (Entry V)) : List (Message V) :=
  log.filterMap fun
    | .did _ (.accepted m) => some m
    | _ => none

def received (log : List (Entry V)) : List (Message V) :=
  log.filterMap fun
    | .did _ (.taken m) => some m
    | _ => none

def withdrawn (log : List (Entry V)) : List (Message V) :=
  log.flatMap fun
    | .did _ (.withdrawn ms) => ms
    | _ => []

def kept (log : List (Entry V)) : List (Message V) :=
  (accepted log).filter fun m => m.call ∉ (withdrawn log).map Message.call

def takers (call : ℕ) (log : List (Entry V)) : List ℕ :=
  log.filterMap fun
    | .did receiver (.taken m) => if m.call = call then some receiver else none
    | _ => none

variable {log l l₁ l₂ : List (Entry V)} {m : Message V} {call k : ℕ}

@[simp]
lemma accepted_append : accepted (l₁ ++ l₂) = accepted l₁ ++ accepted l₂ := filterMap_append

@[simp]
lemma received_append : received (l₁ ++ l₂) = received l₁ ++ received l₂ := filterMap_append

@[simp]
lemma withdrawn_append : withdrawn (l₁ ++ l₂) = withdrawn l₁ ++ withdrawn l₂ := flatMap_append

lemma mem_accepted : m ∈ accepted log ↔ ∃ k, .did k (.accepted m) ∈ log := by
  simp only [accepted, mem_filterMap]
  constructor
  · rintro ⟨e, he, h⟩
    split at h
    · cases h
      exact ⟨_, he⟩
    · cases h
  · rintro ⟨k, h⟩
    exact ⟨_, h, rfl⟩

lemma mem_received : m ∈ received log ↔ ∃ k, .did k (.taken m) ∈ log := by
  simp only [received, mem_filterMap]
  constructor
  · rintro ⟨e, he, h⟩
    split at h
    · cases h
      exact ⟨_, he⟩
    · cases h
  · rintro ⟨k, h⟩
    exact ⟨_, h, rfl⟩

lemma mem_withdrawn : m ∈ withdrawn log ↔ ∃ k ms, .did k (.withdrawn ms) ∈ log ∧ m ∈ ms := by
  simp only [withdrawn, mem_flatMap]
  constructor
  · rintro ⟨e, he, h⟩
    split at h
    · exact ⟨_, _, he, h⟩
    · cases h
  · rintro ⟨k, ms, h, hm⟩
    exact ⟨_, h, hm⟩

lemma mem_kept : m ∈ kept log ↔ m ∈ accepted log ∧ m.call ∉ (withdrawn log).map Message.call := by
  rw [kept, mem_filter, decide_eq_true_iff]

/-- An accepted value is kept unless its call withdrew before. -/
lemma kept_accepted (h : m.call ∉ (withdrawn log).map Message.call) :
    kept (log ++ [.did k (.accepted m)]) = kept log ++ [m] := by
  have hwith : withdrawn (log ++ [.did k (.accepted m)]) = withdrawn log := by simp [withdrawn]
  have hacc : accepted (log ++ [.did k (.accepted m)]) = accepted log ++ [m] := by simp [accepted]
  simp only [kept, hwith, hacc, filter_append, filter_singleton]
  simp [h]

lemma kept_withdrawn :
    kept (log ++ [.did k (.withdrawn [m])]) = (kept log).filter fun m' => m'.call ≠ m.call := by
  have hwith : withdrawn (log ++ [.did k (.withdrawn [m])]) = withdrawn log ++ [m] := by
    simp [withdrawn]
  have hacc : accepted (log ++ [.did k (.withdrawn [m])]) = accepted log := by simp [accepted]
  simp only [kept, hwith, hacc, filter_filter]
  refine filter_congr fun m' _ => ?_
  rw [Bool.eq_iff_iff, Bool.and_eq_true, decide_eq_true_iff, decide_eq_true_iff, decide_eq_true_iff,
    map_append, mem_append, not_or, and_comm]
  simp

variable {e : Entry V}

lemma kept_other (hacc : accepted [e] = []) (hwith : withdrawn [e] = []) :
    kept (log ++ [e]) = kept log := by
  have hwith : withdrawn (log ++ [e]) = withdrawn log := by simp [hwith]
  have hacc : accepted (log ++ [e]) = accepted log := by simp [hacc]
  simp only [kept, hwith, hacc]

lemma takers_length (call : ℕ) (log : List (Entry V)) :
    (takers call log).length = ((received log).map Message.call).count call := by
  induction log with
  | nil => rfl
  | cons e _ ih =>
    simp only [takers, received, filterMap_cons] at ih ⊢
    rcases e with ⟨k, _⟩ | ⟨k, _ | _ | m⟩ | ⟨k, r⟩
    case did.taken =>
      by_cases h : m.call = call
      all_goals simp [h, ih]
    all_goals exact ih

def Entry.Silent : Entry V → Prop
  | .did _ _ => False
  | _ => True

/-! ## The invariant -/

/-- The invariant between a channel and its history. -/
structure Ledger (c : DiamondChannel (Message V)) (log : List (Entry V)) : Prop where
  bounded : c.count ≤ c.capacity
  single : c.rendezvous = true → c.capacity = 1
  counted : c.sent = c.taken + c.count
  order : kept log = received log ++ c.queue
  distinct : ((accepted log).map Message.call).Nodup
  signed : ∀ k m, .did k (.accepted m) ∈ log → m.call = k
  sourced : ∀ m ∈ accepted log, ∃ trying, .called m.call (.send m.value trying) ∈ log
  own : ∀ k ms, .did k (.withdrawn ms) ∈ log → ∃ v, .called k (.send v false) ∈ log ∧ ms = [⟨k, v⟩]

/-- What is known of a call in a phase: it has not acted on the queue yet, except that a send in its
handoff has queued its value.  That value is either received already or the only one queued. -/
def InPhase (c : DiamondChannel (Message V)) (log : List (Entry V)) (k : ℕ) :
    Phase (Message V) → Prop
  | .pending m trying =>
    m.call = k ∧ .called k (.send m.value trying) ∈ log ∧ ∀ event, .did k event ∉ log
  | .handoff m n =>
    m.call = k ∧ .called k (.send m.value false) ∈ log ∧ m ∈ accepted log ∧
      (∀ ms, .did k (.withdrawn ms) ∉ log) ∧ c.rendezvous = true ∧
      (n ≤ c.taken ∧ m ∈ received log ∨ n = c.taken + 1 ∧ c.queue = [m])
  | .receiving => (∃ trying, .called k (.receive trying) ∈ log) ∧ ∀ event, .did k event ∉ log
  | .closing => .called k .close ∈ log ∧ ∀ event, .did k event ∉ log

variable {c : DiamondChannel (Message V)} {trying : Bool} {n r : ℕ}

lemma Entry.Silent.projections (h : e.Silent) :
    accepted [e] = [] ∧ received [e] = [] ∧ withdrawn [e] = [] := by
  cases e with
  | called | returned => exact ⟨rfl, rfl, rfl⟩
  | did => exact h.elim

section
variable (h : Ledger c log)
include h

lemma Ledger.did_of_mem_withdrawn (hk : k ∈ (withdrawn log).map Message.call) :
    ∃ ms, .did k (.withdrawn ms) ∈ log := by
  obtain ⟨m, hm, rfl⟩ := mem_map.1 hk
  obtain ⟨k, ms, hdid, hm⟩ := mem_withdrawn.1 hm
  obtain ⟨v, -, rfl⟩ := h.own k ms hdid
  obtain rfl : m = ⟨k, v⟩ := by simpa using hm
  exact ⟨_, hdid⟩

lemma Ledger.kept_nodup : ((received log ++ c.queue).map Message.call).Nodup := by
  rw [← h.order]
  exact h.distinct.sublist (filter_sublist.map _)

lemma Ledger.silent (he : e.Silent) : Ledger c (log ++ [e]) := by
  obtain ⟨hacc, hrec, hwith⟩ := he.projections
  have hdid : ∀ {k event}, .did k event ∈ log ++ [e] → .did k event ∈ log := by
    intro k event hmem
    rcases mem_append.1 hmem with hmem | hmem
    · exact hmem
    · obtain rfl := mem_singleton.1 hmem
      exact he.elim
  refine ⟨h.bounded, h.single, h.counted, ?_, ?_, ?_, ?_, ?_⟩
  · rw [kept_other hacc hwith, h.order]
    simp [hrec]
  · simpa [hacc] using h.distinct
  · intro k m hm
    exact h.signed k m (hdid hm)
  · intro m hm
    obtain ⟨t, ht⟩ := h.sourced m (by simpa [hacc] using hm)
    exact ⟨t, mem_append_left _ ht⟩
  · intro k ms hms
    obtain ⟨v, hv, rfl⟩ := h.own k ms (hdid hms)
    exact ⟨v, mem_append_left _ hv, rfl⟩

/-- The invariant after an event: what has to be shown of the new channel and of the event. -/
lemma Ledger.event {c' event}
    (hbounded : c'.count ≤ c'.capacity) (hsingle : c'.rendezvous = true → c'.capacity = 1)
    (hcounted : c'.sent = c'.taken + c'.count)
    (horder : kept (log ++ [.did k event]) = received (log ++ [.did k event]) ++ c'.queue)
    (haccepted : ∀ m, event = .accepted m → m.call = k ∧ k ∉ (accepted log).map Message.call ∧
      ∃ trying, .called k (.send m.value trying) ∈ log) (hwithdrawn : ∀ ms, event = .withdrawn ms →
      ∃ v, .called k (.send v false) ∈ log ∧ ms = [⟨k, v⟩]) :
    Ledger c' (log ++ [.did k event]) := by
  refine ⟨hbounded, hsingle, hcounted, horder, ?_, ?_, ?_, ?_⟩
  · -- Only an accepted value extends the list of accepted ones.
    cases event with
    | accepted m =>
      obtain ⟨rfl, hnew, -⟩ := haccepted m rfl
      simpa [accepted] using h.distinct.concat hnew
    | withdrawn | taken => simpa [accepted] using h.distinct
  · intro k' m hm
    rcases mem_append.1 hm with hm | hm
    · exact h.signed k' m hm
    · cases mem_singleton.1 hm
      exact (haccepted m rfl).1
  · intro m hm
    rw [accepted_append] at hm
    rcases mem_append.1 hm with hm | hm
    · obtain ⟨t, ht⟩ := h.sourced m hm
      exact ⟨t, mem_append_left _ ht⟩
    cases event with
    | accepted m' =>
      obtain rfl : m = m' := by simpa [accepted] using hm
      obtain ⟨rfl, -, t, ht⟩ := haccepted m rfl
      exact ⟨t, mem_append_left _ ht⟩
    | withdrawn | taken => simp [accepted] at hm
  · intro k' ms hms
    rcases mem_append.1 hms with hms | hms
    · obtain ⟨v, hv, rfl⟩ := h.own k' ms hms
      exact ⟨v, mem_append_left _ hv, rfl⟩
    · cases mem_singleton.1 hms
      obtain ⟨v, hv, rfl⟩ := hwithdrawn ms rfl
      exact ⟨v, mem_append_left _ hv, rfl⟩

lemma Ledger.not_accepted (hdid : ∀ event, .did k event ∉ log) :
    k ∉ (accepted log).map Message.call := by
  intro hk
  obtain ⟨m, hm, rfl⟩ := mem_map.1 hk
  obtain ⟨k, hm⟩ := mem_accepted.1 hm
  obtain rfl := h.signed k m hm
  exact hdid _ hm

lemma Ledger.push (hphase : InPhase c log k (.pending m trying))
    (hroom : c.count ≠ c.capacity) : Ledger (c.push m) (log ++ [.did k (.accepted m)]) := by
  obtain ⟨rfl, hcalled, hdid⟩ := hphase
  have hcount : (c.push m).count = c.count + 1 := by simp
  have hkept : m.call ∉ (withdrawn log).map Message.call := by
    intro hk
    obtain ⟨_, hms⟩ := h.did_of_mem_withdrawn hk
    exact hdid _ hms
  refine h.event ?_ h.single ?_ ?_ ?_ (by simp)
  · have := h.bounded
    rw [hcount]
    simp only [DiamondChannel.push]
    omega
  · have := h.counted
    rw [hcount]
    simp only [DiamondChannel.push]
    omega
  · rw [kept_accepted hkept, h.order]
    simp [received]
  · rintro _ ⟨⟩
    exact ⟨rfl, h.not_accepted hdid, trying, hcalled⟩

lemma Ledger.take {rest} (hqueue : c.queue = m :: rest)
    (r : ℕ) : Ledger { c with queue := rest, taken := c.taken + 1, receiversWaiting := r }
      (log ++ [.did k (.taken m)]) := by
  have hcount : c.count = rest.length + 1 := by simp [hqueue]
  have hbounded := h.bounded
  have hcounted := h.counted
  refine h.event ?_ h.single ?_ ?_ (by simp) (by simp)
  · simp only [DiamondChannel.count] at hcount hbounded ⊢
    omega
  · simp only [DiamondChannel.count] at hcount hcounted ⊢
    omega
  · rw [kept_other rfl rfl, h.order, hqueue]
    simp [received]

end

lemma InPhase.queue_eq (hphase : InPhase c log k (.handoff m n)) (htaken : c.taken < n) :
    c.queue = [m] := by
  obtain ⟨-, -, -, -, -, ⟨hle, -⟩ | ⟨-, hqueue⟩⟩ := hphase
  · omega
  · exact hqueue

lemma Ledger.withdraw (h : Ledger c log) (hphase : InPhase c log k (.handoff m n))
    (htaken : c.taken < n) :
    Ledger { c with queue := [], sent := c.sent - 1 } (log ++ [.did k (.withdrawn c.queue)]) := by
  have hqueue := hphase.queue_eq htaken
  obtain ⟨rfl, hcalled, -⟩ := hphase
  have hcounted := h.counted
  have hcount : c.count = 1 := by simp [hqueue]
  refine h.event (by simp) h.single ?_ ?_ (by simp) ?_
  · simp only [DiamondChannel.count, length_nil] at hcount hcounted ⊢
    omega
  · -- The values kept were the received ones and this one; the received ones stay.
    have hnodup := h.kept_nodup
    have horder := h.order
    rw [hqueue] at hnodup horder
    have hothers : ∀ m' ∈ received log, m'.call ≠ m.call := by
      intro m' hm' heq
      simp only [map_append, nodup_append, map_cons, map_nil] at hnodup
      exact hnodup.2.2 _ (mem_map_of_mem hm') _ (mem_singleton.2 rfl) heq
    rw [hqueue, kept_withdrawn, horder, filter_append, filter_eq_self.2 (by simpa using hothers)]
    simp [received]
  · rintro _ ⟨⟩
    exact ⟨m.value, hcalled, hqueue⟩

def sectionEntries (k : ℕ) (events : List (Event (Message V))) (next : Next (Message V)) :
    List (Entry V) :=
  events.map (.did k) ++ next.entries k

attribute [local simp] sectionEntries

lemma call_of_mem_sectionEntries {events next}
    (he : e ∈ sectionEntries k events next) : e.call = k := by
  rcases mem_append.1 he with he | he
  · obtain ⟨_, -, rfl⟩ := mem_map.1 he
    rfl
  cases next with
  | wait => simp at he
  | done =>
    obtain rfl := mem_singleton.1 he
    rfl

variable {c' : DiamondChannel (Message V)} {p : Phase (Message V)} {next : Next (Message V)}
variable {events : List (Event (Message V))}

lemma Ledger.flags (h : Ledger c log) (r : ℕ) (closed : Bool) :
    Ledger { c with closed := closed, receiversWaiting := r } log :=
  ⟨h.bounded, h.single, h.counted, h.order, h.distinct, h.signed, h.sourced, h.own⟩

section
variable (h : Ledger c log) (hphase : InPhase c log k p) (hact : Act c p c' events next)
include h hphase hact

lemma Ledger.act : Ledger c' (log ++ sectionEntries k events next) := by
  -- An event first, then the result, which is silent.
  have hdone : ∀ {c₁ : DiamondChannel (Message V)} {event res}, Ledger c₁ (log ++ [.did k event]) →
      Ledger c₁ (log ++ sectionEntries k [event] (.done res)) := by
    intro c₁ event res h₁
    have := h₁.silent (e := .returned k res) trivial
    rwa [append_assoc] at this
  have hquiet : ∀ {r closed res}, Ledger { c with closed := closed, receiversWaiting := r }
      (log ++ sectionEntries k [] (.done res)) :=
    fun {r closed res} => (h.flags r closed).silent (e := .returned k res) trivial
  cases hact with
  | refused | completed | drained | closed | closedAlready => exact hquiet
  | blocked | untaken => simpa using h
  | queued _ hroom => exact hdone (h.push hphase hroom)
  | offered _ hroom => exact h.push hphase hroom
  | withdrew _ htaken => exact hdone (h.withdraw hphase htaken)
  | parked r => simpa using h.flags r c.closed
  | took r hqueue => exact hdone (h.take hqueue r)

/-- Whether a value is kept changes only by a section of the call that sent it. -/
lemma Ledger.mem_kept_act (hm : m.call ≠ k) :
    m ∈ kept (log ++ sectionEntries k events next) ↔ m ∈ kept log := by
  have h' := h.act hphase hact
  have hacc : m ∉ accepted (sectionEntries k events next) := by
    intro hmem
    obtain ⟨_, hmem⟩ := mem_accepted.1 hmem
    cases call_of_mem_sectionEntries hmem
    exact hm (h'.signed _ _ (mem_append_right _ hmem))
  have hwith : m.call ∉ (withdrawn (sectionEntries k events next)).map Message.call := by
    intro hmem
    obtain ⟨_, hmem, heq⟩ := mem_map.1 hmem
    obtain ⟨_, _, hmem, hms⟩ := mem_withdrawn.1 hmem
    cases call_of_mem_sectionEntries hmem
    obtain ⟨v, -, rfl⟩ := h'.own _ _ (mem_append_right _ hmem)
    cases mem_singleton.1 hms
    exact hm heq.symm
  simp only [mem_kept, accepted_append, withdrawn_append, map_append, mem_append, hacc,
    hwith, or_false]

end

/-- What is known of a call survives entries about other calls, as long as its handoff does. -/
lemma InPhase.extend (h : InPhase c log k p) (hother : ∀ e ∈ l, e.call ≠ k)
    (hrendezvous : c'.rendezvous = c.rendezvous) (hslot : ∀ m n, p = .handoff m n →
      (n ≤ c.taken ∧ m ∈ received log ∨ n = c.taken + 1 ∧ c.queue = [m]) →
      (n ≤ c'.taken ∧ m ∈ received (log ++ l) ∨ n = c'.taken + 1 ∧ c'.queue = [m])) :
    InPhase c' (log ++ l) k p := by
  have hdid : ∀ {event}, .did k event ∉ log → .did k event ∉ log ++ l := by
    intro event hlog hmem
    rcases mem_append.1 hmem with hmem | hmem
    · exact hlog hmem
    · exact hother _ hmem rfl
  cases p with
  | pending =>
    obtain ⟨hm, hcalled, hnone⟩ := h
    exact ⟨hm, mem_append_left _ hcalled, fun event => hdid (hnone event)⟩
  | handoff m n =>
    obtain ⟨hm, hcalled, hacc, hnone, hr, hcase⟩ := h
    refine ⟨hm, mem_append_left _ hcalled, ?_, fun ms => hdid (hnone ms),
      hrendezvous.trans hr, hslot m n rfl hcase⟩
    rw [accepted_append]
    exact mem_append_left _ hacc
  | receiving =>
    obtain ⟨⟨t, ht⟩, hnone⟩ := h
    exact ⟨⟨t, mem_append_left _ ht⟩, fun event => hdid (hnone event)⟩
  | closing => exact ⟨mem_append_left _ h.1, fun event => hdid (h.2 event)⟩

lemma Ledger.queue_eq_nil (h : Ledger c log) (hr : c.rendezvous = true)
    (hroom : c.count ≠ c.capacity) : c.queue = [] := by
  have hbounded := h.bounded
  have hcapacity := h.single hr
  have hcount : c.count = 0 := by omega
  exact length_eq_zero_iff.1 hcount

/-- An act of one call keeps what is known of another: a value in its handoff can be received, but
neither overtaken nor withdrawn. -/
lemma InPhase.other {k' q} (h : InPhase c log k' q) (hl : Ledger c log)
    (hne : k ≠ k') (hphase : InPhase c log k p) (hact : Act c p c' events next) :
    InPhase c' (log ++ sectionEntries k events next) k' q := by
  have hother : ∀ e ∈ sectionEntries k events next, e.call ≠ k' := by
    intro e he heq
    exact hne ((call_of_mem_sectionEntries he).symm.trans heq)
  have hr : c'.rendezvous = c.rendezvous := by cases hact <;> rfl
  refine h.extend hother hr ?_
  rintro m n rfl hcase
  obtain ⟨rfl, -, -, -, hrend, -⟩ := h
  have hgrow : ∀ {l}, m ∈ received log → m ∈ received (log ++ l) := fun hm => by
    rw [received_append]
    exact mem_append_left _ hm
  cases hact with
  | refused | blocked | untaken | completed | parked | drained | closed | closedAlready =>
    exact hcase.imp (fun ⟨hn, hm⟩ => ⟨hn, hgrow hm⟩) id
  | queued _ hroom | offered _ hroom =>
    have hqueue := hl.queue_eq_nil hrend hroom
    rcases hcase with ⟨hn, hm⟩ | ⟨-, hslot⟩
    · exact .inl ⟨hn, hgrow hm⟩
    · simp [hqueue] at hslot
  | @withdrew m' _ _ htaken =>
    have hqueue := hphase.queue_eq htaken
    rcases hcase with ⟨hn, hm⟩ | ⟨-, hslot⟩
    · exact .inl ⟨hn, hgrow hm⟩
    · -- Both senders would have their value in the one slot.
      rw [hqueue] at hslot
      obtain rfl : m' = m := by simpa using hslot
      exact absurd hphase.1.symm hne
  | @took m' _ _ hqueue =>
    rcases hcase with ⟨hn, hm⟩ | ⟨hn, hslot⟩
    · exact .inl ⟨Nat.le_succ_of_le hn, hgrow hm⟩
    · rw [hqueue] at hslot
      obtain rfl : m' = m := (List.cons.inj hslot).1
      exact .inl ⟨hn.le, by simp [received]⟩

lemma InPhase.act {q on} (h : InPhase c log k p)
    (hl : Ledger c log) (hact : Act c p c' events (.wait on)) (hon : on.phase = q) :
    InPhase c' (log ++ sectionEntries k events (.wait on)) k q := by
  subst hon
  cases hact with
  | blocked | untaken => simpa [Wait.phase] using h
  | @offered m _ hroom hr =>
    obtain ⟨hm, hcalled, hnone⟩ := h
    have hqueue := hl.queue_eq_nil hr hroom
    have hcounted := hl.counted
    rw [DiamondChannel.count, hqueue] at hcounted
    refine ⟨hm, mem_append_left _ hcalled, ?_, ?_, hr, .inr ⟨?_, ?_⟩⟩
    · simp [accepted]
    · intro _ hms
      rcases mem_append.1 hms with hms | hms
      · exact hnone _ hms
      · simp at hms
    · simp only [DiamondChannel.push]
      simpa using hcounted
    · simp [hqueue]
  | parked => simpa [Wait.phase, InPhase] using h

end Diamond.Channel
