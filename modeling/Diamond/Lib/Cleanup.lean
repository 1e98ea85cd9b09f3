import Mathlib.Data.List.Basic
import Mathlib.Logic.Relation

/-!
# Cleanups and exits

What a language with cleanups promises, apart from how it keeps the promise.  A cleanup comes into
scope, and later it runs.  An exit starts, has the cleanups it passes run, and takes effect; or it
is replaced, by an exit that starts while it is under way.  Both are named by the time they begin.

A `Ledger` is what is in scope and under way, with a log of what happened, newest event first.
`Sound` says that cleanups run once and innermost first, and that the exit to take effect is the
most recent one; every `Move` keeps it.
-/

namespace Diamond.Cleanup

open List

inductive Event
  | opened (cleanup : ℕ)
  | ran (cleanup exit : ℕ)
  | started (exit : ℕ)
  | took (exit : ℕ)
  | replaced (exit successor : ℕ)
  deriving DecidableEq, Repr

/-- The cleanups in scope, innermost first, and the exits under way, most recent first. -/
structure Ledger where
  waiting : List ℕ
  exits : List ℕ
  log : List Event
  clock : ℕ

inductive Move (l : Ledger) : Ledger → Prop
  | opens : Move l { l with
      waiting := l.clock :: l.waiting, log := .opened l.clock :: l.log, clock := l.clock + 1 }
  | starts : Move l { l with
      exits := l.clock :: l.exits, log := .started l.clock :: l.log, clock := l.clock + 1 }
  | runs {c n waiting exits} (hw : l.waiting = c :: waiting) (he : l.exits = n :: exits) :
      Move l { l with waiting := waiting, log := .ran c n :: l.log }
  | takes {n exits} (he : l.exits = n :: exits) :
      Move l { l with exits := exits, log := .took n :: l.log }
  | replaces {n m exits} (he : l.exits = n :: m :: exits) :
      Move l { l with exits := n :: exits, log := .replaced m n :: l.log }
  | ticks : Move l { l with clock := l.clock + 1 }

/-- How often a cleanup ran. -/
def runs (cleanup : ℕ) (log : List Event) : ℕ :=
  log.countP fun event => match event with
    | .ran c _ => c = cleanup
    | _ => false

/-- The exit has taken effect or was replaced. -/
def Settled (exit : ℕ) (log : List Event) : Prop :=
  .took exit ∈ log ∨ ∃ successor, .replaced exit successor ∈ log

/-- A cleanup runs after those that came into scope later and are still there. -/
def Innermost (log : List Event) : Prop :=
  ∀ c n before, Event.ran c n :: before <:+ log → ∀ d, .opened d ∈ before → c < d →
    ∃ m, .ran d m ∈ before

/-- When an exit takes effect, those that started later are settled. -/
def MostRecent (log : List Event) : Prop :=
  ∀ n before, Event.took n :: before <:+ log → ∀ m, .started m ∈ before → n < m → Settled m before

structure Sound (l : Ledger) : Prop where
  waitingSorted : l.waiting.Pairwise (· > ·)
  exitsSorted : l.exits.Pairwise (· > ·)
  openedPast : ∀ c, .opened c ∈ l.log → c < l.clock
  startedPast : ∀ n, .started n ∈ l.log → n < l.clock
  waitingOpened : ∀ c ∈ l.waiting, .opened c ∈ l.log
  exitsStarted : ∀ n ∈ l.exits, .started n ∈ l.log
  ranOpened : ∀ c n, .ran c n ∈ l.log → .opened c ∈ l.log
  settledStarted : ∀ n, Settled n l.log → .started n ∈ l.log
  once : ∀ c, .opened c ∈ l.log →
    c ∈ l.waiting ∧ runs c l.log = 0 ∨ c ∉ l.waiting ∧ runs c l.log = 1
  underWay : ∀ n, .started n ∈ l.log → (n ∈ l.exits ↔ ¬Settled n l.log)
  innermost : Innermost l.log
  mostRecent : MostRecent l.log
  later : ∀ n m, .replaced n m ∈ l.log → n < m ∧ .took n ∉ l.log

variable {l l' : Ledger} {c n m : ℕ} {log : List Event} {event : Event}

lemma runs_eq_zero_iff : runs c log = 0 ↔ ∀ n, .ran c n ∉ log := by
  unfold runs
  rw [countP_eq_zero]
  constructor
  · intro h n hmem
    exact h _ hmem (by simp)
  intro h event hmem htrue
  cases event with
  | ran d n =>
    simp only [decide_eq_true_eq] at htrue
    exact h n (htrue ▸ hmem)
  | opened | started | took | replaced => cases htrue

lemma runs_cons_ran (d : ℕ) : runs c (.ran d n :: log) = runs c log + if d = c then 1 else 0 := by
  unfold runs
  rw [countP_cons]
  by_cases h : d = c <;> simp [h]

lemma runs_cons_of_ne (h : ∀ d n, event ≠ .ran d n) : runs c (event :: log) = runs c log := by
  unfold runs
  rw [countP_cons]
  cases event with
  | ran d n => exact absurd rfl (h d n)
  | opened | started | took | replaced => rfl

/-- An event of another kind settles nothing. -/
lemma settled_cons_iff (htook : ∀ n, event ≠ .took n) (hreplaced : ∀ n m, event ≠ .replaced n m) :
    Settled n (event :: log) ↔ Settled n log := by
  unfold Settled
  simp [Ne.symm (htook _), fun m => Ne.symm (hreplaced n m)]

lemma innermost_cons (h : Innermost log)
    (hevent : ∀ c n, event = .ran c n → ∀ d, .opened d ∈ log → c < d → ∃ m, .ran d m ∈ log) :
    Innermost (event :: log) := by
  intro c n before hsuffix
  rcases suffix_cons_iff.1 hsuffix with heq | hsuffix
  · cases heq
    exact hevent c n rfl
  · exact h c n before hsuffix

lemma mostRecent_cons (h : MostRecent log)
    (hevent : ∀ n, event = .took n → ∀ m, .started m ∈ log → n < m → Settled m log) :
    MostRecent (event :: log) := by
  intro n before hsuffix
  rcases suffix_cons_iff.1 hsuffix with heq | hsuffix
  · cases heq
    exact hevent n rfl
  · exact h n before hsuffix

section
variable (h : Sound l)
include h

/-- An exit that started is under way or settled. -/
lemma Sound.settled_of_not_mem (hstarted : .started n ∈ l.log) (hnot : n ∉ l.exits) :
    Settled n l.log := by
  by_contra hsettled
  exact hnot ((h.underWay n hstarted).2 hsettled)

/-- A cleanup that came into scope and is not waiting has run. -/
lemma Sound.ran_of_not_mem (hopened : .opened c ∈ l.log) (hnot : c ∉ l.waiting) :
    ∃ n, .ran c n ∈ l.log := by
  rcases h.once c hopened with ⟨hmem, -⟩ | ⟨-, hruns⟩
  · exact absurd hmem hnot
  · by_contra hnone
    rw [runs_eq_zero_iff.2 fun n hn => hnone ⟨n, hn⟩] at hruns
    cases hruns

/-- An exit under way is not settled. -/
lemma Sound.not_settled (hn : n ∈ l.exits) : ¬Settled n l.log :=
  (h.underWay n (h.exitsStarted n hn)).1 hn

/-- One more event: what it has to satisfy, by its kind. -/
lemma Sound.notes {waiting exits clock} (event : Event)
    (hclock : l.clock ≤ clock) (hwaiting : waiting.Pairwise (· > ·))
    (hexits : exits.Pairwise (· > ·)) (hopened : ∀ c, event = .opened c → c < clock)
    (hstarted : ∀ n, event = .started n → n < clock)
    (hfrom : ∀ c ∈ waiting, event = .opened c ∨ c ∈ l.waiting)
    (hfrom' : ∀ n ∈ exits, event = .started n ∨ n ∈ l.exits)
    (hran : ∀ c n, event = .ran c n → c ∈ l.waiting ∧ ∀ d ∈ l.waiting, d ≤ c)
    (htook : ∀ n, event = .took n → n ∈ l.exits ∧ ∀ m ∈ l.exits, m ≤ n)
    (hreplaced : ∀ n m, event = .replaced n m → n ∈ l.exits ∧ n < m)
    (honce : ∀ c, .opened c ∈ event :: l.log → c ∈ waiting ∧ runs c (event :: l.log) = 0 ∨
      c ∉ waiting ∧ runs c (event :: l.log) = 1)
    (hunder : ∀ n, .started n ∈ event :: l.log → (n ∈ exits ↔ ¬Settled n (event :: l.log))) :
    Sound ⟨waiting, exits, event :: l.log, clock⟩ := by
  refine ⟨hwaiting, hexits, ?_, ?_, ?_, ?_, ?_, ?_, honce, hunder, ?_, ?_, ?_⟩
  · intro c hc
    rcases mem_cons.1 hc with heq | hc
    · exact hopened c heq.symm
    · exact Nat.lt_of_lt_of_le (h.openedPast c hc) hclock
  · intro n hn
    rcases mem_cons.1 hn with heq | hn
    · exact hstarted n heq.symm
    · exact Nat.lt_of_lt_of_le (h.startedPast n hn) hclock
  · intro c hc
    rcases hfrom c hc with rfl | hc
    · exact mem_cons_self
    · exact mem_cons_of_mem _ (h.waitingOpened c hc)
  · intro n hn
    rcases hfrom' n hn with rfl | hn
    · exact mem_cons_self
    · exact mem_cons_of_mem _ (h.exitsStarted n hn)
  · intro c n hr
    rcases mem_cons.1 hr with heq | hr
    · exact mem_cons_of_mem _ (h.waitingOpened c (hran c n heq.symm).1)
    · exact mem_cons_of_mem _ (h.ranOpened c n hr)
  · rintro n (ht | ⟨m, hr⟩)
    · rcases mem_cons.1 ht with heq | ht
      · exact mem_cons_of_mem _ (h.exitsStarted n (htook n heq.symm).1)
      · exact mem_cons_of_mem _ (h.settledStarted n (.inl ht))
    · rcases mem_cons.1 hr with heq | hr
      · exact mem_cons_of_mem _ (h.exitsStarted n (hreplaced n m heq.symm).1)
      · exact mem_cons_of_mem _ (h.settledStarted n (.inr ⟨m, hr⟩))
  · refine innermost_cons h.innermost fun c n heq d hd hlt => h.ran_of_not_mem hd fun hmem => ?_
    exact Nat.not_lt.2 ((hran c n heq).2 d hmem) hlt
  · refine mostRecent_cons h.mostRecent fun n heq m hm hlt => h.settled_of_not_mem hm fun hmem => ?_
    exact Nat.not_lt.2 ((htook n heq).2 m hmem) hlt
  · intro n m hr
    rcases mem_cons.1 hr with heq | hr
    · obtain ⟨hn, hlt⟩ := hreplaced n m heq.symm
      refine ⟨hlt, fun ht => ?_⟩
      rcases mem_cons.1 ht with heq' | ht
      · cases heq.trans heq'.symm
      · exact h.not_settled hn (.inl ht)
    · obtain ⟨hlt, hnot⟩ := h.later n m hr
      refine ⟨hlt, fun ht => ?_⟩
      rcases mem_cons.1 ht with heq | ht
      · exact h.not_settled (htook n heq.symm).1 (.inr ⟨m, hr⟩)
      · exact hnot ht

lemma Sound.opens : Sound { l with
    waiting := l.clock :: l.waiting, log := .opened l.clock :: l.log, clock := l.clock + 1 } := by
  have hnew : .opened l.clock ∉ l.log := fun hmem => Nat.lt_irrefl _ (h.openedPast _ hmem)
  refine h.notes (.opened l.clock) (Nat.le_succ _) (pairwise_cons.2 ⟨fun c hc => ?_,
    h.waitingSorted⟩) h.exitsSorted (by simp) (by simp) (by simp [eq_comm]) (by simp) (by simp)
    (by simp) (by simp) (fun c hc => ?_) fun n hn => ?_
  · exact h.openedPast c (h.waitingOpened c hc)
  · rw [runs_cons_of_ne (by simp)]
    rcases mem_cons.1 hc with heq | hc
    · cases heq
      exact .inl ⟨mem_cons_self, runs_eq_zero_iff.2 fun n hr => hnew (h.ranOpened _ n hr)⟩
    · have hne : c ≠ l.clock := Nat.ne_of_lt (h.openedPast c hc)
      simpa [hne] using h.once c hc
  · rw [settled_cons_iff (by simp) (by simp)]
    exact h.underWay n (by simpa using hn)

lemma Sound.starts : Sound { l with
    exits := l.clock :: l.exits, log := .started l.clock :: l.log, clock := l.clock + 1 } := by
  have hnew : .started l.clock ∉ l.log := fun hmem => Nat.lt_irrefl _ (h.startedPast _ hmem)
  refine h.notes (.started l.clock) (Nat.le_succ _) h.waitingSorted (pairwise_cons.2
    ⟨fun n hn => ?_, h.exitsSorted⟩) (by simp) (by simp) (by simp) (by simp [eq_comm]) (by simp)
    (by simp) (by simp) (fun c hc => ?_) fun n hn => ?_
  · exact h.startedPast n (h.exitsStarted n hn)
  · rw [runs_cons_of_ne (by simp)]
    exact h.once c (by simpa using hc)
  rw [settled_cons_iff (by simp) (by simp)]
  rcases mem_cons.1 hn with heq | hn
  · cases heq
    simp only [mem_cons_self, true_iff]
    exact fun hs => hnew (h.settledStarted _ hs)
  · have hne : n ≠ l.clock := Nat.ne_of_lt (h.startedPast n hn)
    simpa [hne] using h.underWay n hn

lemma Sound.runs {waiting} (hw : l.waiting = c :: waiting) (n : ℕ) :
    Sound { l with waiting := waiting, log := .ran c n :: l.log } := by
  have hsorted := h.waitingSorted
  rw [hw] at hsorted
  obtain ⟨hfirst, hrest⟩ := pairwise_cons.1 hsorted
  refine h.notes (.ran c n) (Nat.le_refl _) hrest h.exitsSorted (by simp) (by simp)
    (by simp +contextual [hw]) (by simp) ?_ (by simp) (by simp) (fun d hd => ?_) fun m hm => ?_
  · rintro _ _ heq
    cases heq
    simpa [hw] using fun d hd => Nat.le_of_lt (hfirst d hd)
  · have hd := h.once d (by simpa using hd)
    rw [hw] at hd
    rw [runs_cons_ran]
    by_cases hcd : c = d
    · -- The cleanup itself: it was waiting, so it had not run.
      subst hcd
      rcases hd with ⟨-, hzero⟩ | ⟨hnot, -⟩
      · refine .inr ⟨fun hc => Nat.lt_irrefl _ (hfirst c hc), ?_⟩
        rw [hzero, if_pos rfl]
      · exact absurd mem_cons_self hnot
    · simpa [hcd, Ne.symm hcd] using hd
  · rw [settled_cons_iff (by simp) (by simp)]
    exact h.underWay m (by simpa using hm)

lemma Sound.takes {exits} (he : l.exits = n :: exits) :
    Sound { l with exits := exits, log := .took n :: l.log } := by
  have hsettled : ∀ m, Settled m (.took n :: l.log) ↔ m = n ∨ Settled m l.log := by
    intro m
    unfold Settled
    simp [or_assoc]
  have hsorted := h.exitsSorted
  rw [he] at hsorted
  obtain ⟨hfirst, hrest⟩ := pairwise_cons.1 hsorted
  refine h.notes (.took n) (Nat.le_refl _) h.waitingSorted hrest (by simp) (by simp) (by simp)
    (by simp +contextual [he]) (by simp) ?_ (by simp) (fun d hd => ?_) fun m hm => ?_
  · rintro _ heq
    cases heq
    simpa [he] using fun m hm => Nat.le_of_lt (hfirst m hm)
  · rw [runs_cons_of_ne (by simp)]
    exact h.once d (by simpa using hd)
  have hm := h.underWay m (by simpa using hm)
  rw [he, mem_cons] at hm
  rw [hsettled, not_or, ← hm]
  constructor
  · intro hmem
    exact ⟨Nat.ne_of_lt (hfirst m hmem), .inr hmem⟩
  · rintro ⟨hne, rfl | hmem⟩
    · exact absurd rfl hne
    · exact hmem

lemma Sound.replaces {exits} (he : l.exits = n :: m :: exits) :
    Sound { l with exits := n :: exits, log := .replaced m n :: l.log } := by
  have hsettled : ∀ k, Settled k (.replaced m n :: l.log) ↔ k = m ∨ Settled k l.log := by
    intro k
    unfold Settled
    simp only [mem_cons, reduceCtorEq, false_or, Event.replaced.injEq]
    constructor
    · rintro (ht | ⟨j, ⟨rfl, -⟩ | hr⟩)
      · exact .inr (.inl ht)
      · exact .inl rfl
      · exact .inr (.inr ⟨j, hr⟩)
    · rintro (rfl | ht | ⟨j, hr⟩)
      · exact .inr ⟨n, .inl ⟨rfl, rfl⟩⟩
      · exact .inl ht
      · exact .inr ⟨j, .inr hr⟩
  have hsorted := h.exitsSorted
  rw [he] at hsorted
  obtain ⟨hfirst, hrest⟩ := pairwise_cons.1 hsorted
  obtain ⟨hsecond, hrest⟩ := pairwise_cons.1 hrest
  have hlt : m < n := hfirst m mem_cons_self
  refine h.notes (.replaced m n) (Nat.le_refl _) h.waitingSorted (pairwise_cons.2
    ⟨fun k hk => hfirst k (mem_cons_of_mem _ hk), hrest⟩) (by simp) (by simp) (by simp) ?_
    (by simp) (by simp) ?_ (fun d hd => ?_) fun k hk => ?_
  · rw [he]
    simp +contextual
  · rintro _ _ heq
    cases heq
    simp [he, hlt]
  · rw [runs_cons_of_ne (by simp)]
    exact h.once d (by simpa using hd)
  · have hk := h.underWay k (by simpa using hk)
    rw [he, mem_cons, mem_cons] at hk
    rw [hsettled, not_or, ← hk, mem_cons]
    constructor
    · rintro (rfl | hmem)
      · exact ⟨Nat.ne_of_gt hlt, .inl rfl⟩
      · exact ⟨Nat.ne_of_lt (hsecond k hmem), .inr (.inr hmem)⟩
    · rintro ⟨hne, heq | heq | hmem⟩
      · exact .inl heq
      · exact absurd heq hne
      · exact .inr hmem

lemma Sound.ticks : Sound { l with clock := l.clock + 1 } :=
  { h with
    openedPast := fun c hc => Nat.lt_succ_of_lt (h.openedPast c hc)
    startedPast := fun n hn => Nat.lt_succ_of_lt (h.startedPast n hn) }

end

lemma Move.sound (hmove : Move l l') (h : Sound l) : Sound l' := by
  cases hmove with
  | opens => exact h.opens
  | starts => exact h.starts
  | runs hw => exact h.runs hw _
  | takes he => exact h.takes he
  | replaces he => exact h.replaces he
  | ticks => exact h.ticks

/-- Whole runs keep a ledger sound. -/
lemma sound_of_moves (hmoves : Relation.ReflTransGen Move l l') (h : Sound l) : Sound l' := by
  induction hmoves with
  | refl => exact h
  | tail _ hmove ih => exact hmove.sound ih

lemma sound_empty (clock : ℕ) : Sound ⟨[], [], [], clock⟩ := by
  constructor <;> simp [Settled, Innermost, MostRecent]

end Diamond.Cleanup
