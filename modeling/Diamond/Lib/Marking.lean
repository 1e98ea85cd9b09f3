import Mathlib.Data.Finset.Card
import Mathlib.Data.Prod.Lex

/-!
# Marking a graph

A traversal that marks the nodes of a graph reachable from some roots, without entering the nodes to
be skipped.  It keeps the nodes whose successors are still to be visited on a stack, and visits them
at once when the stack cannot grow; what is left to do is a list of tasks.
-/

namespace Diamond.Marking

open List Function

/-- A graph, with the nodes a traversal does not enter and those it never puts on its stack. -/
structure Graph (α : Type*) where
  succ : α → List α
  skip : α → Bool
  leaf : α → Bool
  succ_leaf : ∀ a, leaf a = true → succ a = []

/-- What is left to do: visit a node, or empty the stack. -/
inductive Task (α : Type*)
  | visit (node : α)
  | drain
  deriving DecidableEq

/-- The state of a traversal; `draining` tells whether a task to empty the stack is under way. -/
structure Trace (α : Type*) where
  marked : α → Bool
  stack : List α
  draining : Bool
  tasks : List (Task α)

variable {α : Type*} [DecidableEq α] {g : Graph α} {t t' : Trace α} {roots : List α}

/-- One step; `push` tells whether the stack can grow, should it have to. -/
def step (g : Graph α) (push : Bool) (t : Trace α) : Option (Trace α) :=
  match t.tasks with
  | [] => none
  | .visit a :: rest =>
    if g.skip a ∨ t.marked a then
      some { t with tasks := rest }
    else if g.leaf a then
      some { t with marked := Function.update t.marked a true, tasks := rest }
    else if !push then
      some { t with
        marked := Function.update t.marked a true, tasks := (g.succ a).map .visit ++ rest }
    else if t.draining then
      some { t with
        marked := Function.update t.marked a true, stack := a :: t.stack, tasks := rest }
    else
      some ⟨Function.update t.marked a true, a :: t.stack, true, .drain :: rest⟩
  | .drain :: rest =>
    match t.stack with
    | [] => some { t with draining := false, tasks := rest }
    | a :: stack => some { t with stack := stack, tasks := (g.succ a).map .visit ++ .drain :: rest }

/-- The traversal before its first step. -/
def start (roots : List α) : Trace α := ⟨fun _ => false, [], false, roots.map .visit⟩

/-- A run of the traversal. -/
def Run (g : Graph α) : Trace α → Trace α → Prop :=
  Relation.ReflTransGen fun t t' => ∃ push, step g push t = some t'

/-- The nodes reachable from the roots without entering one to be skipped. -/
inductive Reach (g : Graph α) (roots : List α) : α → Prop
  | root {a} : a ∈ roots → g.skip a = false → Reach g roots a
  | step {a b} : Reach g roots a → b ∈ g.succ a → g.skip b = false → Reach g roots b

/-- The steps of a traversal by what they do: drop a node, mark it and go on with its successors now
or later, take a node off the stack, or finish emptying it. -/
inductive Moves (g : Graph α) (t : Trace α) : Trace α → Prop
  | drops {a rest} (htasks : t.tasks = .visit a :: rest) (ha : g.skip a = true ∨ t.marked a = true) :
      Moves g t { t with tasks := rest }
  | enters {a rest} (htasks : t.tasks = .visit a :: rest) (hskip : g.skip a = false)
      (hnew : t.marked a = false) :
      Moves g t { t with
        marked := Function.update t.marked a true, tasks := (g.succ a).map .visit ++ rest }
  | pushes {a rest} (htasks : t.tasks = .visit a :: rest) (hskip : g.skip a = false)
      (hnew : t.marked a = false) (tasks : List (Task α)) (hdrain : .drain ∈ tasks)
      (hrest : ∀ b, .visit b ∈ tasks ↔ .visit b ∈ rest) :
      Moves g t ⟨Function.update t.marked a true, a :: t.stack, true, tasks⟩
  | pops {a rest stack} (htasks : t.tasks = .drain :: rest) (hstack : t.stack = a :: stack) :
      Moves g t { t with stack := stack, tasks := (g.succ a).map .visit ++ .drain :: rest }
  | drained {rest} (htasks : t.tasks = .drain :: rest) (hstack : t.stack = []) :
      Moves g t { t with draining := false, tasks := rest }

/-- The traversal is emptying its stack when it says so, and whenever the stack is not empty. -/
structure Drains (t : Trace α) : Prop where
  draining : t.draining = true → .drain ∈ t.tasks
  stack : t.stack ≠ [] → .drain ∈ t.tasks

lemma moves_of_step {push} (hdrains : Drains t) (h : step g push t = some t') : Moves g t t' := by
  unfold step at h
  split at h
  case h_1 => cases h
  case h_2 a rest htasks =>
    split at h
    case isTrue ha =>
      cases h
      exact .drops htasks ha
    case isFalse ha =>
      have hskip : g.skip a = false := by
        cases hs : g.skip a with
        | false => rfl
        | true => exact absurd (.inl hs) ha
      have hnew : t.marked a = false := by
        cases hm : t.marked a with
        | false => rfl
        | true => exact absurd (.inr hm) ha
      split at h
      case isTrue hleaf =>
        cases h
        have := Moves.enters htasks hskip hnew
        rwa [g.succ_leaf a hleaf] at this
      case isFalse =>
        split at h
        case isTrue =>
          cases h
          exact .enters htasks hskip hnew
        case isFalse =>
          split at h
          case isTrue hdraining =>
            cases h
            have hdrain := hdrains.draining hdraining
            rw [htasks, mem_cons] at hdrain
            rw [hdraining]
            exact .pushes htasks hskip hnew rest (by simpa using hdrain) fun b => Iff.rfl
          case isFalse =>
            cases h
            exact .pushes htasks hskip hnew _ mem_cons_self fun b => by simp
  case h_3 htasks =>
    split at h
    case h_1 hstack =>
      cases h
      exact .drained htasks hstack
    case h_2 hstack =>
      cases h
      exact .pops htasks hstack

lemma Moves.drains (h : Moves g t t') (hdrains : Drains t) : Drains t' := by
  obtain ⟨hdraining, hstack⟩ := hdrains
  cases h with
  | drops htasks | enters htasks =>
    rw [htasks] at hdraining hstack
    exact ⟨fun hd => by simpa using hdraining hd, fun hs => by simpa using hstack hs⟩
  | pushes _ _ _ _ hdrain => exact ⟨fun _ => hdrain, fun _ => hdrain⟩
  | pops => exact ⟨fun _ => by simp, fun _ => by simp⟩
  | drained _ hempty => exact ⟨by simp, fun hs => absurd hempty hs⟩

/-! ## Correctness -/

/-- The invariant of a traversal from `roots`. -/
structure Tracing (g : Graph α) (roots : List α) (t : Trace α) : Prop where
  drains : Drains t
  marked : ∀ a, t.marked a = true → Reach g roots a
  stacked : ∀ a ∈ t.stack, t.marked a = true
  visited : ∀ a, .visit a ∈ t.tasks → g.skip a = false → Reach g roots a
  rooted : ∀ a ∈ roots, g.skip a = false → t.marked a = true ∨ .visit a ∈ t.tasks
  closed : ∀ a, t.marked a = true → ∀ b ∈ g.succ a, g.skip b = false →
    t.marked b = true ∨ .visit b ∈ t.tasks ∨ a ∈ t.stack

omit [DecidableEq α] in
lemma tracing_start : Tracing g roots (start roots) := by
  refine ⟨⟨by rintro ⟨⟩, fun h => absurd rfl h⟩, fun a h => (by cases h),
    fun a h => (by cases h), fun a ha hskip => ?_, fun a ha _ => .inr (mem_map_of_mem ha),
    fun a h => (by cases h)⟩
  obtain ⟨b, hb, heq⟩ := mem_map.1 ha
  cases heq
  exact .root hb hskip

/-- A marked node stays marked when another is. -/
lemma update_marked {a b} (h : t.marked b = true) : update t.marked a true b = true := by
  by_cases hba : b = a
  · rw [hba, update_self]
  · rw [update_of_ne hba, h]

lemma marked_of_update {a b} (h : update t.marked a true b = true) :
    b = a ∨ t.marked b = true := by
  by_cases hba : b = a
  · exact .inl hba
  · rw [update_of_ne hba] at h
    exact .inr h

/-- Marking a node whose successors are visited now or stand on the stack. -/
lemma Tracing.mark {a rest tasks stack draining}
    (h : Tracing g roots t) (htasks : t.tasks = .visit a :: rest) (hskip : g.skip a = false)
    (hdrains : Drains ⟨update t.marked a true, stack, draining, tasks⟩)
    (hstack : ∀ b ∈ stack, b = a ∨ b ∈ t.stack) (hkeep : ∀ b ∈ t.stack, b ∈ stack)
    (hvisit : ∀ b, .visit b ∈ tasks → .visit b ∈ rest ∨ b ∈ g.succ a)
    (hrest : ∀ b, .visit b ∈ rest → .visit b ∈ tasks)
    (hsucc : ∀ b ∈ g.succ a, .visit b ∈ tasks ∨ a ∈ stack) :
    Tracing g roots ⟨update t.marked a true, stack, draining, tasks⟩ := by
  have hreach : Reach g roots a := by
    apply h.visited a _ hskip
    rw [htasks]
    exact mem_cons_self
  -- A task of the rest is kept; the first one was for `a`.
  have htask : ∀ b, .visit b ∈ t.tasks → b = a ∨ .visit b ∈ tasks := by
    intro b hb
    rw [htasks] at hb
    rcases mem_cons.1 hb with heq | hb
    · cases heq
      exact .inl rfl
    · exact .inr (hrest b hb)
  constructor
  case drains => exact hdrains
  case marked =>
    intro b hb
    rcases marked_of_update hb with rfl | hb
    · exact hreach
    · exact h.marked b hb
  case stacked =>
    intro b hb
    rcases hstack b hb with rfl | hb
    · exact update_self ..
    · exact update_marked (h.stacked b hb)
  case visited =>
    intro b hb hbskip
    rcases hvisit b hb with hb | hb
    · apply h.visited b _ hbskip
      rw [htasks]
      exact mem_cons_of_mem _ hb
    · exact .step hreach hb hbskip
  case rooted =>
    intro b hb hbskip
    rcases h.rooted b hb hbskip with hm | hv
    · exact .inl (update_marked hm)
    · rcases htask b hv with rfl | hv
      · exact .inl (update_self ..)
      · exact .inr hv
  case closed =>
    intro b hb d hd hdskip
    rcases marked_of_update hb with rfl | hb
    · exact .inr (hsucc d hd)
    rcases h.closed b hb d hd hdskip with hm | hv | hs
    · exact .inl (update_marked hm)
    · rcases htask d hv with rfl | hv
      · exact .inl (update_self ..)
      · exact .inr (.inl hv)
    · exact .inr (.inr (hkeep b hs))

lemma Moves.tracing (hmoves : Moves g t t') (h : Tracing g roots t) : Tracing g roots t' := by
  have hdrains := hmoves.drains h.drains
  cases hmoves with
  | @drops a rest htasks ha =>
    obtain ⟨-, hmarked, hstacked, hvisited, hrooted, hclosed⟩ := h
    rw [htasks] at hvisited hrooted hclosed
    -- The node dropped is to be skipped or marked already.
    have hdrop : ∀ b, .visit b ∈ Task.visit a :: rest → g.skip b = false →
        t.marked b = true ∨ .visit b ∈ rest := by
      intro b hb hskip
      rcases mem_cons.1 hb with heq | hb
      · cases heq
        rw [hskip] at ha
        exact .inl (ha.resolve_left (by simp))
      · exact .inr hb
    refine ⟨hdrains, hmarked, hstacked, fun b hb => hvisited b (mem_cons_of_mem _ hb),
      fun b hb hskip => ?_, fun b hb d hd hskip => ?_⟩
    · rcases hrooted b hb hskip with hm | hv
      · exact .inl hm
      · exact hdrop b hv hskip
    · rcases hclosed b hb d hd hskip with hm | hv | hs
      · exact .inl hm
      · exact (hdrop d hv hskip).imp id .inl
      · exact .inr (.inr hs)
  | enters htasks hskip =>
    refine h.mark htasks hskip hdrains (fun b hb => .inr hb) (fun b hb => hb) ?_ ?_ ?_
    · intro b hb
      rcases mem_append.1 hb with hb | hb
      · obtain ⟨d, hd, heq⟩ := mem_map.1 hb
        cases heq
        exact .inr hd
      · exact .inl hb
    · intro b hb
      exact mem_append_right _ hb
    · intro b hb
      exact .inl (mem_append_left _ (mem_map_of_mem hb))
  | pushes htasks hskip _ _ _ hrest =>
    refine h.mark htasks hskip hdrains (fun b hb => mem_cons.1 hb)
      (fun b hb => mem_cons_of_mem _ hb) (fun b hb => .inl ((hrest b).1 hb))
      (fun b hb => (hrest b).2 hb) (fun b _ => .inr mem_cons_self)
  | @pops a _ _ htasks hstack =>
    obtain ⟨-, hmarked, hstacked, hvisited, hrooted, hclosed⟩ := h
    rw [htasks] at hvisited hrooted hclosed
    rw [hstack] at hstacked hclosed
    have hreach := hmarked a (hstacked a mem_cons_self)
    refine ⟨hdrains, hmarked, fun b hb => hstacked b (mem_cons_of_mem _ hb),
      fun b hb hskip => ?_, fun b hb hskip => ?_, fun b hb d hd hskip => ?_⟩
    · rcases mem_append.1 hb with hb | hb
      · obtain ⟨d, hd, heq⟩ := mem_map.1 hb
        cases heq
        exact .step hreach hd hskip
      · exact hvisited b hb hskip
    · exact (hrooted b hb hskip).imp id (mem_append_right _)
    · rcases hclosed b hb d hd hskip with hm | hv | hs
      · exact .inl hm
      · exact .inr (.inl (mem_append_right _ hv))
      · rcases mem_cons.1 hs with rfl | hs
        · exact .inr (.inl (mem_append_left _ (mem_map_of_mem hd)))
        · exact .inr (.inr hs)
  | @drained _ htasks _ =>
    obtain ⟨-, hmarked, hstacked, hvisited, hrooted, hclosed⟩ := h
    rw [htasks] at hvisited hrooted hclosed
    refine ⟨hdrains, hmarked, hstacked, fun b hb => hvisited b (mem_cons_of_mem _ hb),
      fun b hb hskip => ?_, fun b hb d hd hskip => ?_⟩
    · exact (hrooted b hb hskip).imp id fun hv => by simpa using hv
    · exact (hclosed b hb d hd hskip).imp id fun hv => by simpa using hv

lemma Run.tracing (hrun : Run g t t') (h : Tracing g roots t) : Tracing g roots t' := by
  induction hrun with
  | refl => exact h
  | tail _ hstep ih =>
    obtain ⟨_, hstep⟩ := hstep
    exact (moves_of_step ih.drains hstep).tracing ih

/-- A finished traversal has marked exactly the reachable nodes. -/
lemma marked_iff_reach (hrun : Run g (start roots) t) (hdone : t.tasks = []) (a : α) :
    t.marked a = true ↔ Reach g roots a := by
  obtain ⟨hdrains, hmarked, -, -, hrooted, hclosed⟩ := hrun.tracing tracing_start
  rw [hdone] at hrooted hclosed
  have hstack : t.stack = [] := by
    by_contra hne
    have := hdrains.stack hne
    rw [hdone] at this
    cases this
  refine ⟨hmarked a, fun hreach => ?_⟩
  induction hreach with
  | root ha hskip =>
    rcases hrooted _ ha hskip with hm | hv
    · exact hm
    · cases hv
  | step _ hb hskip ih =>
    rcases hclosed _ ih _ hb hskip with hm | hv | hs
    · exact hm
    · cases hv
    · rw [hstack] at hs
      cases hs

/-! ## Termination -/

/-- The nodes of `nodes` still to be marked. -/
def unmarked (nodes : Finset α) (t : Trace α) : Finset α := nodes.filter fun a => t.marked a = false

/-- The traversal stays among `nodes`. -/
def Within (nodes : Finset α) (t : Trace α) : Prop :=
  (∀ a, .visit a ∈ t.tasks → a ∈ nodes) ∧ ∀ a ∈ t.stack, a ∈ nodes

variable {nodes : Finset α}

open Finset

lemma unmarked_update {a} (ha : a ∈ nodes) (hnew : t.marked a = false)
    (ht' : t'.marked = update t.marked a true) :
    (unmarked nodes t').card < (unmarked nodes t).card := by
  apply card_lt_card
  refine ⟨fun b hb => ?_, fun hsub => ?_⟩
  · rw [unmarked, Finset.mem_filter, ht'] at hb
    refine mem_filter.2 ⟨hb.1, ?_⟩
    cases hm : t.marked b with
    | false => rfl
    | true => rw [update_marked hm] at hb; exact hb.2
  · have hmem := hsub (mem_filter.2 ⟨ha, hnew⟩)
    rw [unmarked, Finset.mem_filter, ht', update_self] at hmem
    cases hmem.2

/-- Each step marks a node, or takes one off the stack, or finishes a task. -/
lemma Moves.decreases (hmoves : Moves g t t') (hwithin : Within nodes t) :
    Prod.Lex (· < ·) (Prod.Lex (· < ·) (· < ·))
      ((unmarked nodes t').card, t'.stack.length, t'.tasks.length)
      ((unmarked nodes t).card, t.stack.length, t.tasks.length) := by
  have hvisit : ∀ {a rest}, t.tasks = .visit a :: rest → a ∈ nodes := by
    intro a rest htasks
    apply hwithin.1
    rw [htasks]
    exact mem_cons_self
  cases hmoves with
  | drops htasks | drained htasks =>
    rw [htasks]
    exact .right _ (.right _ (Nat.lt_succ_self _))
  | enters htasks _ hnew | pushes htasks _ hnew =>
    exact .left _ _ (unmarked_update (hvisit htasks) hnew rfl)
  | pops _ hstack =>
    rw [hstack]
    exact .right _ (.left _ _ (Nat.lt_succ_self _))

lemma Moves.within (hclosed : ∀ a ∈ nodes, ∀ b ∈ g.succ a, b ∈ nodes) (hmoves : Moves g t t')
    (hwithin : Within nodes t) : Within nodes t' := by
  obtain ⟨hvisit, hstack⟩ := hwithin
  have hsucc : ∀ {a b : α} {rest : List (Task α)}, a ∈ nodes →
      (∀ b, .visit b ∈ rest → b ∈ nodes) → .visit b ∈ (g.succ a).map Task.visit ++ rest → b ∈ nodes := by
    intro a b rest ha hrest hb
    rcases mem_append.1 hb with hb | hb
    · obtain ⟨d, hd, heq⟩ := mem_map.1 hb
      cases heq
      exact hclosed a ha _ hd
    · exact hrest b hb
  cases hmoves with rw [htasks] at hvisit
  | drops htasks | drained htasks =>
    exact ⟨fun b hb => hvisit b (mem_cons_of_mem _ hb), hstack⟩
  | enters htasks =>
    refine ⟨fun b hb => hsucc (hvisit _ mem_cons_self) (fun d hd => ?_) hb, hstack⟩
    exact hvisit d (mem_cons_of_mem _ hd)
  | pushes htasks _ _ _ _ hrest =>
    refine ⟨fun b hb => hvisit b (mem_cons_of_mem _ ((hrest b).1 hb)), fun b hb => ?_⟩
    rcases mem_cons.1 hb with rfl | hb
    · exact hvisit _ mem_cons_self
    · exact hstack b hb
  | pops htasks heq =>
    rw [heq] at hstack
    exact ⟨fun b hb => hsucc (hstack _ mem_cons_self) hvisit hb,
      fun b hb => hstack b (mem_cons_of_mem _ hb)⟩

/-- On a finite graph every traversal comes to an end, however the stack behaves. -/
lemma acc_step (hclosed : ∀ a ∈ nodes, ∀ b ∈ g.succ a, b ∈ nodes) (hdrains : Drains t)
    (hwithin : Within nodes t) : Acc (fun t' t => ∃ push, step g push t = some t') t := by
  have hwf : WellFounded (Prod.Lex (· < ·) (Prod.Lex (· < ·) (· < ·)) : ℕ × ℕ × ℕ → _ → Prop) :=
    WellFounded.prod_lex Nat.lt_wfRel.wf (WellFounded.prod_lex Nat.lt_wfRel.wf Nat.lt_wfRel.wf)
  generalize hmeasure : ((unmarked nodes t).card, t.stack.length, t.tasks.length) = n
  induction n using hwf.induction generalizing t with
  | _ n ih =>
    subst hmeasure
    refine ⟨t, fun t' ⟨push, hstep⟩ => ?_⟩
    have hmoves := moves_of_step hdrains hstep
    exact ih _ (hmoves.decreases hwithin) (hmoves.drains hdrains) (hmoves.within hclosed hwithin) rfl

lemma exists_step (push : Bool) (h : t.tasks ≠ []) : ∃ t', step g push t = some t' := by
  unfold step
  cases htasks : t.tasks with
  | nil => exact absurd htasks h
  | cons task =>
    cases task with
    | visit =>
      dsimp only
      split
      · exact ⟨_, rfl⟩
      split
      · exact ⟨_, rfl⟩
      · split
        · exact ⟨_, rfl⟩
        · split <;> exact ⟨_, rfl⟩
    | drain => cases t.stack <;> exact ⟨_, rfl⟩

/-- Every traversal of a finite graph can be finished. -/
lemma exists_finished (hclosed : ∀ a ∈ nodes, ∀ b ∈ g.succ a, b ∈ nodes)
    (hroots : ∀ a ∈ roots, a ∈ nodes) : ∃ t, Run g (start roots) t ∧ t.tasks = [] := by
  have hwithin : Within nodes (start roots) := by
    refine ⟨fun a ha => ?_, fun a ha => (by cases ha)⟩
    obtain ⟨b, hb, heq⟩ := mem_map.1 ha
    cases heq
    exact hroots _ hb
  have hacc : Acc (fun t' t => ∃ push, step g push t = some t') (start roots) :=
    acc_step hclosed (tracing_start (g := g)).drains hwithin
  generalize start roots = t₀ at hacc
  induction hacc with
  | intro t₀ _ ih =>
    by_cases hdone : t₀.tasks = []
    · exact ⟨t₀, .refl, hdone⟩
    · obtain ⟨t₁, hstep⟩ := exists_step true hdone
      obtain ⟨t, hrun, ht⟩ := ih t₁ ⟨true, hstep⟩
      exact ⟨t, .head ⟨true, hstep⟩ hrun, ht⟩

end Diamond.Marking
