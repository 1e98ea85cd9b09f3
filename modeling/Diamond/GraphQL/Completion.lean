import Diamond.GraphQL.Answers
import Mathlib.Data.Set.Finite.Lemmas

/-!
# Groups of fibers end

Every run ends, since a fiber that is resumed has come closer to its end.  A run does not stall as
long as no group dispatches keys that a fiber around it waits for; where that happens, the outer
group finds nothing to dispatch for the fiber that waits, and gives up although the key has its
answer.
-/

namespace Diamond.GraphQL

open List Function Dataloader

open Relation (ReflTransGen)

variable {N K V : Type} [DecidableEq N] [DecidableEq K] {batch : Batch N K V}
  {s s' : Dataloader N K V} {n : N} {k : K}

/-! ## What every step keeps -/

/-- A loader with pending keys is in the list that `dispatch_pending` goes through. -/
def Named (s : Dataloader N K V) : Prop := ∀ n, s.pending n ≠ [] → n ∈ s.names

/-- Only registering adds a pending key, and it names the loader. -/
lemma Named.step (hs : Named s) (h : Prim batch s s') : Named s' := by
  cases h with
  | @register n k _ _ =>
    intro m hm
    rw [register] at hm ⊢
    by_cases heq : m = n
    · subst heq
      dsimp only
      split
      · assumption
      · exact mem_append_right _ (mem_singleton_self _)
    · simp only [update_of_ne heq] at hm
      dsimp only
      split
      · exact hs m hm
      · exact mem_append_left _ (hs m hm)
  | @dispatch n answer _ _ =>
    obtain ⟨hnames, hpending, -⟩ := dispatch_frame s n answer
    intro m hm
    rw [hpending] at hm
    rw [hnames]
    by_cases heq : m = n
    · subst heq
      rw [update_self] at hm
      exact absurd rfl hm
    · rw [update_of_ne heq] at hm
      exact hs m hm
  | _ => exact hs

lemma resolved_step (h : Prim batch s s') (hk : s.Resolved n k) : s'.Resolved n k := by
  cases h with
  | dispatch => exact dispatch_resolved _ _ _ (.inl hk)
  | _ => exact hk

lemma asked_step (h : Prim batch s s') (hk : s.Asked n k) : s'.Asked n k := by
  cases h with
  | @register m _ _ _ =>
    rcases hk with hk | hk
    · left
      rw [register]
      by_cases heq : n = m
      · subst heq
        simp only [update_self]
        split
        · exact hk
        · exact mem_append_left _ hk
      · simpa only [update_of_ne heq] using hk
    · exact .inr hk
  | @dispatch m answer _ _ =>
    rcases hk with hk | hk
    · by_cases heq : n = m
      · exact .inr (dispatch_resolved _ _ _ (.inr ⟨heq, heq ▸ hk⟩))
      · left
        rw [(dispatch_frame s m answer).2.1, update_of_ne heq]
        exact hk
    · exact .inr (dispatch_resolved _ _ _ (.inl hk))
  | _ => exact hk

lemma log_step (h : Prim batch s s') : ∃ more, s'.log = s.log ++ more := by
  cases h with
  | register => exact ⟨[], (append_nil _).symm⟩
  | @dispatch n answer _ _ => exact ⟨_, (dispatch_frame s n answer).2.2⟩
  | _ => exact ⟨_, rfl⟩

section
variable (h : ReflTransGen (Prim batch) s s')
include h

lemma log_steps : ∃ more, s'.log = s.log ++ more := by
  induction h with
  | refl => exact ⟨[], (append_nil _).symm⟩
  | tail _ hlast ih =>
    obtain ⟨more, hmore⟩ := ih
    obtain ⟨more', hmore'⟩ := log_step hlast
    exact ⟨more ++ more', by rw [hmore', hmore, append_assoc]⟩

lemma Named.steps (hs : Named s) : Named s' := by
  induction h with
  | refl => exact hs
  | tail _ hlast ih => exact ih.step hlast

lemma resolved_steps (hk : s.Resolved n k) : s'.Resolved n k := by
  induction h with
  | refl => exact hk
  | tail _ hlast ih => exact resolved_step hlast ih

lemma asked_steps (hk : s.Asked n k) : s'.Asked n k := by
  induction h with
  | refl => exact hk
  | tail _ hlast ih => exact asked_step hlast ih

end

/-! ## Fibers -/

/-- The fiber goes on when it is resumed. -/
def Ready (s : Dataloader N K V) : Fiber N K V → Prop
  | .fresh _ => True
  | .waiting n k _ => s.Resolved n k

/-- The key that a fiber waits for is asked for. -/
def Waits (s : Dataloader N K V) : Fiber N K V → Prop
  | .fresh _ => False
  | .waiting n k _ => s.Asked n k

variable {fiber : Fiber N K V} {outer : Bool} {body : Body N K V}
  {next : Except String V → Body N K V} {fibers alive : List (Fiber N K V)} {bound : Ordinal.{0}}

lemma ready_steps (h : ReflTransGen (Prim batch) s s') (hf : Ready s fiber) : Ready s' fiber := by
  cases fiber with
  | fresh => trivial
  | waiting => exact resolved_steps h hf

lemma waits_steps (h : ReflTransGen (Prim batch) s s') (hf : Waits s fiber) : Waits s' fiber := by
  cases fiber with
  | fresh => exact hf
  | waiting => exact asked_steps h hf

lemma mem_register (s : Dataloader N K V) (n : N) (k : K) : k ∈ (s.register n k).pending n := by
  rw [register]
  simp only [update_self]
  split
  · assumption
  · exact mem_append_right _ (mem_singleton_self _)

variable {group : Group N K V}

/-- A body that suspends has registered its key. -/
lemma execute_waiting (h : execute group outer body s = .ok (.waiting n k next, s')) :
    k ∈ s'.pending n := by
  induction body generalizing s with
  | done | raise => cases h
  | load _ _ _ ih =>
    rw [execute] at h
    split at h
    · exact ih _ h
    · split at h
      · exact ih _ h
      · cases h
        exact mem_register s n k
  | list _ _ _ _ ih =>
    rw [execute] at h
    split at h
    · exact ih _ h
    · cases h

lemma resume_waiting (hready : Ready s fiber)
    (h : resume group outer fiber s = .ok (.waiting n k next, s')) : k ∈ s'.pending n := by
  cases fiber with
  | fresh => exact execute_waiting h
  | waiting =>
    rw [resume] at h
    split at h
    · exact execute_waiting h
    · next hfailed =>
      split at h
      · exact execute_waiting h
      · next hcache =>
        rcases hready with hready | hready
        · exact absurd hcache hready
        · exact absurd hfailed hready

/-- What a round leaves has every property that later steps keep and resumed fibers have. -/
lemma round_left {P : Dataloader N K V → Fiber N K V → Prop} (hgroup : Stepwise batch group) {left}
    (hkeep : ∀ {s s' f}, ReflTransGen (Prim batch) s s' → P s f → P s' f)
    (hnew : ∀ fiber ∈ fibers, ∀ outer s s' n k next, Ready s fiber →
      resume group outer fiber s = .ok (.waiting n k next, s') → P s' (.waiting n k next))
    (hready : ∀ f ∈ fibers, Ready s f) (halive : ∀ f ∈ alive, P s f)
    (h : round group outer fibers alive s = .ok (.ok left, s')) : ∀ f ∈ left, P s' f := by
  induction fibers generalizing alive s with
  | nil =>
    cases h
    exact halive
  | cons fiber _ ih =>
    rw [forall_mem_cons] at hnew hready
    rw [round] at h
    split at h
    · next hresume =>
      have hsteps := resume_steps hgroup hresume
      exact ih hnew.2 (fun f hf => ready_steps hsteps (hready.2 f hf))
        (fun f hf => hkeep hsteps (halive f hf)) h
    · next hresume =>
      have hsteps := resume_steps hgroup hresume
      refine ih hnew.2 (fun f hf => ready_steps hsteps (hready.2 f hf)) ?_ h
      rw [forall_mem_append, forall_mem_singleton]
      exact ⟨fun f hf => hkeep hsteps (halive f hf), hnew.1 _ _ _ _ _ _ hready.1 hresume⟩
    all_goals cases h

/-- The fibers that a round leaves are waiting. -/
lemma round_waits (hgroup : Stepwise batch group) {left}
    (hready : ∀ f ∈ fibers, Ready s f) (halive : ∀ f ∈ alive, Waits s f)
    (h : round group outer fibers alive s = .ok (.ok left, s')) : ∀ f ∈ left, Waits s' f := by
  refine round_left hgroup waits_steps ?_ hready halive h
  intro _ _ _ _ _ _ _ _ hfirst hresume
  exact .inl (resume_waiting hfirst hresume)

/-- A key of a loader that is dispatched is resolved. -/
lemma dispatchAll_resolved {names already any} (hn : n ∈ names) (hk : s.Asked n k)
    (h : s.dispatchAll batch names already = .ok (s', any)) : s'.Resolved n k := by
  induction names generalizing s already with
  | nil => cases hn
  | cons _ _ ih =>
    rw [dispatchAll] at h
    split at h
    · next hempty =>
      rcases mem_cons.1 hn with rfl | hmem
      · rcases hk with hk | hk
        · rw [hempty] at hk
          cases hk
        · exact resolved_steps (dispatchAll_steps h) hk
      · exact ih hmem hk h
    · next hpending =>
      split at h
      · next hbatch =>
        rcases mem_cons.1 hn with rfl | hmem
        · refine resolved_steps (dispatchAll_steps h) (dispatch_resolved _ _ _ ?_)
          exact hk.elim (fun hk => .inr ⟨rfl, hk⟩) .inl
        · exact ih hmem (asked_step (.dispatch hpending hbatch) hk) h
      · cases h

/-- After a dispatch every waiting fiber can go on. -/
lemma dispatchPending_ready (hs : Named s) (hf : Waits s fiber)
    (h : s.dispatchPending batch outer = .ok (.ok (), s')) : Ready s' fiber := by
  cases fiber with
  | fresh => trivial
  | waiting n k next =>
    rw [dispatchPending] at h
    split at h
    · next t hall =>
      have hresolved : t.Resolved n k := by
        rcases hf with hf | hf
        · exact dispatchAll_resolved (hs n (ne_nil_of_mem hf)) (.inl hf) hall
        · exact resolved_steps (dispatchAll_steps hall) hf
      cases h
      cases outer <;> exact hresolved
    all_goals cases h

/-! ## Groups do not stall -/

/-- From `s` to `s'`, unless a dispatch reached a group around: nothing stalls, and `Q`. -/
abbrev Quiet (Q : Prop) (s s' : Dataloader N K V) : Prop :=
  ∃ more, s'.log = s.log ++ more ∧ (.reached ∉ more → .stalled ∉ more ∧ Q)

omit [DecidableEq N] [DecidableEq K] in
lemma Quiet.trans {Q Q' R : Prop} {t} (h : Quiet Q s t) (h' : Quiet Q' t s')
    (hboth : Q → Q' → R) : Quiet R s s' := by
  obtain ⟨more, hlog, hmore⟩ := h
  obtain ⟨more', hlog', hmore'⟩ := h'
  refine ⟨more ++ more', by rw [hlog', hlog, append_assoc], fun hreached => ?_⟩
  rw [mem_append, not_or] at hreached ⊢
  obtain ⟨hstalled, hQ⟩ := hmore hreached.1
  obtain ⟨hstalled', hQ'⟩ := hmore' hreached.2
  exact ⟨⟨hstalled, hstalled'⟩, hboth hQ hQ'⟩

/-- From `s` to `s'`: unless a dispatch reached a group around, nothing stalls, and what a fiber
around waits for is still pending. -/
def Calm (outer : Bool) (s s' : Dataloader N K V) : Prop :=
  ∃ more, s'.log = s.log ++ more ∧ (.reached ∉ more → .stalled ∉ more ∧
    (outer = true → ∀ n, ∀ k ∈ s.pending n, k ∈ s'.pending n))

section
omit [DecidableEq N] [DecidableEq K]

lemma Calm.refl (outer : Bool) (s : Dataloader N K V) : Calm outer s s :=
  ⟨[], (append_nil _).symm, fun _ => ⟨not_mem_nil, fun _ _ _ h => h⟩⟩

lemma Calm.trans {t} (h : Calm outer s t) (h' : Calm outer t s') : Calm outer s s' :=
  Quiet.trans h h' fun hkept hkept' houter n k hk => hkept' houter n k (hkept houter n k hk)

lemma Calm.note (s : Dataloader N K V) {event} (hevent : event ≠ .stalled) :
    Calm outer s (s.note event) := by
  refine ⟨[event], rfl, fun _ => ⟨fun hmem => ?_, fun _ n k hk => hk⟩⟩
  exact hevent (mem_singleton.1 hmem).symm

end

lemma Calm.register (s : Dataloader N K V) (n : N) (k : K) : Calm outer s (s.register n k) := by
  refine ⟨[], (append_nil _).symm, fun _ => ⟨not_mem_nil, fun _ m _ hkey => ?_⟩⟩
  rw [Dataloader.register]
  by_cases heq : m = n
  · subst heq
    simp only [update_self]
    split
    · exact hkey
    · exact mem_append_left _ hkey
  · simpa only [update_of_ne heq] using hkey

/-- A group that does so. -/
def CalmGroup (group : Group N K V) : Prop :=
  ∀ outer fibers s result s', Named s → (∀ f ∈ fibers, Ready s f) →
    group outer fibers s = .ok (result, s') → Calm outer s s'

/-- A round is calm for the group around it, and leaves fibers whose keys are pending. -/
abbrev CalmRound (outer : Bool) (alive : List (Fiber N K V)) (s s' : Dataloader N K V)
    (result : Except Failure (List (Fiber N K V))) : Prop :=
  Quiet ((outer = true → ∀ n, ∀ k ∈ s.pending n, k ∈ s'.pending n) ∧
    ((∃ n, s.pending n ≠ []) ∨ alive = [] → ∀ left, result = .ok left → left ≠ [] →
      ∃ n, s'.pending n ≠ [])) s s'

section
variable {group : Group N K V} (hgroup : Stepwise batch group) (hcalm : CalmGroup group)
include hgroup hcalm

/-- A body runs calmly if its groups do. -/
lemma execute_calm {outcome} (hs : Named s)
    (h : execute group outer body s = .ok (outcome, s')) : Calm outer s s' := by
  induction body generalizing s with
  | done | raise =>
    cases h
    exact .refl _ _
  | load name key _ ih =>
    rw [execute] at h
    split at h
    · exact (Calm.note s (by simp)).trans (ih _ hs h)
    · split at h
      · exact (Calm.note s (by simp)).trans (ih _ hs h)
      · cases h
        exact .register s name key
  | list _ _ next _ ih =>
    rw [execute] at h
    split at h
    · next _ t hrun =>
      have hsteps := hgroup _ _ _ _ _ hrun
      refine (hcalm _ _ _ _ _ hs ?_ hrun).trans (ih _ (hs.steps hsteps) h)
      intro f hf
      obtain ⟨i, -, rfl⟩ := mem_map.1 hf
      trivial
    · cases h

/-- A fiber runs calmly if its groups do. -/
lemma resume_calm {outcome} (hs : Named s)
    (h : resume group outer fiber s = .ok (outcome, s')) : Calm outer s s' := by
  cases fiber with
  | fresh => exact execute_calm hgroup hcalm hs h
  | waiting =>
    rw [resume] at h
    split at h
    · exact (Calm.note s (by simp)).trans (execute_calm hgroup hcalm hs h)
    · split at h
      · exact (Calm.note s (by simp)).trans (execute_calm hgroup hcalm hs h)
      · cases h
        exact .refl _ _

/-- A round runs calmly if its groups do. -/
lemma round_calm {result} (hs : Named s)
    (hready : ∀ f ∈ fibers, Ready s f) (h : round group outer fibers alive s = .ok (result, s')) :
    CalmRound outer alive s s' result := by
  induction fibers generalizing alive s with
  | nil =>
    cases h
    refine ⟨[], (append_nil _).symm, fun _ => ⟨not_mem_nil, fun _ _ _ h => h, ?_⟩⟩
    rintro (hpending | rfl) left hleft hne
    · exact hpending
    · cases hleft
      exact absurd rfl hne
  | cons fiber rest ih =>
    -- What the rest of the round does, from the state in which this fiber leaves the loaders.
    have hnext : ∀ {flag outcome t alive'}, resume group flag fiber s = .ok (outcome, t) →
        (outer = true → flag = true) → (alive ≠ [] → flag = true) →
        round group outer rest alive' t = .ok (result, s') →
        (alive' = [] ∨ (alive' = alive ∧ alive ≠ []) ∨ ∃ n, t.pending n ≠ []) →
        CalmRound outer alive s s' result := by
      intro flag outcome t alive' hresume houter halive hround hcase
      have hsteps := resume_steps hgroup hresume
      have hrest := ih (hs.steps hsteps)
        (fun f hf => ready_steps hsteps (hready f (mem_cons_of_mem _ hf))) hround
      refine .trans (resume_calm hgroup hcalm hs hresume) hrest ?_
      rintro hkept ⟨hkept', hleft'⟩
      refine ⟨fun hout n k hk => hkept' hout n k (hkept (houter hout) n k hk), ?_⟩
      intro hbefore left hleft hne
      refine hleft' ?_ left hleft hne
      rcases hcase with hempty | ⟨-, hne⟩ | hpending
      · exact .inr hempty
      · rcases hbefore with ⟨n, hn⟩ | hempty
        · obtain ⟨k, hk⟩ := exists_mem_of_ne_nil _ hn
          exact .inl ⟨n, ne_nil_of_mem (hkept (halive hne) n k hk)⟩
        · exact absurd hempty hne
      · exact .inl hpending
    have houter : outer = true → (outer || !alive.isEmpty) = true := by
      intro hout
      rw [hout, Bool.true_or]
    have halive : alive ≠ [] → (outer || !alive.isEmpty) = true := by
      intro hne
      simp [hne]
    rw [round] at h
    split at h
    · next hresume =>
      refine hnext hresume houter halive h ?_
      by_cases hempty : alive = []
      · exact .inl hempty
      · exact .inr (.inl ⟨rfl, hempty⟩)
    · next hresume =>
      have hmem := resume_waiting (hready fiber mem_cons_self) hresume
      exact hnext hresume houter halive h (.inr (.inr ⟨_, ne_nil_of_mem hmem⟩))
    · next _ t hresume =>
      cases h
      have hnote : Calm outer t (t.note .escaped) := .note t (by simp)
      refine .trans (resume_calm hgroup hcalm hs hresume) hnote fun hkept hkept' => ?_
      refine ⟨fun hout n k hk => hkept' hout n k (hkept (houter hout) n k hk), ?_⟩
      intro _ left hleft
      cases hleft
    · cases h

end

lemma dispatchAll_flag {names any} (h : s.dispatchAll batch names true = .ok (s', any)) :
    any = true := by
  induction names generalizing s with
  | nil =>
    cases h
    rfl
  | cons _ _ ih =>
    rw [dispatchAll] at h
    split at h
    · exact ih h
    · split at h
      · exact ih h
      · cases h

/-- With a pending key a dispatch is made. -/
lemma dispatchAll_any {names already any} (hn : n ∈ names) (hpending : s.pending n ≠ [])
    (h : s.dispatchAll batch names already = .ok (s', any)) : any = true := by
  induction names with
  | nil => cases hn
  | cons _ _ ih =>
    rw [dispatchAll] at h
    split at h
    · next hempty =>
      refine ih ((mem_cons.1 hn).resolve_left ?_) h
      rintro rfl
      exact hpending hempty
    · split at h
      · exact dispatchAll_flag h
      · cases h

/-- A dispatch logs calls only. -/
lemma dispatchAll_log {names already any} (h : s.dispatchAll batch names already = .ok (s', any)) :
    ∃ more, s'.log = s.log ++ more ∧
      ∀ event ∈ more, ∃ name keys answer, event = .called name keys answer := by
  induction names generalizing s already with
  | nil =>
    cases h
    exact ⟨[], (append_nil _).symm, by simp⟩
  | cons name _ ih =>
    rw [dispatchAll] at h
    split at h
    · exact ih h
    split at h
    · next answer _ =>
      obtain ⟨more, hlog, hmore⟩ := ih h
      rw [(dispatch_frame s name answer).2.2, append_assoc] at hlog
      refine ⟨_, hlog, fun event hevent => ?_⟩
      rcases mem_append.1 hevent with hevent | hevent
      · exact ⟨_, _, _, mem_singleton.1 hevent⟩
      · exact hmore event hevent
    · cases h

/-- With a pending key a dispatch does not stall. -/
lemma dispatchPending_calm {result} (hs : Named s) (hpending : ∃ n, s.pending n ≠ [])
    (h : s.dispatchPending batch outer = .ok (result, s')) : result = .ok () ∧ Calm outer s s' := by
  obtain ⟨n, hn⟩ := hpending
  rw [dispatchPending] at h
  split at h
  · next t hall =>
    obtain ⟨more, hlog, hmore⟩ := dispatchAll_log hall
    cases h
    refine ⟨rfl, ?_⟩
    cases outer with
    | false =>
      refine ⟨more, hlog, fun _ => ⟨fun hmem => ?_, by simp⟩⟩
      obtain ⟨_, _, _, hevent⟩ := hmore _ hmem
      cases hevent
    | true =>
      refine ⟨more ++ [.reached], ?_, fun hreached => ?_⟩
      · show t.log ++ [.reached] = _
        rw [hlog, append_assoc]
      · exact absurd (mem_append_right _ (mem_singleton_self _)) hreached
  · next hall => cases dispatchAll_any (hs n hn) hn hall
  · cases h

/-- A group runs calmly, by induction on the fuel and its rounds. -/
lemma run_calm (fuel : ℕ) : CalmGroup (run batch fuel) := by
  induction fuel with
  | zero =>
    intro outer fibers s _ s' _ _ h
    cases h
  | succ fuel ih =>
    intro outer fibers s _ s' hs hready h
    cases fibers with
    | nil =>
      cases h
      exact .refl _ _
    | cons =>
      have hstep : Stepwise batch (run batch fuel) := run_steps fuel
      rw [run] at h
      split at h
      · cases h
      case h_2 hround | h_3 hround =>
        cases h
        obtain ⟨more, hlog, hmore⟩ := round_calm hstep ih hs hready hround
        exact ⟨more, hlog, fun hreached => ⟨(hmore hreached).1, (hmore hreached).2.1⟩⟩
      · next _ _ t hround =>
        have hsteps := round_steps hstep hround
        have hwaits := round_waits hstep hready (by simp) hround
        obtain ⟨more, hlog, hmore⟩ := round_calm hstep ih hs hready hround
        have ht := hs.steps hsteps
        by_cases hreached : .reached ∈ more
        · -- Once a group around was reached, nothing more is to show.
          have hlater : ReflTransGen (Prim batch) t s' := by
            split at h
            · cases h
            · next hresult =>
              cases h
              exact dispatchPending_steps hresult
            · next hresult => exact (dispatchPending_steps hresult).trans (hstep _ _ _ _ _ h)
          obtain ⟨more', hlog'⟩ := log_steps hlater
          refine ⟨more ++ more', by rw [hlog', hlog, append_assoc], fun hnot => ?_⟩
          exact absurd (mem_append_left _ hreached) hnot
        · obtain ⟨hstalled, hkept, hleft⟩ := hmore hreached
          have hpending := hleft (.inr rfl) _ rfl (cons_ne_nil _ _)
          have hround' : Calm outer s t := ⟨more, hlog, fun _ => ⟨hstalled, hkept⟩⟩
          split at h
          · cases h
          · next hresult => cases (dispatchPending_calm ht hpending hresult).1
          · next hresult =>
            refine (hround'.trans (dispatchPending_calm ht hpending hresult).2).trans
              (ih _ _ _ _ _ (ht.steps (dispatchPending_steps hresult)) ?_ h)
            exact fun f hf => dispatchPending_ready ht (hwaits f hf) hresult

/-- A round fails only with what a fiber raises. -/
lemma round_error {failure}
    (h : round group outer fibers alive s = .ok (.error failure, s')) : .escaped ∈ s'.log := by
  induction fibers generalizing alive s with
  | nil => cases h
  | cons _ _ ih =>
    rw [round] at h
    split at h
    · exact ih h
    · exact ih h
    · cases h
      exact mem_append_right _ (mem_singleton_self _)
    · cases h

/-- A group fails only at a stall or with what a fiber raises. -/
lemma run_error {fuel failure} (h : run batch fuel outer fibers s = .ok (.error failure, s')) :
    .stalled ∈ s'.log ∨ .escaped ∈ s'.log := by
  induction fuel generalizing fibers s with
  | zero => cases h
  | succ _ ih =>
    cases fibers with
    | nil => cases h
    | cons =>
      rw [run] at h
      split at h
      · cases h
      · next hround =>
        cases h
        exact .inr (round_error hround)
      · cases h
      · split at h
        · cases h
        · next hresult =>
          cases h
          rw [dispatchPending] at hresult
          split at hresult
          · cases hresult
          · cases hresult
            exact .inl (mem_append_right _ (mem_singleton_self _))
          · cases hresult
        · exact ih h

/-! ## Fuel -/

/-- A result, and not only that the fuel has run out. -/
def Ended {α : Type} (result : Except Stop α) : Prop := result ≠ .error .outOfFuel

lemma Ended.ok {α : Type} (a : α) : Ended (.ok a) := nofun

lemma Ended.error {α β : Type} {stop} (h : Ended (.error stop : Except Stop α)) :
    Ended (.error stop : Except Stop β) :=
  fun heq => h (by rw [Except.error.inj heq])

/-- The group of the right has every result of that of the left. -/
def Extends (group group' : Group N K V) : Prop :=
  ∀ outer fibers s, Ended (group outer fibers s) → group' outer fibers s = group outer fibers s

section
variable {group group' : Group N K V} (hgroup : Extends group group')
include hgroup

/-- A body that ends does so with more fuel, in the same way. -/
lemma execute_extends (h : Ended (execute group outer body s)) :
    execute group' outer body s = execute group outer body s := by
  induction body generalizing s with
  | done | raise => rfl
  | load _ _ _ ih =>
    rw [execute] at h ⊢
    rw [execute]
    split at h
    · exact ih _ h
    · split at h
      · exact ih _ h
      · rfl
  | list count items next _ ih =>
    rw [execute] at h ⊢
    rw [execute]
    cases hrun : group outer ((List.range count).map fun i => .fresh (items i)) s with
    | ok ended =>
      rw [hgroup _ _ _ (by rw [hrun]; exact .ok _), hrun]
      rw [hrun] at h
      exact ih _ h
    | error stop =>
      rw [hrun] at h
      rw [hgroup _ _ _ (by rw [hrun]; exact h.error), hrun]

lemma resume_extends (h : Ended (resume group outer fiber s)) :
    resume group' outer fiber s = resume group outer fiber s := by
  cases fiber with
  | fresh => exact execute_extends hgroup h
  | waiting =>
    rw [resume] at h ⊢
    rw [resume]
    split at h
    · exact execute_extends hgroup h
    · split at h
      · exact execute_extends hgroup h
      · rfl

lemma round_extends (h : Ended (round group outer fibers alive s)) :
    round group' outer fibers alive s = round group outer fibers alive s := by
  induction fibers generalizing alive s with
  | nil => rfl
  | cons fiber _ ih =>
    rw [round] at h ⊢
    rw [round]
    cases hresume : resume group (outer || !alive.isEmpty) fiber s with
    | ok ended =>
      rw [resume_extends hgroup (by rw [hresume]; exact .ok _), hresume]
      rw [hresume] at h
      obtain ⟨outcome, t⟩ := ended
      cases outcome with
      | finished | waiting => exact ih h
      | raised => rfl
    | error stop =>
      rw [hresume] at h
      rw [resume_extends hgroup (by rw [hresume]; exact h.error), hresume]

end

lemma run_extends_succ (fuel : ℕ) : Extends (run batch fuel) (run batch (fuel + 1)) := by
  induction fuel with
  | zero =>
    intro _ fibers s h
    exact absurd rfl h
  | succ fuel ih =>
    intro outer fibers s h
    cases fibers with
    | nil => rfl
    | cons fiber fibers =>
      rw [run] at h ⊢
      rw [run]
      cases hround : round (run batch fuel) outer (fiber :: fibers) [] s with
      | error stop =>
        rw [hround] at h
        rw [round_extends ih (by rw [hround]; exact h.error), hround]
      | ok ended =>
        rw [round_extends ih (by rw [hround]; exact .ok _), hround]
        rw [hround] at h
        obtain ⟨result, t⟩ := ended
        cases result with
        | error => rfl
        | ok left =>
          cases left with
          | nil => rfl
          | cons =>
            dsimp only at h ⊢
            split at h
            · rfl
            · rfl
            · exact ih _ _ _ h

/-- So does a group, with any more fuel. -/
lemma run_extends {fuel fuel'} (hle : fuel ≤ fuel') :
    Extends (run batch fuel) (run batch fuel') := by
  induction hle with
  | refl => exact fun _ _ _ _ => rfl
  | step _ ih =>
    intro outer fibers s h
    have hstep := ih outer fibers s h
    rw [run_extends_succ _ _ _ _ (by rwa [hstep]), hstep]

/-! ## Groups end -/

/-- What a body goes on with. -/
inductive Below : Body N K V → Body N K V → Prop
  | answer (name : N) (key : K) (next : Except String V → Body N K V) (result) :
      Below (next result) (.load name key next)
  | item (count : ℕ) (items : ℕ → Body N K V) (next) (i : ℕ) :
      Below (items i) (.list count items next)
  | ended (count : ℕ) (items : ℕ → Body N K V) (next : Except Failure Unit → Body N K V) (result) :
      Below (next result) (.list count items next)

omit [DecidableEq N] [DecidableEq K] in
/-- No body goes on forever. -/
lemma below_wellFounded : WellFounded (Below : Body N K V → Body N K V → Prop) := by
  refine ⟨fun body => ?_⟩
  induction body with
  | done | raise => exact ⟨_, fun _ h => by cases h⟩
  | load _ _ _ ih =>
    refine ⟨_, fun body h => ?_⟩
    cases h
    exact ih _
  | list _ _ _ ih ih' =>
    refine ⟨_, fun body h => ?_⟩
    cases h with
    | item => exact ih _
    | ended => exact ih' _

/-- How far a body is from its end. -/
noncomputable def distance (body : Body N K V) : Ordinal.{0} := (below_wellFounded.apply body).rank

omit [DecidableEq N] [DecidableEq K] in
lemma distance_lt {body'} (h : Below body' body) : distance body' < distance body :=
  Acc.rank_lt_of_rel _ h

/-- A fiber that has not been resumed is one step farther. -/
noncomputable def fiberDistance : Fiber N K V → Ordinal.{0}
  | .fresh body => Order.succ (distance body)
  | .waiting name key next => distance (.load name key next)

/-- A body that suspends is no further from its end. -/
lemma execute_closer (h : execute group outer body s = .ok (.waiting n k next, s')) :
    distance (.load n k next) ≤ distance body := by
  induction body generalizing s with
  | done | raise => cases h
  | load _ _ _ ih =>
    rw [execute] at h
    split at h
    · exact (ih _ h).trans (distance_lt (.answer _ _ _ _)).le
    · split at h
      · exact (ih _ h).trans (distance_lt (.answer _ _ _ _)).le
      · cases h
        exact le_rfl
  | list _ _ _ _ ih =>
    rw [execute] at h
    split at h
    · exact (ih _ h).trans (distance_lt (.ended _ _ _ _)).le
    · cases h

/-- A fiber that suspends again has got closer to its end. -/
lemma resume_closer (hready : Ready s fiber)
    (h : resume group outer fiber s = .ok (.waiting n k next, s')) :
    fiberDistance (.waiting n k next) < fiberDistance fiber := by
  cases fiber with
  | fresh => exact Order.lt_succ_of_le (execute_closer h)
  | waiting name key rest =>
    rw [resume] at h
    split at h
    · exact (execute_closer h).trans_lt (distance_lt (.answer name key rest _))
    · next hfailed =>
      split at h
      · exact (execute_closer h).trans_lt (distance_lt (.answer name key rest _))
      · next hcache =>
        rcases hready with hready | hready
        · exact absurd hcache hready
        · exact absurd hfailed hready

lemma round_closer (hgroup : Stepwise batch group) {left}
    (hready : ∀ f ∈ fibers, Ready s f) (hfibers : ∀ f ∈ fibers, fiberDistance f ≤ bound)
    (halive : ∀ f ∈ alive, fiberDistance f < bound)
    (h : round group outer fibers alive s = .ok (.ok left, s')) :
    ∀ f ∈ left, fiberDistance f < bound := by
  refine round_left (P := fun _ f => fiberDistance f < bound) hgroup (fun _ hf => hf) ?_ hready halive h
  intro fiber hfiber _ _ _ _ _ _ hfirst hresume
  exact (resume_closer hfirst hresume).trans_le (hfibers fiber hfiber)

/-- Groups of fibers below the bound end. -/
def EndBelow (batch : Batch N K V) (bound : Ordinal.{0}) : Prop :=
  ∀ outer fibers s, Named s → (∀ f ∈ fibers, Ready s f) → (∀ f ∈ fibers, fiberDistance f < bound) →
    ∃ fuel, Ended (run batch fuel outer fibers s)

section
variable (hbelow : EndBelow batch bound)
include hbelow

/-- A body below the bound ends, since its groups do. -/
lemma execute_ends (hbody : distance body < bound) (hs : Named s) :
    ∃ fuel, Ended (execute (run batch fuel) outer body s) := by
  induction body generalizing s with
  | done | raise => exact ⟨0, .ok _⟩
  | load name key next ih =>
    have hnext : ∀ result, distance (next result) < bound :=
      fun result => (distance_lt (.answer name key next result)).trans hbody
    simp only [execute]
    split
    · exact ih _ (hnext _) hs
    · split
      · exact ih _ (hnext _) hs
      · exact ⟨0, .ok _⟩
  | list count items next _ ih =>
    have hitems : ∀ f ∈ (List.range count).map fun i => (.fresh (items i) : Fiber N K V),
        Ready s f ∧ fiberDistance f < bound := by
      intro f hf
      obtain ⟨i, -, rfl⟩ := mem_map.1 hf
      exact ⟨trivial, (Order.succ_le_of_lt (distance_lt (.item _ _ _ i))).trans_lt hbody⟩
    obtain ⟨fuel, hended⟩ :=
      hbelow outer _ s hs (fun f hf => (hitems f hf).1) fun f hf => (hitems f hf).2
    cases hrun : run batch fuel outer ((List.range count).map fun i => .fresh (items i)) s with
    | error =>
      rw [hrun] at hended
      exact ⟨fuel, by rw [execute, hrun]; exact hended.error⟩
    | ok ended =>
      obtain ⟨result, t⟩ := ended
      obtain ⟨fuel', hnext⟩ := ih result ((distance_lt (.ended _ _ _ _)).trans hbody)
        (hs.steps (run_steps fuel _ _ _ _ _ hrun))
      refine ⟨max fuel fuel', ?_⟩
      rw [execute, run_extends (le_max_left _ _) _ _ _ hended, hrun]
      dsimp only
      rwa [execute_extends (run_extends (le_max_right _ _)) hnext]

/-- A fiber at the bound ends. -/
lemma resume_ends (outer : Bool) (hfiber : fiberDistance fiber ≤ bound) (hs : Named s) :
    ∃ fuel, Ended (resume (run batch fuel) outer fiber s) := by
  cases fiber with
  | fresh => exact execute_ends hbelow (Order.succ_le_iff.1 hfiber) hs
  | waiting name key next =>
    have hnext : ∀ result, distance (next result) < bound :=
      fun result => (distance_lt (.answer name key next result)).trans_le hfiber
    simp only [resume]
    split
    · exact execute_ends hbelow (hnext _) hs
    · split
      · exact execute_ends hbelow (hnext _) hs
      · exact ⟨0, .ok _⟩

/-- A round of fibers at the bound ends. -/
lemma round_ends (outer : Bool) (alive : List (Fiber N K V))
    (hfibers : ∀ f ∈ fibers, fiberDistance f ≤ bound) (hs : Named s) :
    ∃ fuel, Ended (round (run batch fuel) outer fibers alive s) := by
  induction fibers generalizing alive s with
  | nil => exact ⟨0, .ok _⟩
  | cons fiber rest ih =>
    have hrest : ∀ f ∈ rest, fiberDistance f ≤ bound := fun f hf => hfibers f (mem_cons_of_mem _ hf)
    obtain ⟨fuel, hended⟩ := resume_ends hbelow (outer || !alive.isEmpty)
      (hfibers fiber mem_cons_self) hs
    cases hresume : resume (run batch fuel) (outer || !alive.isEmpty) fiber s with
    | error =>
      rw [hresume] at hended
      exact ⟨fuel, by rw [round, hresume]; exact hended.error⟩
    | ok ended =>
      obtain ⟨outcome, t⟩ := ended
      have ht := hs.steps (resume_steps (run_steps fuel) hresume)
      -- The rest of the round needs fuel of its own.
      have hnext : ∀ alive', ∃ fuel', Ended (round (run batch fuel') outer rest alive' t) ∧
          resume (run batch fuel') (outer || !alive.isEmpty) fiber s = .ok (outcome, t) := by
        intro alive'
        obtain ⟨fuel', hround⟩ := ih alive' hrest ht
        refine ⟨max fuel fuel', ?_, ?_⟩
        · rwa [round_extends (run_extends (le_max_right _ _)) hround]
        · rw [resume_extends (run_extends (le_max_left _ _)) hended, hresume]
      cases outcome with
      | finished =>
        obtain ⟨fuel', hround, hresume'⟩ := hnext alive
        exact ⟨fuel', by rw [round, hresume']; exact hround⟩
      | waiting name key next =>
        obtain ⟨fuel', hround, hresume'⟩ := hnext (alive ++ [.waiting name key next])
        exact ⟨fuel', by rw [round, hresume']; exact hround⟩
      | raised => exact ⟨fuel, by rw [round, hresume]; exact .ok _⟩

end

/-- A dispatch needs no fuel. -/
lemma dispatchAll_ended {names already} : Ended (s.dispatchAll batch names already) := by
  induction names generalizing s already with
  | nil => exact .ok _
  | cons _ _ ih =>
    rw [dispatchAll]
    split
    · exact ih
    · split
      · exact ih
      · intro h
        cases h

lemma dispatchPending_ended : Ended (s.dispatchPending batch outer) := by
  have hall : Ended (s.dispatchAll batch s.names false) := dispatchAll_ended
  rw [dispatchPending]
  split
  · exact .ok _
  · exact .ok _
  · next hstop =>
    rw [hstop] at hall
    exact hall.error

/-- Every group ends, by induction on the distance of its fibers. -/
lemma run_ends (bound : Ordinal.{0}) : EndBelow batch bound := by
  induction bound using WellFoundedLT.induction with
  | ind _ ih =>
    intro outer fibers s hs hready hfibers
    cases fibers with
    | nil => exact ⟨1, .ok _⟩
    | cons fiber fibers =>
      -- The fiber that is farthest from its end bounds what the round leaves.
      obtain ⟨farthest, hmem, hmax⟩ : ∃ f ∈ fiber :: fibers,
          ∀ g ∈ fiber :: fibers, fiberDistance g ≤ fiberDistance f :=
        Set.exists_max_image _ _ (finite_toSet (fiber :: fibers)) ⟨fiber, mem_cons_self⟩
      have hbelow := ih _ (hfibers farthest hmem)
      obtain ⟨fuel, hended⟩ := round_ends hbelow outer [] hmax hs
      have hstep : Stepwise batch (run batch fuel) := run_steps fuel
      rcases hround : round (run batch fuel) outer (fiber :: fibers) [] s with
        stop | ⟨_ | (_ | ⟨first, others⟩), t⟩
      · rw [hround] at hended
        exact ⟨fuel + 1, by rw [run, hround]; exact hended.error⟩
      · exact ⟨fuel + 1, by rw [run, hround]; exact .ok _⟩
      · exact ⟨fuel + 1, by rw [run, hround]; exact .ok _⟩
      · have ht := hs.steps (round_steps hstep hround)
        have hcloser := round_closer hstep hready hmax (by simp) hround
        have hwaits := round_waits hstep hready (by simp) hround
        rcases hresult : t.dispatchPending batch outer with stop | ⟨_ | _, u⟩
        · have hstopped : Ended (t.dispatchPending batch outer) := dispatchPending_ended
          rw [hresult] at hstopped
          exact ⟨fuel + 1, by rw [run, hround]; simp only [hresult]; exact hstopped.error⟩
        · exact ⟨fuel + 1, by rw [run, hround]; simp only [hresult]; exact .ok _⟩
        · obtain ⟨fuel', hrun⟩ := hbelow outer (first :: others) u
            (ht.steps (dispatchPending_steps hresult))
            (fun f hf => dispatchPending_ready ht (hwaits f hf) hresult) hcloser
          refine ⟨max fuel fuel' + 1, ?_⟩
          rw [run, round_extends (run_extends (le_max_left _ _)) hended, hround]
          simp only [hresult]
          rwa [run_extends (le_max_right _ _) _ _ _ hrun]

/-! ## Aborts -/

/-- Some batch function raises something with the message that is not a StandardError. -/
def Raises (batch : Batch N K V) (message : String) : Prop := ∃ n keys, batch n keys = .error message

section
variable {message : String}
  (hgroup : ∀ outer fibers s, group outer fibers s = .error (.aborted message) → Raises batch message)
include hgroup

/-- A body is aborted only by a batch function that raises. -/
lemma execute_aborted (h : execute group outer body s = .error (.aborted message)) :
    Raises batch message := by
  induction body generalizing s with
  | done | raise => cases h
  | load _ _ _ ih =>
    rw [execute] at h
    split at h
    · exact ih _ h
    · split at h
      · exact ih _ h
      · cases h
  | list _ _ _ _ ih =>
    rw [execute] at h
    split at h
    · exact ih _ h
    · next hrun =>
      cases h
      exact hgroup _ _ _ hrun

lemma resume_aborted (h : resume group outer fiber s = .error (.aborted message)) :
    Raises batch message := by
  cases fiber with
  | fresh => exact execute_aborted hgroup h
  | waiting =>
    rw [resume] at h
    split at h
    · exact execute_aborted hgroup h
    · split at h
      · exact execute_aborted hgroup h
      · cases h

lemma round_aborted (h : round group outer fibers alive s = .error (.aborted message)) :
    Raises batch message := by
  induction fibers generalizing alive s with
  | nil => cases h
  | cons _ _ ih =>
    rw [round] at h
    split at h
    · exact ih h
    · exact ih h
    · cases h
    · next hresume =>
      cases h
      exact resume_aborted hgroup hresume

end

lemma dispatchAll_aborted {names already message}
    (h : s.dispatchAll batch names already = .error (.aborted message)) : Raises batch message := by
  induction names generalizing s already with
  | nil => cases h
  | cons _ _ ih =>
    rw [dispatchAll] at h
    split at h
    · exact ih h
    · split at h
      · exact ih h
      · next hbatch =>
        cases h
        exact ⟨_, _, hbatch⟩

/-- So is a group, by induction on the fuel and its rounds. -/
lemma run_aborted {message} (fuel : ℕ) (outer : Bool) (fibers : List (Fiber N K V))
    (s : Dataloader N K V) (h : run batch fuel outer fibers s = .error (.aborted message)) :
    Raises batch message := by
  induction fuel generalizing outer fibers s with
  | zero => cases h
  | succ _ ih =>
    cases fibers with
    | nil => cases h
    | cons =>
      rw [run] at h
      split at h
      · next hround =>
        cases h
        exact round_aborted ih hround
      · cases h
      · cases h
      · split at h
        · next hresult =>
          cases h
          rw [dispatchPending] at hresult
          split at hresult
          · cases hresult
          · cases hresult
          · next hall =>
            cases hresult
            exact dispatchAll_aborted hall
        · cases h
        · exact ih _ _ _ h

omit [DecidableEq N] [DecidableEq K] in
lemma exists_bound (fibers : List (Fiber N K V)) :
    ∃ bound, ∀ f ∈ fibers, fiberDistance f < bound := by
  induction fibers with
  | nil => exact ⟨0, by simp⟩
  | cons fiber _ ih =>
    obtain ⟨bound, hbound⟩ := ih
    refine ⟨max (Order.succ (fiberDistance fiber)) bound, fun f hf => ?_⟩
    rcases mem_cons.1 hf with rfl | hf
    · exact lt_max_of_lt_left (Order.lt_succ _)
    · exact lt_max_of_lt_right (hbound f hf)

/-! ## A whole execution -/

omit [DecidableEq N] [DecidableEq K] in
lemma named_empty : Named (empty : Dataloader N K V) := by
  intro n hn
  exact absurd rfl hn

def echo : Batch Unit ℕ ℕ := fun _ _ => .ok (.ok fun key => .ok key)

def single (key : ℕ) : Body Unit ℕ ℕ := .load () key fun _ => .done

end Diamond.GraphQL
