import Diamond.GraphQL.Dataloader

/-!
# Loads are answered

What a run does to the loaders is a sequence of a few steps, and each of them
keeps what is known of the answers.
-/

namespace Diamond.GraphQL

open List Function Option Dataloader

open Relation (ReflTransGen)

variable {N K V : Type} [DecidableEq N] [DecidableEq K] {batch : Batch N K V}
  {s s' : Dataloader N K V} {n : N} {k : K}

def Dataloader.Resolved (s : Dataloader N K V) (n : N) (k : K) : Prop :=
  s.cache n k ≠ none ∨ s.failed n k ≠ none

/-- The key has its answer or will be passed to the batch function. -/
def Dataloader.Asked (s : Dataloader N K V) (n : N) (k : K) : Prop :=
  k ∈ s.pending n ∨ s.Resolved n k

def Gives (answer : Answer K V) (keys : List K) (k : K) : Except String V → Prop
  | .ok value => ∃ lookup, answer = .ok lookup ∧ lookup k = .ok value
  | .error message => answer = .error message ∨
      ∃ lookup, ∃ key ∈ keys, answer = .ok lookup ∧ lookup key = .error message

/-! ## Dispatches -/

variable {lookup : K → Except String V} {keys : List K} {cache : K → Option V} {group : Group N K V}
  {outer : Bool}

lemma cacheAnswers_some {value} (h : (cacheAnswers lookup keys cache).1 k = some value) :
    cache k = some value ∨ k ∈ keys ∧ lookup k = .ok value := by
  induction keys generalizing cache with
  | nil => exact .inl h
  | cons key _ ih =>
    rw [cacheAnswers] at h
    split at h
    · next _ hanswer =>
      rcases ih h with hbefore | ⟨hmem, hlookup⟩
      · by_cases heq : k = key
        · subst heq
          rw [update_self] at hbefore
          cases hbefore
          exact .inr ⟨mem_cons_self, hanswer⟩
        · rw [update_of_ne heq] at hbefore
          exact .inl hbefore
      · exact .inr ⟨mem_cons_of_mem _ hmem, hlookup⟩
    · exact .inl h

lemma cacheAnswers_kept (h : cache k ≠ none) : (cacheAnswers lookup keys cache).1 k ≠ none := by
  induction keys generalizing cache with
  | nil => exact h
  | cons key _ ih =>
    rw [cacheAnswers]
    split
    · apply ih
      by_cases heq : k = key
      · subst heq
        rw [update_self]
        exact some_ne_none _
      · rwa [update_of_ne heq]
    · exact h

lemma cacheAnswers_all (h : (cacheAnswers lookup keys cache).2 = none) (hk : k ∈ keys) :
    (cacheAnswers lookup keys cache).1 k ≠ none := by
  induction keys generalizing cache with
  | nil => cases hk
  | cons _ _ ih =>
    rw [cacheAnswers] at h ⊢
    split at h
    · next _ hanswer =>
      rcases mem_cons.1 hk with rfl | hmem
      · apply cacheAnswers_kept
        rw [update_self]
        exact some_ne_none _
      · exact ih h hmem
    · cases h

lemma cacheAnswers_error {message} (h : (cacheAnswers lookup keys cache).2 = some message) :
    ∃ key ∈ keys, lookup key = .error message := by
  induction keys generalizing cache with
  | nil => cases h
  | cons key _ ih =>
    rw [cacheAnswers] at h
    split at h
    · obtain ⟨other, hmem, hlookup⟩ := ih h
      exact ⟨other, mem_cons_of_mem _ hmem, hlookup⟩
    · next hanswer =>
      cases h
      exact ⟨key, mem_cons_self, hanswer⟩

lemma dispatch_frame (s : Dataloader N K V) (n : N) (answer : Answer K V) :
    (s.dispatch n answer).names = s.names ∧
    (s.dispatch n answer).pending = update s.pending n [] ∧
    (s.dispatch n answer).log = s.log ++ [.called n (s.pending n) answer] := by
  unfold dispatch
  dsimp only
  split
  · exact ⟨rfl, rfl, rfl⟩
  · split <;> exact ⟨rfl, rfl, rfl⟩

/-- The answers that a dispatch adds are those that the batch function gives. -/
lemma dispatch_given (s : Dataloader N K V) (n m : N) (k : K) (answer : Answer K V) :
    (∀ value, (s.dispatch n answer).cache m k = some value → s.cache m k = some value ∨
      m = n ∧ k ∈ s.pending n ∧ Gives answer (s.pending n) k (.ok value)) ∧
    ∀ message, (s.dispatch n answer).failed m k = some message → s.failed m k = some message ∨
      m = n ∧ k ∈ s.pending n ∧ Gives answer (s.pending n) k (.error message) := by
  have hmark : ∀ {message text}, update s.failed n
      (markFailed text (s.pending n) (s.failed n)) m k = some message →
      s.failed m k = some message ∨ m = n ∧ k ∈ s.pending n ∧ text = message := by
    intro message text h
    by_cases hm : m = n
    · subst hm
      rw [update_self, markFailed] at h
      split at h
      · next hmem =>
        cases h
        exact .inr ⟨rfl, hmem, rfl⟩
      · exact .inl h
    · rw [update_of_ne hm] at h
      exact .inl h
  have hcache : ∀ {value lookup cache text}, answer = .ok lookup →
      cacheAnswers lookup (s.pending n) (s.cache n) = (cache, text) →
      update s.cache n cache m k = some value →
      s.cache m k = some value ∨
        m = n ∧ k ∈ s.pending n ∧ Gives answer (s.pending n) k (.ok value) := by
    intro value lookup cache text hbatch heq h
    have hfst : _ = cache := congrArg Prod.fst heq
    by_cases hm : m = n
    · subst hm
      rw [update_self, ← hfst] at h
      rcases cacheAnswers_some h with hbefore | ⟨hmem, hlookup⟩
      · exact .inl hbefore
      · exact .inr ⟨rfl, hmem, lookup, hbatch, hlookup⟩
    · rw [update_of_ne hm] at h
      exact .inl h
  unfold dispatch
  dsimp only [note]
  split
  · next text =>
    refine ⟨fun value h => .inl h, fun message h => ?_⟩
    rcases hmark h with hbefore | ⟨hm, hmem, rfl⟩
    · exact .inl hbefore
    · exact .inr ⟨hm, hmem, .inl rfl⟩
  · next lookup =>
    split
    · next heq => exact ⟨fun value h => hcache rfl heq h, fun message h => .inl h⟩
    · next heq =>
      refine ⟨fun value h => hcache rfl heq h, fun message h => ?_⟩
      rcases hmark h with hbefore | ⟨hm, hmem, rfl⟩
      · exact .inl hbefore
      · obtain ⟨key, hkey, hlookup⟩ := cacheAnswers_error (congrArg Prod.snd heq)
        exact .inr ⟨hm, hmem, .inr ⟨lookup, key, hkey, rfl, hlookup⟩⟩

/-- A dispatch answers the keys that were pending, and keeps the answers there are. -/
lemma dispatch_resolved (s : Dataloader N K V) (n : N) (answer : Answer K V) {m}
    (h : s.Resolved m k ∨ m = n ∧ k ∈ s.pending n) : (s.dispatch n answer).Resolved m k := by
  have hmark : ∀ {text}, (s.failed m k ≠ none ∨ m = n ∧ k ∈ s.pending n) →
      update s.failed n (markFailed text (s.pending n) (s.failed n)) m k ≠ none := by
    intro text h
    by_cases hm : m = n
    · subst hm
      rw [update_self, markFailed]
      split
      · exact some_ne_none _
      · next hmem =>
        rcases h with h | h
        · exact h
        · exact absurd h.2 hmem
    · rw [update_of_ne hm]
      exact h.resolve_right fun h => hm h.1
  have hcache : ∀ {lookup cache text}, cacheAnswers lookup (s.pending n) (s.cache n) = (cache, text) →
      s.cache m k ≠ none → update s.cache n cache m k ≠ none := by
    intro lookup cache text heq hthere
    have hfst : _ = cache := congrArg Prod.fst heq
    by_cases hm : m = n
    · subst hm
      rw [update_self, ← hfst]
      exact cacheAnswers_kept hthere
    · rwa [update_of_ne hm]
  unfold dispatch Dataloader.Resolved
  dsimp only [note]
  split
  · rcases h with (h | h) | h
    · exact .inl h
    · exact .inr (hmark (.inl h))
    · exact .inr (hmark (.inr h))
  · next lookup =>
    split
    · next heq =>
      rcases h with (h | h) | ⟨rfl, hmem⟩
      · exact .inl (hcache heq h)
      · exact .inr h
      · have hall := cacheAnswers_all (congrArg Prod.snd heq) hmem
        rw [heq] at hall
        exact .inl (by simpa only [update_self] using hall)
    · next heq =>
      rcases h with (h | h) | h
      · exact .inl (hcache heq h)
      · exact .inr (hmark (.inl h))
      · exact .inr (hmark (.inr h))

/-- It answers no other keys. -/
lemma resolved_of_dispatch {s : Dataloader N K V} {n m : N} {answer : Answer K V}
    (h : (s.dispatch n answer).Resolved m k) : s.Resolved m k ∨ m = n ∧ k ∈ s.pending n := by
  obtain ⟨hcache, hfailed⟩ := dispatch_given s n m k answer
  rcases h with h | h
  · obtain ⟨value, hvalue⟩ := ne_none_iff_exists'.1 h
    rcases hcache value hvalue with h | h
    · exact .inl (.inl (by rw [h]; exact some_ne_none _))
    · exact .inr ⟨h.1, h.2.1⟩
  · obtain ⟨message, hmessage⟩ := ne_none_iff_exists'.1 h
    rcases hfailed message hmessage with h | h
    · exact .inl (.inr (by rw [h]; exact some_ne_none _))
    · exact .inr ⟨h.1, h.2.1⟩

/-! ## Steps -/

inductive Prim (batch : Batch N K V) : Dataloader N K V → Dataloader N K V → Prop
  | loaded {s : Dataloader N K V} {n : N} {k : K} {value : V} (h : s.cache n k = some value) :
      Prim batch s (s.note (.loaded n k (.ok value)))
  | refused {s : Dataloader N K V} {n : N} {k : K} {message : String} (h : s.failed n k = some message) :
      Prim batch s (s.note (.loaded n k (.error message)))
  | register {s : Dataloader N K V} {n : N} {k : K} (hcache : s.cache n k = none)
      (hfailed : s.failed n k = none) :
      Prim batch s (s.register n k)
  | dispatch {s : Dataloader N K V} {n : N} {answer : Answer K V} (h : s.pending n ≠ [])
      (hbatch : batch n (s.pending n) = .ok answer) : Prim batch s (s.dispatch n answer)
  | reached {s : Dataloader N K V} : Prim batch s (s.note .reached)
  | stalled {s : Dataloader N K V} : Prim batch s (s.note .stalled)
  | escaped {s : Dataloader N K V} : Prim batch s (s.note .escaped)

def Stepwise (batch : Batch N K V) (group : Group N K V) : Prop :=
  ∀ outer fibers s result s', group outer fibers s = .ok (result, s') →
    ReflTransGen (Prim batch) s s'

section
variable (hgroup : Stepwise batch group)
include hgroup

lemma execute_steps {body outcome}
    (h : execute group outer body s = .ok (outcome, s')) : ReflTransGen (Prim batch) s s' := by
  induction body generalizing s with
  | done | raise =>
    cases h
    exact .refl
  | load _ _ next ih =>
    rw [execute] at h
    split at h
    · next _ hcache => exact .head (.loaded hcache) (ih _ h)
    · next hcache =>
      split at h
      · next _ hfailed => exact .head (.refused hfailed) (ih _ h)
      · next hfailed =>
        cases h
        exact .single (.register hcache hfailed)
  | list _ _ next _ ih =>
    rw [execute] at h
    split at h
    · next _ t hrun => exact (hgroup _ _ _ _ _ hrun).trans (ih _ h)
    · cases h

lemma resume_steps {fiber outcome}
    (h : resume group outer fiber s = .ok (outcome, s')) : ReflTransGen (Prim batch) s s' := by
  cases fiber with
  | fresh => exact execute_steps hgroup h
  | waiting _ _ next =>
    rw [resume] at h
    split at h
    · next _ hfailed => exact .head (.refused hfailed) (execute_steps hgroup h)
    · split at h
      · next _ hcache => exact .head (.loaded hcache) (execute_steps hgroup h)
      · cases h
        exact .refl

lemma round_steps {fibers alive result} (h : round group outer fibers alive s = .ok (result, s')) :
    ReflTransGen (Prim batch) s s' := by
  induction fibers generalizing alive s with
  | nil =>
    cases h
    exact .refl
  | cons _ _ ih =>
    rw [round] at h
    split at h
    · next hresume => exact (resume_steps hgroup hresume).trans (ih h)
    · next hresume => exact (resume_steps hgroup hresume).trans (ih h)
    · next hresume =>
      cases h
      exact (resume_steps hgroup hresume).tail .escaped
    · cases h

end

lemma dispatchAll_steps {names already any}
    (h : s.dispatchAll batch names already = .ok (s', any)) : ReflTransGen (Prim batch) s s' := by
  induction names generalizing s already with
  | nil =>
    cases h
    exact .refl
  | cons _ _ ih =>
    rw [dispatchAll] at h
    split at h
    · exact ih h
    · next hpending =>
      split at h
      · next hbatch => exact .head (.dispatch hpending hbatch) (ih h)
      · cases h

lemma dispatchPending_steps {result} (h : s.dispatchPending batch outer = .ok (result, s')) :
    ReflTransGen (Prim batch) s s' := by
  rw [dispatchPending] at h
  split at h
  · next hall =>
    cases h
    cases outer with
    | false => exact dispatchAll_steps hall
    | true => exact (dispatchAll_steps hall).tail .reached
  · next hall =>
    cases h
    exact (dispatchAll_steps hall).tail .stalled
  · cases h

lemma run_steps (fuel : ℕ) : Stepwise batch (run batch fuel) := by
  induction fuel with
  | zero =>
    intro outer fibers s _ _ h
    cases h
  | succ _ ih =>
    intro outer fibers s _ _ h
    cases fibers with
    | nil =>
      cases h
      exact .refl
    | cons =>
      rw [run] at h
      split at h
      · cases h
      · next hround =>
        cases h
        exact round_steps ih hround
      · next hround =>
        cases h
        exact round_steps ih hround
      · next t hround =>
        split at h
        · cases h
        · next hpending =>
          cases h
          exact (round_steps ih hround).trans (dispatchPending_steps hpending)
        · next hpending =>
          exact ((round_steps ih hround).trans (dispatchPending_steps hpending)).trans
            (ih _ _ _ _ _ h)

/-! ## Answers -/

def passed (n : N) (log : List (Event N K V)) : List K :=
  log.flatMap fun event =>
    match event with
    | .called name keys _ => if name = n then keys else []
    | _ => []

/-- Every load in the log returned what a batch in the log gave for its key. -/
def Answered (log : List (Event N K V)) : Prop :=
  ∀ n k result, .loaded n k result ∈ log →
    ∃ keys answer, .called n keys answer ∈ log ∧ k ∈ keys ∧ Gives answer keys k result

/-- The loaders and the log agree. -/
structure Sound (s : Dataloader N K V) : Prop where
  pending_nodup : ∀ n, (s.pending n).Nodup
  pending_open : ∀ n, ∀ k ∈ s.pending n, k ∉ passed n s.log
  resolved : ∀ n k, s.Resolved n k → k ∈ passed n s.log
  passed_resolved : ∀ n, ∀ k ∈ passed n s.log, s.Resolved n k
  once : ∀ n, (passed n s.log).Nodup
  cached : ∀ n k value, s.cache n k = some value →
    ∃ keys answer, .called n keys answer ∈ s.log ∧ k ∈ keys ∧ Gives answer keys k (.ok value)
  failed : ∀ n k message, s.failed n k = some message →
    ∃ keys answer, .called n keys answer ∈ s.log ∧ k ∈ keys ∧ Gives answer keys k (.error message)
  answered : Answered s.log

omit [DecidableEq K] in
lemma passed_append (n : N) (log : List (Event N K V)) (event : Event N K V) :
    passed n (log ++ [event]) = passed n log ++ passed n [event] := by
  rw [passed, flatMap_append]
  rfl

omit [DecidableEq N] [DecidableEq K] in
/-- An answer stands in every longer log. -/
lemma called_mono {log log' : List (Event N K V)} (hmono : ∀ {e}, e ∈ log → e ∈ log')
    {P : List K → Answer K V → Prop} (h : ∃ keys answer, .called n keys answer ∈ log ∧ P keys answer) :
    ∃ keys answer, .called n keys answer ∈ log' ∧ P keys answer := by
  obtain ⟨keys, answer, hcall, hp⟩ := h
  exact ⟨keys, answer, hmono hcall, hp⟩

section
variable (hs : Sound s)
include hs

omit [DecidableEq K] in
lemma Sound.note {event} (hpassed : ∀ n, passed n [event] = [])
    (hanswer : ∀ n k result, event = .loaded n k result →
      ∃ keys answer, .called n keys answer ∈ s.log ∧ k ∈ keys ∧ Gives answer keys k result) :
    Sound (s.note event) := by
  have hsame : ∀ n, passed n (s.note event).log = passed n s.log := by
    intro n
    rw [Dataloader.note, passed_append, hpassed, append_nil]
  have hmono : ∀ {e}, e ∈ s.log → e ∈ (s.note event).log := fun h => mem_append_left _ h
  constructor
  case pending_nodup => exact hs.pending_nodup
  case pending_open =>
    intro n k hk
    rw [hsame]
    exact hs.pending_open n k hk
  case resolved =>
    intro n k hk
    rw [hsame]
    exact hs.resolved n k hk
  case passed_resolved =>
    intro n k hk
    rw [hsame] at hk
    exact hs.passed_resolved n k hk
  case once =>
    intro n
    rw [hsame]
    exact hs.once n
  case cached =>
    intro n k value h
    exact called_mono hmono (hs.cached n k value h)
  case failed =>
    intro n k message h
    exact called_mono hmono (hs.failed n k message h)
  case answered =>
    intro n k result h
    rcases mem_append.1 h with h | h
    · exact called_mono hmono (hs.answered n k result h)
    · exact called_mono hmono (hanswer n k result (mem_singleton.1 h).symm)

lemma Sound.register (hcache : s.cache n k = none) (hfailed : s.failed n k = none) :
    Sound (s.register n k) := by
  have hnew : k ∉ passed n s.log := by
    intro hmem
    rcases hs.passed_resolved n k hmem with h | h
    · exact h hcache
    · exact h hfailed
  constructor
  case pending_nodup =>
    intro m
    rw [Dataloader.register]
    by_cases hm : m = n
    · subst hm
      simp only [update_self]
      split
      · exact hs.pending_nodup m
      · next hmem =>
        rw [← concat_eq_append]
        exact (hs.pending_nodup m).concat hmem
    · simp only [update_of_ne hm]
      exact hs.pending_nodup m
  case pending_open =>
    intro m key hkey
    rw [Dataloader.register] at hkey
    by_cases hm : m = n
    · subst hm
      simp only [update_self] at hkey
      split at hkey
      · exact hs.pending_open m key hkey
      · rcases mem_append.1 hkey with hkey | hkey
        · exact hs.pending_open m key hkey
        · rw [mem_singleton.1 hkey]
          exact hnew
    · simp only [update_of_ne hm] at hkey
      exact hs.pending_open m key hkey
  case resolved => exact hs.resolved
  case passed_resolved => exact hs.passed_resolved
  case once => exact hs.once
  case cached => exact hs.cached
  case failed => exact hs.failed
  case answered => exact hs.answered

lemma Sound.dispatch (n : N) (answer : Answer K V) : Sound (s.dispatch n answer) := by
  obtain ⟨-, hpending, hlog⟩ := dispatch_frame s n answer
  have hpassed : ∀ m, passed m (s.dispatch n answer).log =
      passed m s.log ++ if n = m then s.pending n else [] := by
    intro m
    rw [hlog, passed_append]
    simp [passed]
  have hcalled : .called n (s.pending n) answer ∈ (s.dispatch n answer).log := by
    rw [hlog]
    exact mem_append_right _ (mem_singleton_self _)
  have hmono : ∀ {e}, e ∈ s.log → e ∈ (s.dispatch n answer).log := by
    intro e h
    rw [hlog]
    exact mem_append_left _ h
  constructor
  case pending_nodup =>
    intro m
    rw [hpending]
    by_cases hm : m = n
    · subst hm
      rw [update_self]
      exact nodup_nil
    · rw [update_of_ne hm]
      exact hs.pending_nodup m
  case pending_open =>
    intro m key hkey
    rw [hpending] at hkey
    by_cases hm : m = n
    · subst hm
      rw [update_self] at hkey
      cases hkey
    · rw [update_of_ne hm] at hkey
      rw [hpassed, if_neg (Ne.symm hm), append_nil]
      exact hs.pending_open m key hkey
  case resolved =>
    intro m key hkey
    rw [hpassed]
    rcases resolved_of_dispatch hkey with h | ⟨rfl, h⟩
    · exact mem_append_left _ (hs.resolved m key h)
    · rw [if_pos rfl]
      exact mem_append_right _ h
  case passed_resolved =>
    intro m key hkey
    rw [hpassed] at hkey
    apply dispatch_resolved
    rcases mem_append.1 hkey with hkey | hkey
    · exact .inl (hs.passed_resolved m key hkey)
    · split at hkey
      · next heq => exact .inr ⟨heq.symm, hkey⟩
      · cases hkey
  case once =>
    intro m
    rw [hpassed]
    split
    · next heq =>
      subst heq
      refine List.Nodup.append (hs.once n) (hs.pending_nodup n) ?_
      intro key hold hnew
      exact hs.pending_open n key hnew hold
    · rw [append_nil]
      exact hs.once m
  case cached =>
    intro m key value h
    rcases (dispatch_given s n m key answer).1 value h with hbefore | ⟨rfl, hmem, hgives⟩
    · exact called_mono hmono (hs.cached m key value hbefore)
    · exact ⟨_, _, hcalled, hmem, hgives⟩
  case failed =>
    intro m key message h
    rcases (dispatch_given s n m key answer).2 message h with hbefore | ⟨rfl, hmem, hgives⟩
    · exact called_mono hmono (hs.failed m key message hbefore)
    · exact ⟨_, _, hcalled, hmem, hgives⟩
  case answered =>
    intro m key result h
    rw [hlog] at h
    rcases mem_append.1 h with h | h
    · exact called_mono hmono (hs.answered m key result h)
    · cases mem_singleton.1 h

lemma Sound.step (h : Prim batch s s') : Sound s' := by
  cases h with
  | @loaded n k value hcache =>
    refine hs.note (fun n => rfl) fun m _ _ heq => ?_
    cases heq
    exact hs.cached n k value hcache
  | @refused n k message hfailed =>
    refine hs.note (fun n => rfl) fun m _ _ heq => ?_
    cases heq
    exact hs.failed n k message hfailed
  | register hcache hfailed => exact hs.register hcache hfailed
  | dispatch => exact hs.dispatch _ _
  | reached | stalled | escaped => exact hs.note (fun n => rfl) fun m _ _ heq => by cases heq

lemma Sound.steps (h : ReflTransGen (Prim batch) s s') : Sound s' := by
  induction h with
  | refl => exact hs
  | tail _ hlast ih => exact ih.step hlast

end

omit [DecidableEq K] in
lemma sound_empty : Sound (empty : Dataloader N K V) := by
  constructor
  case pending_nodup => exact fun n => nodup_nil
  case pending_open =>
    intro n k hk
    cases hk
  case resolved =>
    intro n k hk
    rcases hk with h | h
    all_goals exact absurd rfl h
  case passed_resolved =>
    intro n k hk
    cases hk
  case once => exact fun n => nodup_nil
  case cached | failed | answered =>
    intro n k _ h
    cases h

end Diamond.GraphQL
