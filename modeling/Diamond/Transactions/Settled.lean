import Diamond.Transactions.Wrappers

/-!
# Which callbacks leave a transaction closed

A wrapper rescues StandardError only, so what it executes depends on how the callback leaves.  Every
other raised value goes past the clause, and a return or break out of the block drops the handler on
its way; the statement that ends the transaction is then not executed.
-/

namespace Diamond.Transactions

open Unwind

variable {V : Type} {env : Environment V} {w : Wrapper} {P : Program V} {leave : Leave V}
  {callers : List (DiamondFrame V)} {frame : DiamondFrame V} {r r' : Running V} {fuel : ℕ}

/-! ## Steps of a run -/

inductive Goes (env : Environment V) (w : Wrapper) (P : Program V) (leave : Leave V)
    (callers : List (DiamondFrame V)) : Running V → Running V → Prop
  | refl (r : Running V) : Goes env w P leave callers r r
  | step {r r' r'' : Running V} {frame : DiamondFrame V} (hframes : r.vm.frames = frame :: callers)
      (hstep : r.step env w P leave = some r') (hrest : Goes env w P leave callers r' r'') :
      Goes env w P leave callers r r''

lemma Goes.trans {r''} (h : Goes env w P leave callers r r')
    (h' : Goes env w P leave callers r' r'') : Goes env w P leave callers r r'' := by
  induction h with
  | refl => exact h'
  | step hframes hstep _ ih => exact .step hframes hstep (ih h')

lemma Goes.run (h : Goes env w P leave callers r r') (hleft : r'.vm.frames = callers) :
    ∃ fuel, r.run env w P leave callers.length fuel = some r' := by
  induction h with
  | refl => exact ⟨1, by rw [Running.run, if_pos (hleft ▸ Nat.le_refl _)]⟩
  | @step r _ _ _ hframes hstep _ ih =>
    obtain ⟨fuel, hrun⟩ := ih hleft
    have hinside : ¬r.vm.frames.length ≤ callers.length := by
      rw [hframes, List.length_cons]
      exact Nat.not_succ_le_self _
    exact ⟨fuel + 1, by rw [Running.run, if_neg hinside, hstep, Option.bind_some, hrun]⟩

lemma run_unique {depth fuel fuel' a b} (ha : r.run env w P leave depth fuel = some a)
    (hb : r.run env w P leave depth fuel' = some b) : a = b := by
  induction fuel generalizing r fuel' with
  | zero => cases ha
  | succ _ ih =>
    cases fuel' with
    | zero => cases hb
    | succ =>
      rw [Running.run] at ha hb
      split at ha
      · next hleft =>
        rw [if_pos hleft] at hb
        exact Option.some.inj (ha.symm.trans hb)
      · next hinside =>
        rw [if_neg hinside] at hb
        obtain ⟨next, hstep, hrest⟩ := Option.bind_eq_some_iff.1 ha
        rw [hstep, Option.bind_some] at hb
        exact ih hrest hb

lemma step_choice {choice vm} (hleaving : r.vm.leaving = none)
    (hframes : r.vm.frames = frame :: callers) (hcallback : frame.ip ≠ w.callback)
    (hstatement : w.statements.lookup frame.ip = none)
    (hchoice : r.choice env w frame.ip = choice) (hstep : r.vm.step P choice = some vm) :
    r.step env w P leave = some { r with vm } := by
  simp only [Running.step, hleaving, hframes, if_neg hcallback, hstatement, hchoice, hstep]
  rfl

/-- A return or break of the callback reaches the wrapper, which is not its target. -/
lemma step_nonlocal {value target number isBreak vm}
    (hleaving : r.vm.leaving = some ⟨.nonlocal value target isBreak, number⟩)
    (hframes : r.vm.frames = frame :: callers)
    (harrives : r.vm.nonlocalExitArrives P frame callers value target isBreak number env.refusal =
      vm) : r.step env w P leave = some { r with vm } := by
  simp only [Running.step, DiamondVm.step, DiamondVm.deliver, hleaving, hframes, harrives]
  rfl

section
variable {vm : DiamondVm V} {value error : V} {target number : ℕ} {isBreak : Bool}

lemma nonlocal_enters {handler below} (htarget : target ≠ frame.serial)
    (hhandlers : (discardToEnsure number frame.handlers frame.pending vm.log).handlers =
      handler :: below) : vm.nonlocalExitArrives P frame callers value target isBreak number error =
      vm.resume frame callers (enterEnsure handler below
        (discardToEnsure number frame.handlers frame.pending vm.log).pending
        (discardToEnsure number frame.handlers frame.pending vm.log).log
        ⟨.nonlocal value target isBreak, number⟩).1 handler.target := by
  rw [DiamondVm.nonlocalExitArrives, if_neg fun h => htarget h.1]
  simp only [hhandlers, if_neg htarget]
  rfl

lemma nonlocal_leaves (htarget : target ≠ frame.serial)
    (hhandlers : (discardToEnsure number frame.handlers frame.pending vm.log).handlers = []) :
    vm.nonlocalExitArrives P frame callers value target isBreak number error =
      vm.leave callers (discardToEnsure number frame.handlers frame.pending vm.log).log
        (some ⟨if callers = [] then .exception error else .nonlocal value target isBreak,
          number⟩) := by
  rw [DiamondVm.nonlocalExitArrives, if_neg fun h => htarget h.1]
  simp only [hhandlers, if_neg htarget]
  split
  all_goals rfl

end

/-! ## The wrappers -/

/-- The interpreter in a wrapper's frame. -/
def inside (callers : List (DiamondFrame V)) (serial ip : ℕ) (handlers : List (UnwindHandler V))
    (pending : PendingUnwind V) (log : List Cleanup.Event) (clock : ℕ) (result error : V)
    (executed : List Statement) : Running V :=
  ⟨⟨⟨0, ip, handlers, pending, serial, none, none, none⟩ :: callers, none, false, log, clock⟩,
    result, error, executed⟩

/-- The two handlers of a `begin`. -/
def clauseAt (target : ℕ) : UnwindHandler V := ⟨.rescue, target, [], true, none, 0⟩

def guardAt (target cleanup : ℕ) : UnwindHandler V := ⟨.ensure, target, [], true, none, cleanup⟩

/-- Inside the `begin`, before anything was raised. -/
def inBegin (callers : List (DiamondFrame V)) (serial ip clause guard : ℕ) (result error : V)
    (executed : List Statement) : Running V :=
  inside callers serial ip [clauseAt clause, guardAt guard (serial + 1)] none
    [.opened (serial + 1)] (serial + 2) result error executed

/-- In the rescue clauses, after the callback has raised. -/
def inClause (callers : List (DiamondFrame V)) (serial ip guard : ℕ) (result error : V)
    (executed : List Statement) : Running V :=
  inside callers serial ip [guardAt guard (serial + 1)] none
    [.took (serial + 2), .started (serial + 2), .opened (serial + 1)] (serial + 3) result error
    executed

/-- In the ensure body, on the way of an exit of the callback. -/
def inEnsure (callers : List (DiamondFrame V)) (serial guard : ℕ) (outcome : Outcome V) (nil : V)
    (executed : List Statement) : Running V :=
  inside callers serial guard [⟨.activeEnsure, guard, [], true, none, serial + 1⟩]
    (some ⟨outcome, serial + 2⟩)
    [.ran (serial + 1) (serial + 2), .started (serial + 2), .opened (serial + 1)] (serial + 3) nil
    nil executed

/-- A wrapper that is called leaves, and these statements have been accepted. -/
def Wrapper.Executes (w : Wrapper) (env : Environment V) (matchesType : V → ℕ → Bool)
    (leave : Leave V) (callers : List (DiamondFrame V)) (serial : ℕ) (nil : V)
    (executed : List Statement) : Prop :=
  ∃ fuel r, w.call env matchesType leave callers serial nil fuel = some r ∧
    r.vm.frames = callers ∧ r.executed = executed

section
variable (isStandardError isErr : V → Bool) (refusal : V) (matchesType : V → ℕ → Bool)
  (callers : List (DiamondFrame V)) (serial : ℕ) (nil : V)

/-- The surroundings where the database accepts everything. -/
def accepting : Environment V := ⟨isStandardError, isErr, fun _ => true, refusal⟩

/-- From the call of the callback on, the wrapper leaves with these statements executed. -/
def Wrapper.Ends (w : Wrapper) (callback clause guard : ℕ) (opening : Statement) (leave : Leave V)
    (executed : List Statement) : Prop :=
  ∃ r, Goes (accepting isStandardError isErr refusal) w (w.program matchesType) leave callers
    (inBegin callers serial callback clause guard nil nil [opening]) r ∧ r.vm.frames = callers ∧
    r.executed = executed

variable {isStandardError isErr refusal matchesType callers serial nil} in
lemma ends_of {w callback clause guard opening leave executed r}
    (h : Goes (accepting isStandardError isErr refusal) w (w.program matchesType) leave callers
      (inBegin callers serial callback clause guard nil nil [opening]) r)
    (hleft : r.vm.frames = callers) (hexecuted : r.executed = executed) :
    w.Ends isStandardError isErr refusal matchesType callers serial nil callback clause guard
      opening leave executed :=
  ⟨r, h, hleft, hexecuted⟩

/-- A `begin` between two statements: `opening` before it, and in it `success` or `failure`. -/
structure Framed (w : Wrapper) (callback clause guard : ℕ) (opening success failure : Statement) :
    Prop where
  opens (leave : Leave V) :
    Goes (accepting isStandardError isErr refusal) w (w.program matchesType) leave callers
      (inside callers serial 0 [] none [] (serial + 1) nil nil [])
      (inBegin callers serial callback clause guard nil nil [opening])
  value (result : V) :
    w.Ends isStandardError isErr refusal matchesType callers serial nil callback clause guard
      opening (.value result) [opening, success] ∨
    w.Ends isStandardError isErr refusal matchesType callers serial nil callback clause guard
      opening (.value result) [opening, failure]
  rescued (error : V) (herror : isStandardError error = true) :
    w.Ends isStandardError isErr refusal matchesType callers serial nil callback clause guard
      opening (.raised error) [opening, failure]
  passed (error : V) (herror : ¬isStandardError error = true) :
    w.Ends isStandardError isErr refusal matchesType callers serial nil callback clause guard
      opening (.raised error) [opening]
  nonlocal (value : V) (target : ℕ) (isBreak : Bool) (htarget : target ≠ serial) :
    w.Ends isStandardError isErr refusal matchesType callers serial nil callback clause guard
      opening (.nonlocal value target isBreak) [opening]

open Goes

lemma runBetween_framed (opening success failure : Statement) :
    Framed isStandardError isErr refusal matchesType callers serial nil
      (runBetween opening success failure) 3 7 15 opening success failure where
  opens leave := by
    iterate 3 apply step rfl rfl
    exact .refl _
  value result := by
    left
    apply ends_of
    · iterate 7 apply step rfl rfl
      exact .refl _
    all_goals rfl
  rescued error herror := by
    apply ends_of
    · apply step rfl rfl
      apply step rfl
      · exact (rfl : _ = some (inClause callers serial 7 15 nil error [opening]))
      apply step rfl rfl
      apply step rfl
      · exact step_choice rfl rfl (by decide : 8 ≠ 3) rfl (if_pos herror) rfl
      iterate 3 apply step rfl rfl
      exact .refl _
    all_goals rfl
  passed error herror := by
    apply ends_of
    · apply step rfl rfl
      apply step rfl
      · exact (rfl : _ = some (inClause callers serial 7 15 nil error [opening]))
      apply step rfl rfl
      apply step rfl
      · exact step_choice rfl rfl (by decide : 8 ≠ 3) rfl (if_neg herror) rfl
      iterate 3 apply step rfl rfl
      exact .refl _
    all_goals rfl
  nonlocal value target isBreak htarget := by
    apply ends_of
    · apply step rfl rfl
      apply step rfl
      · exact step_nonlocal rfl rfl (nonlocal_enters htarget rfl)
      change Goes _ _ _ _ _ (inEnsure callers serial 15 (.nonlocal value target isBreak) nil _) _
      apply step rfl
      · exact step_choice rfl rfl (by decide : 15 ≠ 3) rfl rfl
          (congrArg some (nonlocal_leaves htarget rfl))
      exact .refl _
    all_goals rfl

/-- The statement that `Repo#transaction` begins with. -/
def repoBegin (sqlite : Bool) : Statement := if sqlite then .beginImmediate else .begin

lemma repo_framed (sqlite : Bool) :
    Framed isStandardError isErr refusal matchesType callers serial nil (repoTransaction sqlite)
      4 12 20 (repoBegin sqlite) .commit .rollback where
  opens leave := by
    iterate 4 apply step rfl rfl
    exact .refl _
  value result := by
    by_cases hresult : isErr result = true
    · right
      apply ends_of
      · apply step rfl rfl
        apply step rfl
        · exact (rfl : _ = some (inBegin callers serial 6 12 20 result nil [repoBegin sqlite]))
        apply step rfl
        · exact step_choice rfl rfl (by decide : 6 ≠ 4) rfl (if_pos hresult) rfl
        iterate 7 apply step rfl rfl
        exact .refl _
      all_goals rfl
    · left
      apply ends_of
      · apply step rfl rfl
        apply step rfl
        · exact (rfl : _ = some (inBegin callers serial 6 12 20 result nil [repoBegin sqlite]))
        apply step rfl
        · exact step_choice rfl rfl (by decide : 6 ≠ 4) rfl (if_neg hresult) rfl
        iterate 6 apply step rfl rfl
        exact .refl _
      all_goals rfl
  rescued error herror := by
    apply ends_of
    · apply step rfl rfl
      apply step rfl
      · exact (rfl : _ = some (inClause callers serial 12 20 nil error [repoBegin sqlite]))
      apply step rfl rfl
      apply step rfl
      · exact step_choice rfl rfl (by decide : 13 ≠ 4) rfl (if_pos herror) rfl
      iterate 3 apply step rfl rfl
      exact .refl _
    all_goals rfl
  passed error herror := by
    apply ends_of
    · apply step rfl rfl
      apply step rfl
      · exact (rfl : _ = some (inClause callers serial 12 20 nil error [repoBegin sqlite]))
      apply step rfl rfl
      apply step rfl
      · exact step_choice rfl rfl (by decide : 13 ≠ 4) rfl (if_neg herror) rfl
      iterate 3 apply step rfl rfl
      exact .refl _
    all_goals rfl
  nonlocal value target isBreak htarget := by
    apply ends_of
    · apply step rfl rfl
      apply step rfl
      · exact step_nonlocal rfl rfl (nonlocal_enters htarget rfl)
      change Goes _ _ _ _ _ (inEnsure callers serial 20 (.nonlocal value target isBreak) nil _) _
      apply step rfl
      · exact step_choice rfl rfl (by decide : 20 ≠ 4) rfl rfl
          (congrArg some (nonlocal_leaves htarget rfl))
      exact .refl _
    all_goals rfl

end

/-! ## Transactions -/

/-- `COMMIT` and `ROLLBACK`. -/
def Statement.settles : Statement → Bool
  | .commit | .rollback => true
  | _ => false

/-- Whether the connection is inside a transaction after a statement. -/
def Statement.leaves (opened : Bool) : Statement → Bool
  | .begin | .beginImmediate => true
  | .commit | .rollback => false
  | _ => opened

/-- The connection is inside a transaction after the statements. -/
def inTransaction (executed : List Statement) : Bool := executed.foldl Statement.leaves false

def Settled (executed : List Statement) : Prop :=
  executed.countP Statement.settles = 1 ∧ inTransaction executed = false

instance (executed : List Statement) : Decidable (Settled executed) :=
  inferInstanceAs (Decidable (_ ∧ _))

/-- The callback returns, or it raises a StandardError. -/
def Leave.Covered (env : Environment V) : Leave V → Prop
  | .value _ => True
  | .raised error => env.isStandardError error = true
  | .nonlocal _ _ _ => False

/-- A return or break is for a frame outside the wrapper, since the wrapper has no block. -/
def Leave.Outside (serial : ℕ) : Leave V → Prop
  | .nonlocal _ target _ => target ≠ serial
  | _ => True

section
variable {isStandardError isErr : V → Bool} {refusal : V} {matchesType : V → ℕ → Bool}
  {callers : List (DiamondFrame V)} {serial : ℕ} {nil : V}

/-- What a wrapper around `begin` and `rescue` executes: the opening statement and one of the two
others, or the opening statement alone. -/
lemma Framed.leaves {callback clause guard opening success failure}
    (h : Framed isStandardError isErr refusal matchesType callers serial nil w callback clause
      guard opening success failure) (houtside : leave.Outside serial) :
    ∃ executed, w.Executes (accepting isStandardError isErr refusal) matchesType leave callers
      serial nil executed ∧ (leave.Covered (accepting isStandardError isErr refusal) ∧
          (executed = [opening, success] ∨ executed = [opening, failure]) ∨
        ¬leave.Covered (accepting isStandardError isErr refusal) ∧ executed = [opening]) := by
  have hcall {leave : Leave V} {executed : List Statement} (hends : w.Ends isStandardError isErr
      refusal matchesType callers serial nil callback clause guard opening leave executed) :
      w.Executes (accepting isStandardError isErr refusal) matchesType leave callers serial nil
        executed := by
    obtain ⟨r, hgoes, hleft, hexecuted⟩ := hends
    obtain ⟨fuel, hrun⟩ := ((h.opens leave).trans hgoes).run hleft
    exact ⟨fuel, r, hrun, hleft, hexecuted⟩
  cases leave with
  | value result =>
    rcases h.value result with hends | hends
    · exact ⟨_, hcall hends, .inl ⟨trivial, .inl rfl⟩⟩
    · exact ⟨_, hcall hends, .inl ⟨trivial, .inr rfl⟩⟩
  | raised error =>
    by_cases herror : isStandardError error = true
    · exact ⟨_, hcall (h.rescued error herror), .inl ⟨herror, .inr rfl⟩⟩
    · exact ⟨_, hcall (h.passed error herror), .inr ⟨herror, rfl⟩⟩
  | nonlocal value target isBreak =>
    exact ⟨_, hcall (h.nonlocal value target isBreak houtside), .inr ⟨id, rfl⟩⟩

lemma Framed.settled {callback clause guard opening}
    (h : Framed isStandardError isErr refusal matchesType callers serial nil w callback clause
      guard opening .commit .rollback) (hopening : opening = .begin ∨ opening = .beginImmediate)
    (houtside : leave.Outside serial) :
    ∃ executed, w.Executes (accepting isStandardError isErr refusal) matchesType leave callers
      serial nil executed ∧
      (Settled executed ↔ leave.Covered (accepting isStandardError isErr refusal)) := by
  obtain ⟨executed, hexecutes, hleaves⟩ := h.leaves houtside
  refine ⟨executed, hexecutes, ?_⟩
  rcases hleaves with ⟨hcovered, rfl | rfl⟩ | ⟨hcovered, rfl⟩
  · exact iff_of_true (by rcases hopening with rfl | rfl <;> decide) hcovered
  · exact iff_of_true (by rcases hopening with rfl | rfl <;> decide) hcovered
  · exact iff_of_false (by rcases hopening with rfl | rfl <;> decide) hcovered

lemma transactionRunNested_executes (houtside : leave.Outside serial) (name : String) :
    ∃ executed, (transactionRunNested name).Executes (accepting isStandardError isErr refusal)
      matchesType leave callers serial nil executed ∧
      (.release name ∈ executed ∨ .rollbackTo name ∈ executed ↔
        leave.Covered (accepting isStandardError isErr refusal)) := by
  obtain ⟨executed, hexecutes, hleaves⟩ := (runBetween_framed isStandardError isErr refusal
    matchesType callers serial nil (.savepoint name) (.release name) (.rollbackTo name)).leaves
    houtside
  refine ⟨executed, hexecutes, ?_⟩
  rcases hleaves with ⟨hcovered, rfl | rfl⟩ | ⟨hcovered, rfl⟩
  · exact iff_of_true (by simp) hcovered
  · exact iff_of_true (by simp) hcovered
  · exact iff_of_false (by simp) hcovered

end

/-- Where the database accepts every statement, a wrapper always leaves; and it has executed exactly
one of `COMMIT` and `ROLLBACK` exactly if the callback returned or raised a StandardError. -/
theorem transaction_settled_iff (w : Wrapper)
    (hw : w = transactionRun ∨ ∃ sqlite, w = repoTransaction sqlite) (env : Environment V)
    (haccepts : ∀ statement, env.accepts statement = true) (matchesType : V → ℕ → Bool)
    (leave : Leave V) (callers : List (DiamondFrame V)) (serial : ℕ)
    (houtside : leave.Outside serial) (nil : V) :
    ∃ r, (∃ fuel, w.call env matchesType leave callers serial nil fuel = some r) ∧
      (∀ fuel r', w.call env matchesType leave callers serial nil fuel = some r' → r' = r) ∧
      r.vm.frames = callers ∧ (Settled r.executed ↔ leave.Covered env) := by
  obtain ⟨isStandardError, isErr, accepts, refusal⟩ := env
  obtain rfl : accepts = fun _ => true := funext haccepts
  have hexecutes : ∃ executed, w.Executes (accepting isStandardError isErr refusal) matchesType
      leave callers serial nil executed ∧
      (Settled executed ↔ leave.Covered (accepting isStandardError isErr refusal)) := by
    rcases hw with rfl | ⟨sqlite, rfl⟩
    · exact (runBetween_framed ..).settled (.inl rfl) houtside
    refine (repo_framed isStandardError isErr refusal matchesType callers serial nil
      sqlite).settled ?_ houtside
    cases sqlite
    · exact .inl rfl
    · exact .inr rfl
  obtain ⟨executed, ⟨fuel, r, hcall, hleft, rfl⟩, hsettled⟩ := hexecutes
  exact ⟨r, ⟨fuel, hcall⟩, fun _ r' hcall' => run_unique hcall' hcall, hleft, hsettled⟩

/-- Surroundings with two values: `true` is a StandardError, `false` is not. -/
def twoValued : Environment Bool := ⟨id, fun _ => false, fun _ => true, true⟩

theorem transaction_settled_iff_rescued :
    ∃ r, (∃ fuel, (repoTransaction true).call twoValued (fun _ _ => true) (.raised true) [] 0 false
        fuel = some r) ∧ Settled r.executed := by
  obtain ⟨r, hcall, -, -, hsettled⟩ := transaction_settled_iff (repoTransaction true)
    (.inr ⟨true, rfl⟩) twoValued (fun _ => rfl) (fun _ _ => true) (.raised true) [] 0 trivial false
  exact ⟨r, hcall, hsettled.2 rfl⟩

/-- A raised value that is no StandardError, and a break out of the block, leave the connection
inside the transaction. -/
theorem transaction_left_open :
    (transactionRun.call twoValued (fun _ _ => true) (.raised false) [] 1 false 40).map
      Running.executed = some [.begin] ∧
    (transactionRun.call twoValued (fun _ _ => true) (.nonlocal false 0 true)
      [⟨0, 0, [], none, 0, none, none, none⟩] 1 false 40).map Running.executed = some [.begin] ∧
    ((repoTransaction true).call twoValued (fun _ _ => true) (.raised false) [] 1 false 40).map
      Running.executed = some [.beginImmediate] ∧
    inTransaction [.begin] = true ∧ inTransaction [.beginImmediate] = true :=
  ⟨rfl, rfl, rfl, rfl, rfl⟩

end Diamond.Transactions
