import Diamond.Unwind.Contexts

/-!
# The compiler, as far as control goes

Model of `open_begin_frame`, `close_begin_frame`, `compile_retry`, `emit_loop_jump`,
`compile_loop_control` and `compile_return` in `src/compiler_control.c`, and of `parse_while_core`
and `parse_loop` in `src/compiler_flow.c`: what they emit for a function body.

Expressions and statements that do not transfer control are `other`.  A `begin` without rescue
clauses has `noRescue`; a list of clauses that has no catch-all ends in `reraise`.  Moves between
registers, which cannot fail, are left out.

Each instruction is emitted together with the handlers of the begin blocks around it.  They are not
in the source; they are what the runs are compared with.
-/

namespace Diamond.Unwind

open List

inductive SourceKind
  | statement
  | clauses

/-- A function body, and the rescue clauses of a `begin`. -/
inductive Source : SourceKind → Type
  | skip : Source .statement
  | other (canLand : Bool) : Source .statement
  | seq (first second : Source .statement) : Source .statement
  | ite (thenBody elseBody : Source .statement) : Source .statement
  | while (condition body : Source .statement) : Source .statement
  | loop (body : Source .statement) : Source .statement
  | brk : Source .statement
  | next : Source .statement
  | redo : Source .statement
  | retry : Source .statement
  | ret : Source .statement
  | raise : Source .statement
  | begin (body : Source .statement) (rescues : Source .clauses)
      (elseBody ensureBody : Source .statement) : Source .statement
  | noRescue : Source .clauses
  | reraise : Source .clauses
  | typed (typeCount : ℕ) (body : Source .statement) (rest : Source .clauses) : Source .clauses
  | catchAll (body : Source .statement) : Source .clauses

structure LoopContext where
  beginDepth : ℕ
  continueTarget : ℕ
  redoTarget : ℕ
  breakTarget : ℕ

/-- `Compiler`, with the handlers around the code being emitted and, for rescue clauses, where they
end. -/
structure Compiler where
  inBlock : Bool
  currentLoop : Option LoopContext
  currentRetryTarget : Option ℕ
  beginDepth : ℕ
  rescueEnd : ℕ
  handlers : Context

def Source.size {kind : SourceKind} : Source kind → ℕ
  | .skip => 0
  | .other _ => 1
  | .seq first second => first.size + second.size
  | .ite thenBody elseBody => 1 + thenBody.size + 1 + elseBody.size
  | .while condition body => condition.size + 1 + body.size + 1
  | .loop body => body.size + 1
  | .brk | .next | .redo | .retry | .ret | .raise => 1
  | .begin body rescues elseBody ensureBody =>
    2 + body.size + 2 + rescues.size + elseBody.size + 1 + ensureBody.size + 1
  | .noRescue => 0
  | .reraise => 1
  | .typed typeCount body rest => 2 * typeCount + 1 + body.size + 1 + rest.size
  | .catchAll body => body.size + 1

/-- There is a rescue clause, so the handler is enabled. -/
def Source.hasRescue : Source .clauses → Bool
  | .noRescue => false
  | _ => true

def Source.isSkip : Source .statement → Bool
  | .skip => true
  | _ => false

def Source.isReraise : Source .clauses → Bool
  | .reraise => true
  | _ => false

abbrev Emitted := Instruction × Context

def Compiler.emit (c : Compiler) (instruction : Instruction) : Emitted := (instruction, c.handlers)

def Compiler.emitLoopJump (c : Compiler) (loop : LoopContext) (target : ℕ) : Emitted :=
  let levels := c.beginDepth - loop.beginDepth
  if levels = 0 then c.emit (.jump target) else c.emit (.unwindJump levels target)

/-- `compile_loop_control`, where a loop is open or the body is a block's. -/
def Compiler.loopControl (c : Compiler) (target : LoopContext → ℕ) (inBlock : Instruction) : Emitted :=
  match c.currentLoop with
  | some loop => c.emitLoopJump loop (target loop)
  | none => c.emit inBlock

def Compiler.typeTests (c : Compiler) (bodyAddress : ℕ) : ℕ → List Emitted
  | 0 => []
  | count + 1 => c.emit (.other false) :: c.emit (.branch bodyAddress) :: c.typeTests bodyAddress count

/-- The code for a body or for clauses, from the address `base` on. -/
def compile {kind : SourceKind} (c : Compiler) (base : ℕ) : Source kind → List Emitted
  | .skip => []
  | .other canLand => [c.emit (.other canLand)]
  | .seq first second => compile c base first ++ compile c (base + first.size) second
  | .ite thenBody elseBody =>
    c.emit (.branch (base + 1 + thenBody.size + 1)) :: (compile c (base + 1) thenBody ++
      c.emit (.jump (base + 1 + thenBody.size + 1 + elseBody.size)) ::
        compile c (base + 1 + thenBody.size + 1) elseBody)
  | .while condition body =>
    let bodyStart := base + condition.size + 1
    let stop := bodyStart + body.size + 1
    compile c base condition ++ c.emit (.branch stop) ::
      (compile { c with currentLoop := some ⟨c.beginDepth, base, bodyStart, stop⟩ } bodyStart body ++
        [c.emit (.jump base)])
  | .loop body =>
    let stop := base + body.size + 1
    compile { c with currentLoop := some ⟨c.beginDepth, base, base, stop⟩ } base body ++
      [c.emit (.jump base)]
  | .brk => [c.loopControl LoopContext.breakTarget .blockBreak]
  | .next => [c.loopControl LoopContext.continueTarget .ret]
  | .redo => [c.loopControl LoopContext.redoTarget .ret]
  | .retry => [c.emit (.jump (c.currentRetryTarget.getD 0))]
  | .ret => [c.emit (if c.inBlock then .blockReturn else .ret)]
  | .raise => [c.emit .raise]
  | .begin body rescues elseBody ensureBody =>
    let rescueAddress := base + 2 + body.size + 2
    let elseAddress := rescueAddress + rescues.size
    let rescueEnd := elseAddress + elseBody.size
    let ensureAddress := rescueEnd + 1
    let continuation := ensureAddress + ensureBody.size + 1
    let guarded : Compiler :=
      { c with
        beginDepth := c.beginDepth + 1
        handlers := ⟨.ensure, ensureAddress, [], true⟩ :: c.handlers }
    let rescued : Compiler :=
      { guarded with
        handlers := ⟨.rescue, rescueAddress, [], rescues.hasRescue⟩ :: guarded.handlers }
    let cleanup : Compiler :=
      { guarded with handlers := ⟨.activeEnsure, ensureAddress, [], true⟩ :: c.handlers }
    c.emit (.pushEnsure ensureAddress) ::
      guarded.emit (.pushRescue [] rescues.hasRescue rescueAddress) ::
      (compile rescued (base + 2) body ++
      rescued.emit .popRescue :: guarded.emit (.jump elseAddress) ::
      (compile { guarded with currentRetryTarget := some (base + 1), rescueEnd := rescueEnd }
        rescueAddress rescues ++
      (compile guarded elseAddress elseBody ++
      guarded.emit (.runEnsure continuation) ::
      (compile cleanup ensureAddress ensureBody ++ [cleanup.emit .endEnsure]))))
  | .noRescue => []
  | .reraise => [c.emit .raise]
  | .typed typeCount body rest =>
    let bodyAddress := base + 2 * typeCount + 1
    let mismatch := bodyAddress + body.size + 1
    c.typeTests bodyAddress typeCount ++ c.emit (.jump mismatch) ::
      (compile c bodyAddress body ++ c.emit (.jump c.rescueEnd) :: compile c mismatch rest)
  | .catchAll body => compile c base body ++ [c.emit (.jump c.rescueEnd)]

/-- The compiler accepts a body: loop control and `retry` stand where they mean something, a clause
without types is the last one, and `else` comes after a rescue clause. -/
def Source.accepts {kind : SourceKind} (inBlock inLoop inRescue : Bool) : Source kind → Bool
  | .skip | .other _ | .ret | .raise | .noRescue | .reraise => true
  | .seq first second =>
    first.accepts inBlock inLoop inRescue && second.accepts inBlock inLoop inRescue
  | .ite thenBody elseBody =>
    thenBody.accepts inBlock inLoop inRescue && elseBody.accepts inBlock inLoop inRescue
  | .while condition body =>
    condition.accepts inBlock inLoop inRescue && body.accepts inBlock true inRescue
  | .loop body => body.accepts inBlock true inRescue
  | .brk => inLoop || inBlock
  | .next => inLoop || inBlock
  | .redo => inLoop
  | .retry => inRescue
  | .begin body rescues elseBody ensureBody =>
    (body.accepts inBlock inLoop inRescue && rescues.accepts inBlock inLoop true &&
      elseBody.accepts inBlock inLoop inRescue && ensureBody.accepts inBlock inLoop inRescue) &&
      (!rescues.isReraise && (rescues.hasRescue || elseBody.isSkip))
  | .typed typeCount body rest =>
    (body.accepts inBlock inLoop inRescue && rest.accepts inBlock inLoop inRescue) &&
      (decide (0 < typeCount) && rest.hasRescue)
  | .catchAll body => body.accepts inBlock inLoop inRescue

/-! ## What the code looks like -/

/-- A property of each emitted instruction and its address. -/
def Each (R : ℕ → Emitted → Prop) : ℕ → List Emitted → Prop
  | _, [] => True
  | i, emitted :: rest => R i emitted ∧ Each R (i + 1) rest

variable {R : ℕ → Emitted → Prop} {kind : SourceKind} {c : Compiler} {base : ℕ}
  {table : ℕ → Context}

@[simp]
lemma each_nil (i : ℕ) : Each R i [] ↔ True := Iff.rfl

@[simp]
lemma each_cons (i : ℕ) (emitted : Emitted) (rest : List Emitted) :
    Each R i (emitted :: rest) ↔ R i emitted ∧ Each R (i + 1) rest :=
  Iff.rfl

@[simp]
lemma each_append (i : ℕ) (first second : List Emitted) :
    Each R i (first ++ second) ↔ Each R i first ∧ Each R (i + first.length) second := by
  induction first generalizing i with
  | nil => simp
  | cons _ first ih =>
    have hadd : i + 1 + first.length = i + (first.length + 1) := by omega
    simp [ih, hadd, and_assoc]

variable {l : List Emitted}

lemma each_getElem? {i k emitted} (h : Each R i l)
    (hk : l[k]? = some emitted) : R (i + k) emitted := by
  induction l generalizing i k with
  | nil => cases hk
  | cons _ _ ih =>
    cases k with
    | zero =>
      cases hk
      exact h.1
    | succ k =>
      have hadd : i + (k + 1) = i + 1 + k := by omega
      rw [hadd]
      exact ih h.2 hk

open Compiler

@[simp]
lemma length_typeTests (bodyAddress count : ℕ) :
    (c.typeTests bodyAddress count).length = 2 * count := by
  induction count with
  | zero => rfl
  | succ _ ih =>
    rw [typeTests, length_cons, length_cons, ih]
    omega

variable (source : Source kind)

@[simp]
lemma length_compile : (compile c base source).length = source.size := by
  induction source generalizing c base with
  | skip | other | brk | next | redo | retry | ret | raise | noRescue | reraise => rfl
  | seq _ _ ih₁ ih₂ => simp [compile, Source.size, ih₁, ih₂]
  | ite _ _ ih₁ ih₂ | «while» _ _ ih₁ ih₂ | typed _ _ _ ih₁ ih₂ =>
    simp only [compile, Source.size, length_cons, length_append, length_nil,
      length_typeTests, ih₁, ih₂]
    omega
  | loop _ ih | catchAll _ ih => simp [compile, Source.size, ih]
  | begin _ _ _ _ ih₁ ih₂ ih₃ ih₄ =>
    simp only [compile, Source.size, length_cons, length_append, length_nil, ih₁, ih₂, ih₃, ih₄]
    omega

/-- The table has the contexts that the code was emitted with. -/
def Agrees (table : ℕ → Context) : ℕ → List Emitted → Prop :=
  Each fun i emitted => table i = emitted.2

variable (target : LoopContext → ℕ)

lemma loopControl_context (inBlock : Instruction) :
    (c.loopControl target inBlock).2 = c.handlers := by
  unfold loopControl
  split
  · unfold emitLoopJump
    dsimp only
    split <;> rfl
  · rfl

lemma compile_entry (hagrees : Agrees table base (compile c base source))
    (hexit : table (base + source.size) = c.handlers) : table base = c.handlers := by
  induction source generalizing c base with
  | skip | noRescue => exact hexit
  | other | ite | retry | ret | raise | begin | reraise => exact hagrees.1
  | seq _ _ ih₁ ih₂ =>
    simp only [Agrees, compile, each_append, length_compile] at hagrees
    apply ih₁ hagrees.1
    apply ih₂ hagrees.2
    rw [Nat.add_assoc]
    exact hexit
  | «while» _ _ ih | loop _ ih | catchAll _ ih =>
    simp only [Agrees, compile, each_append, each_cons, length_compile] at hagrees
    have hstart := ih hagrees.1 hagrees.2.1
    exact hstart
  | brk | next | redo => exact hagrees.1.trans (loopControl_context ..)
  | typed typeCount =>
    cases typeCount with
    | zero | succ => exact hagrees.1

/-! ## The code is verified, but for some retries -/

/-- Every `retry` stands in its rescue clause itself, not in a begin block inside it. -/
def Source.direct {kind : SourceKind} (inClause : Bool) : Source kind → Bool
  | .skip | .other _ | .brk | .next | .redo | .ret | .raise | .noRescue | .reraise => true
  | .seq first second => first.direct inClause && second.direct inClause
  | .ite thenBody elseBody => thenBody.direct inClause && elseBody.direct inClause
  | .while condition body => condition.direct inClause && body.direct inClause
  | .loop body => body.direct inClause
  | .retry => inClause
  | .begin body rescues elseBody ensureBody =>
    body.direct false && rescues.direct true && elseBody.direct false && ensureBody.direct false
  | .typed _ body rest => body.direct inClause && rest.direct inClause
  | .catchAll body => body.direct inClause

/-- What the code around a piece of code provides. -/
structure Env (table : ℕ → Context) (c : Compiler) (inClause : Bool) : Prop where
  targets : Targets table c.handlers
  loop : ∀ l, c.currentLoop = some l → l.beginDepth ≤ c.beginDepth ∧
    leaveLevels (c.beginDepth - l.beginDepth) c.handlers = some (table l.continueTarget) ∧
    leaveLevels (c.beginDepth - l.beginDepth) c.handlers = some (table l.redoTarget) ∧
    leaveLevels (c.beginDepth - l.beginDepth) c.handlers = some (table l.breakTarget)
  retry : inClause = true → ∃ target, c.currentRetryTarget = some target ∧ table target = c.handlers

/-- The instruction is verified, or the jump of a `retry` that is not direct. -/
def Good (table : ℕ → Context) (direct : Bool) (i : ℕ) (emitted : Emitted) : Prop :=
  Verified table i emitted.1 ∨ (∃ target, emitted.1 = .jump target) ∧ direct = false

lemma Each.imp {S i} (h : Each R i l)
    (himp : ∀ j emitted, R j emitted → S j emitted) : Each S i l := by
  induction l generalizing i with
  | nil => trivial
  | cons _ _ ih => exact ⟨himp _ _ h.1, ih h.2⟩

lemma Each.good {direct whole i} (h : Each (Good table direct) i l)
    (hwhole : direct = false → whole = false := by simp +contextual [Source.direct]) :
    Each (Good table whole) i l :=
  h.imp fun _ _ hgood => hgood.imp id (And.imp id hwhole)

lemma verified_loopControl {i target inBlock} (hagrees : table i = (c.loopControl target inBlock).2)
    (htarget : ∀ l, c.currentLoop = some l →
      leaveLevels (c.beginDepth - l.beginDepth) c.handlers = some (table (target l)))
    (hblock : Verified table i inBlock) : Verified table i (c.loopControl target inBlock).1 := by
  have hi := hagrees.trans (loopControl_context ..)
  unfold loopControl
  split
  case h_1 l hl =>
    have hlevels := htarget l hl
    unfold emitLoopJump
    dsimp only
    split
    case isTrue hzero =>
      rw [hzero, leaveLevels] at hlevels
      exact (Option.some.inj hlevels).symm.trans hi.symm
    case isFalse =>
      rw [← hi] at hlevels
      exact hlevels
  case h_2 => exact hblock

/-- Inside one more begin block, whatever its handlers, the loops around it are one level further.
-/
lemma Env.deeper {inClause} (henv : Env table c inClause) {c'}
    (hloop : c'.currentLoop = c.currentLoop) (hdepth : c'.beginDepth = c.beginDepth + 1)
    (hlevel : ∀ levels, leaveLevels (levels + 1) c'.handlers = leaveLevels levels c.handlers)
    (htargets : Targets table c'.handlers) : Env table c' false := by
  refine ⟨htargets, fun l hl => ?_, by simp⟩
  rw [hloop] at hl
  obtain ⟨hle, htarget⟩ := henv.loop l hl
  have hsub : c'.beginDepth - l.beginDepth = c.beginDepth - l.beginDepth + 1 := by omega
  rw [hsub, hlevel]
  exact ⟨by omega, htarget⟩

lemma Env.inClause (henv : Env table c false)
    (hretry : ∃ target, c.currentRetryTarget = some target ∧ table target = c.handlers) :
    Env table c true :=
  ⟨henv.targets, henv.loop, fun _ => hretry⟩

/-- The body of a loop: its jumps stay at the same level. -/
lemma Env.inLoop {inClause} (henv : Env table c inClause) {l}
    (hdepth : l.beginDepth = c.beginDepth) (hcontinue : table l.continueTarget = c.handlers)
    (hredo : table l.redoTarget = c.handlers) (hbreak : table l.breakTarget = c.handlers) :
    Env table { c with currentLoop := some l } inClause := by
  refine ⟨henv.targets, fun _ hl' => ?_, henv.retry⟩
  cases hl'
  rw [hdepth, Nat.sub_self, leaveLevels, hcontinue, hredo, hbreak]
  exact ⟨Nat.le_refl _, rfl, rfl, rfl⟩

lemma verified_typeTests {bodyAddress} (hbody : table bodyAddress = c.handlers) {direct}
    (count : ℕ) {i} (hagrees : Agrees table i (c.typeTests bodyAddress count))
    (hnext : table (i + 2 * count) = c.handlers) :
    Each (Good table direct) i (c.typeTests bodyAddress count) := by
  induction count generalizing i with
  | zero => trivial
  | succ count ih =>
    obtain ⟨hfirst, hsecond, hrest⟩ := hagrees
    have hnext' : table (i + 1 + 1 + 2 * count) = c.handlers := by
      rw [← hnext]
      congr 1
      omega
    have hthird : table (i + 1 + 1) = c.handlers := by
      cases count with
      | zero => exact hnext'
      | succ => exact hrest.1
    exact ⟨.inl (hsecond.trans hfirst.symm),
      .inl ⟨hbody.trans hsecond.symm, hthird.trans hsecond.symm⟩, ih hrest hnext'⟩

lemma compile_verified {inClause} (hagrees : Agrees table base (compile c base source))
    (hexit : table (base + source.size) = c.handlers) (henv : Env table c inClause)
    (hend : kind = .clauses → table c.rescueEnd = c.handlers) :
    Each (Good table (source.direct inClause)) base (compile c base source) := by
  induction source generalizing c base inClause with simp only [Agrees, compile, each_append,
    each_cons, each_nil, length_compile, length_typeTests] at hagrees ⊢
  | other => exact ⟨.inl (hexit.trans hagrees.1.symm), trivial⟩
  | seq first second ih₁ ih₂ =>
    obtain ⟨hfirst, hsecond⟩ := hagrees
    have hexit₂ : table (base + first.size + second.size) = c.handlers := by
      rw [Nat.add_assoc]
      exact hexit
    have hmiddle := compile_entry second hsecond hexit₂
    constructor
    · exact (ih₁ hfirst hmiddle henv hend).good
    · exact (ih₂ hsecond hexit₂ henv hend).good
  | ite thenBody elseBody ih₁ ih₂ =>
    obtain ⟨hbranch, hthen, hjump, helse⟩ := hagrees
    have hexit₂ : table (base + 1 + thenBody.size + 1 + elseBody.size) = c.handlers := by
      rw [← hexit, Source.size]
      congr 1
      omega
    have helse₀ := compile_entry elseBody helse hexit₂
    have hthen₀ := compile_entry thenBody hthen hjump
    refine ⟨.inl ⟨helse₀.trans hbranch.symm, hthen₀.trans hbranch.symm⟩, ?_, .inl ?_, ?_⟩
    · exact (ih₁ hthen hjump henv hend).good
    · exact hexit₂.trans hjump.symm
    · exact (ih₂ helse hexit₂ henv hend).good
  | «while» condition body ih₁ ih₂ =>
    obtain ⟨hcondition, hbranch, hbody, hback, -⟩ := hagrees
    have hexit₂ : table (base + condition.size + 1 + body.size + 1) = c.handlers := by
      rw [← hexit, Source.size]
      congr 1
      omega
    have hstart := compile_entry condition hcondition hbranch
    have hbody₀ := compile_entry body hbody hback
    refine ⟨?_, .inl ⟨hexit₂.trans hbranch.symm, hbody₀.trans hbranch.symm⟩, ?_, .inl ?_, trivial⟩
    · exact (ih₁ hcondition hbranch henv hend).good
    · exact (ih₂ hbody hback (henv.inLoop rfl hstart hbody₀ hexit₂) hend).good
    · exact hstart.trans hback.symm
  | loop body ih =>
    obtain ⟨hbody, hback, -⟩ := hagrees
    have hstart := compile_entry body hbody hback
    have hexit₂ : table (base + body.size + 1) = c.handlers := hexit
    refine ⟨ih hbody hback (henv.inLoop rfl hstart hstart hexit₂) hend, .inl ?_, trivial⟩
    exact hstart.trans hback.symm
  | brk =>
    exact ⟨.inl (verified_loopControl hagrees.1 (fun l hl => (henv.loop l hl).2.2.2) trivial), trivial⟩
  | next =>
    exact ⟨.inl (verified_loopControl hagrees.1 (fun l hl => (henv.loop l hl).2.1) trivial), trivial⟩
  | redo =>
    exact ⟨.inl (verified_loopControl hagrees.1 (fun l hl => (henv.loop l hl).2.2.1) trivial), trivial⟩
  | retry =>
    refine ⟨?_, trivial⟩
    cases inClause with
    | false => exact .inr ⟨⟨_, rfl⟩, rfl⟩
    | true =>
      obtain ⟨_, htarget, hcontext⟩ := henv.retry rfl
      refine .inl ?_
      rw [htarget]
      exact hcontext.trans hagrees.1.symm
  | ret =>
    refine ⟨.inl ?_, trivial⟩
    dsimp only [emit]
    split <;> trivial
  | raise | reraise => exact ⟨.inl trivial, trivial⟩
  | begin body rescues elseBody ensureBody ih₁ ih₂ ih₃ ih₄ =>
    obtain ⟨hpush, hpushRescue, hbody, hpop, hjump, hrescues, helse, hrun, hensure, hdone, -⟩ := hagrees
    have hexit₂ : table (base + 2 + body.size + 2 + rescues.size + elseBody.size + 1 +
        ensureBody.size + 1) = c.handlers := by
      rw [← hexit, Source.size]
      congr 1
      omega
    have hensure₀ := compile_entry ensureBody hensure hdone
    have helse₀ := compile_entry elseBody helse hrun
    have hrescues₀ := compile_entry rescues hrescues helse₀
    have hbody₀ := compile_entry body hbody hpop
    -- The handlers of the block lead where its parts start.
    have hguarded := And.intro hensure₀ henv.targets
    have hrescued := And.intro hrescues₀ hguarded
    refine ⟨.inl ⟨?_, ?_⟩, .inl ⟨?_, ?_⟩, ?_,
      .inl ⟨⟨.rescue, _, [], _⟩, rfl, hpop.trans (congrArg _ hjump.symm)⟩, .inl ?_, ?_, ?_,
      .inl ⟨⟨.ensure, _, [], true⟩, rfl, hrun.trans (congrArg _ hexit₂.symm)⟩, ?_,
      .inl ⟨⟨.activeEnsure, _, [], true⟩, rfl, _, hdone⟩, trivial⟩
    · exact hpushRescue.trans (congrArg _ hpush.symm)
    · exact hensure₀.trans (congrArg _ hpush.symm)
    · exact hbody₀.trans (congrArg _ hpushRescue.symm)
    · exact hrescues₀.trans hpushRescue.symm
    · exact (ih₁ hbody hpop (henv.deeper rfl rfl (fun _ => rfl) hrescued) (by simp)).good
    · exact helse₀.trans hjump.symm
    · refine Each.good (ih₂ hrescues helse₀ (Env.inClause ?_ ⟨base + 1, rfl, hpushRescue⟩)
        (fun _ => hrun))
      exact henv.deeper rfl rfl (fun _ => rfl) hguarded
    · exact (ih₃ helse hrun (henv.deeper rfl rfl (fun _ => rfl) hguarded) (by simp)).good
    · exact (ih₄ hensure hdone
        (henv.deeper rfl rfl (fun _ => rfl) ⟨trivial, henv.targets⟩) (by simp)).good
  | typed typeCount body rest ih₁ ih₂ =>
    obtain ⟨htests, hmiss, hbody, hjump, hrest⟩ := hagrees
    have hexit₂ : table (base + 2 * typeCount + 1 + body.size + 1 + rest.size) = c.handlers := by
      rw [← hexit, Source.size]
      congr 1
      omega
    have hrest₀ := compile_entry rest hrest hexit₂
    have hbody₀ := compile_entry body hbody hjump
    refine ⟨verified_typeTests hbody₀ typeCount htests hmiss, .inl (hrest₀.trans hmiss.symm), ?_,
      .inl ((hend rfl).trans hjump.symm), ?_⟩
    · exact (ih₁ hbody hjump henv (by simp)).good
    · exact (ih₂ hrest hexit₂ henv hend).good
  | catchAll _ ih =>
    obtain ⟨hbody, hjump, -⟩ := hagrees
    refine ⟨ih hbody hjump henv (by simp), .inl ((hend rfl).trans hjump.symm), trivial⟩

/-! ## Room for the handlers -/

/-- No begin block is entered with more than 14 handlers around it: two for each block whose body it
is in, one for each block in whose clauses it is. -/
def Source.shallow {kind : SourceKind} (count : ℕ) : Source kind → Bool
  | .skip | .other _ | .brk | .next | .redo | .retry | .ret | .raise | .noRescue | .reraise => true
  | .seq first second => first.shallow count && second.shallow count
  | .ite thenBody elseBody => thenBody.shallow count && elseBody.shallow count
  | .while condition body => condition.shallow count && body.shallow count
  | .loop body => body.shallow count
  | .begin body rescues elseBody ensureBody =>
    decide (count + 2 ≤ handlerCapacity) && (body.shallow (count + 2) &&
      (rescues.shallow (count + 1) && (elseBody.shallow (count + 1) &&
        ensureBody.shallow (count + 1))))
  | .typed _ body rest => body.shallow count && rest.shallow count
  | .catchAll body => body.shallow count

/-- The instruction finds room, if it pushes a handler. -/
def HasRoom (_ : ℕ) (emitted : Emitted) : Prop :=
  match emitted.1 with
  | .pushRescue _ _ _ => emitted.2.length < handlerCapacity
  | .pushEnsure _ => emitted.2.length < handlerCapacity
  | _ => True

lemma hasRoom_loopControl {inBlock} (i : ℕ)
    (hblock : HasRoom i (c.emit inBlock)) : HasRoom i (c.loopControl target inBlock) := by
  unfold loopControl
  split
  · unfold emitLoopJump
    dsimp only
    split <;> trivial
  · exact hblock

lemma hasRoom_typeTests (bodyAddress count i : ℕ) :
    Each HasRoom i (c.typeTests bodyAddress count) := by
  induction count generalizing i with
  | zero => trivial
  | succ _ ih => exact ⟨trivial, trivial, ih _⟩

lemma compile_room (hshallow : source.shallow c.handlers.length = true) :
    Each HasRoom base (compile c base source) := by
  induction source generalizing c base with simp only [compile, each_append, each_cons, each_nil,
    length_compile, length_typeTests]
  | other | retry | raise | reraise => exact ⟨trivial, trivial⟩
  | seq _ _ ih₁ ih₂ =>
    obtain ⟨h₁, h₂⟩ := Bool.and_eq_true_iff.1 hshallow
    exact ⟨ih₁ h₁, ih₂ h₂⟩
  | ite _ _ ih₁ ih₂ =>
    obtain ⟨h₁, h₂⟩ := Bool.and_eq_true_iff.1 hshallow
    exact ⟨trivial, ih₁ h₁, trivial, ih₂ h₂⟩
  | «while» _ _ ih₁ ih₂ =>
    obtain ⟨h₁, h₂⟩ := Bool.and_eq_true_iff.1 hshallow
    exact ⟨ih₁ h₁, trivial, ih₂ h₂, trivial, trivial⟩
  | loop _ ih | catchAll _ ih =>
    exact ⟨ih hshallow, trivial, trivial⟩
  | brk | next | redo => exact ⟨hasRoom_loopControl _ _ trivial, trivial⟩
  | ret =>
    cases c.inBlock with
    | true | false => exact ⟨trivial, trivial⟩
  | begin _ _ _ _ ih₁ ih₂ ih₃ ih₄ =>
    obtain ⟨hroom, hshallow⟩ := Bool.and_eq_true_iff.1 hshallow
    obtain ⟨h₁, hshallow⟩ := Bool.and_eq_true_iff.1 hshallow
    obtain ⟨h₂, hshallow⟩ := Bool.and_eq_true_iff.1 hshallow
    obtain ⟨h₃, h₄⟩ := Bool.and_eq_true_iff.1 hshallow
    have hrescue : c.handlers.length + 1 < handlerCapacity := of_decide_eq_true hroom
    have hensure : c.handlers.length < handlerCapacity := Nat.lt_of_succ_lt hrescue
    exact ⟨hensure, hrescue, ih₁ h₁, trivial, trivial, ih₂ h₂, ih₃ h₃, trivial, ih₄ h₄, trivial,
      trivial⟩
  | typed _ _ _ ih₁ ih₂ =>
    obtain ⟨h₁, h₂⟩ := Bool.and_eq_true_iff.1 hshallow
    exact ⟨hasRoom_typeTests .., trivial, ih₁ h₁, trivial, ih₂ h₂⟩

end Diamond.Unwind
