import Diamond.Unwind.Machine

/-!
# The interpreter keeps the ledger of cleanups

The handlers that wait and the exits that are pending, over all frames, form a `Cleanup.Ledger`.
Every step of the interpreter that does not stop is a sequence of moves of it: popping an active
ensure replaces its exit, entering an ensure runs a cleanup, and landing, returning and being
rescued take effect.  So what the ledger promises holds of every run of every program.
-/

namespace Diamond.Unwind

open Cleanup (Event Ledger Move Sound)
open Relation (ReflTransGen)

variable {V : Type}

def waitingOf (handlers : List (UnwindHandler V)) : List ℕ :=
  handlers.flatMap fun h => if h.kind = .ensure then [h.cleanup] else []

attribute [local simp] waitingOf

lemma mem_waitingOf {handlers : List (UnwindHandler V)} {cleanup} : cleanup ∈ waitingOf handlers ↔
      ∃ handler ∈ handlers, handler.kind = .ensure ∧ handler.cleanup = cleanup := by
  unfold waitingOf
  rw [List.mem_flatMap]
  refine exists_congr fun handler => and_congr_right fun _ => ?_
  split
  case isTrue hkind => simp [hkind, eq_comm]
  case isFalse hkind => simp [hkind]

def savedOf (handlers : List (UnwindHandler V)) : List ℕ :=
  handlers.flatMap fun h =>
    if h.kind = .activeEnsure then h.savedPending.toList.map Exit.number else []

attribute [local simp] savedOf

def exitsOf (handlers : List (UnwindHandler V)) (pending : PendingUnwind V) : List ℕ :=
  pending.toList.map Exit.number ++ savedOf handlers

attribute [local simp] exitsOf

def DiamondVm.ledger (vm : DiamondVm V) : Ledger :=
  ⟨vm.frames.flatMap fun f => waitingOf f.handlers,
    vm.leaving.toList.map Exit.number ++ vm.frames.flatMap fun f => exitsOf f.handlers f.pending,
    vm.log, vm.clock⟩

attribute [local simp] DiamondVm.ledger

/-- Without an active handler nothing is pending. -/
def Chained : List (UnwindHandler V) → PendingUnwind V → Prop
  | [], pending => pending = none
  | handler :: rest, pending =>
    Chained rest (if handler.kind = .activeEnsure then handler.savedPending else pending)

/-! ## One frame -/

section Frame

variable {handler : UnwindHandler V} {rest handlers : List (UnwindHandler V)}
  {pending : PendingUnwind V} {log : List Event} {waiting exits : List ℕ} {clock number : ℕ}
  {u : Unwinder V}

/-- The ledger while `current` unwinds a frame; `waiting` and `exits` are those of the other frames.
-/
def ledgerOf (current : List ℕ) (u : Unwinder V) (waiting exits : List ℕ) (clock : ℕ) : Ledger :=
  ⟨waitingOf u.handlers ++ waiting, current ++ exitsOf u.handlers u.pending ++ exits, u.log, clock⟩

lemma ledgerOf_rescue (hkind : handler.kind = .rescue) (current : List ℕ) :
    ledgerOf current ⟨handler :: rest, pending, log⟩ waiting exits clock =
      ledgerOf current ⟨rest, pending, log⟩ waiting exits clock := by
  simp [ledgerOf, hkind]

lemma chained_of_ne (hkind : handler.kind ≠ .activeEnsure) (h : Chained (handler :: rest) pending) :
    Chained rest pending := by
  rwa [Chained, if_neg hkind] at h

lemma chained_cons (hkind : handler.kind ≠ .activeEnsure) (h : Chained rest pending) :
    Chained (handler :: rest) pending := by
  rwa [Chained, if_neg hkind]

lemma chained_of_active (hkind : handler.kind = .activeEnsure)
    (h : Chained (handler :: rest) pending) : Chained rest handler.savedPending := by
  rwa [Chained, if_pos hkind] at h

lemma moves_active (hkind : handler.kind = .activeEnsure) : ReflTransGen Move
      (ledgerOf [number] ⟨handler :: rest, pending, log⟩ waiting exits clock)
      (ledgerOf [number] ⟨rest, handler.savedPending, replacePending pending number log⟩
        waiting exits clock) := by
  cases pending with
  | none =>
    have heq : ledgerOf [number] ⟨handler :: rest, none, log⟩ waiting exits clock =
        ledgerOf [number] ⟨rest, handler.savedPending, log⟩ waiting exits clock := by
      simp [ledgerOf, hkind]
    rw [heq]
    exact .refl
  | some exit =>
    have he : (ledgerOf [number] ⟨handler :: rest, some exit, log⟩ waiting exits clock).exits =
        number :: exit.number :: (exitsOf rest handler.savedPending ++ exits) := by
      simp [ledgerOf, hkind]
    have hmove := Move.replaces he
    refine .single ?_
    convert hmove using 1
    simp [ledgerOf, replacePending, hkind]

lemma moves_enterEnsure (hkind : handler.kind = .ensure) (next : Exit V) : ReflTransGen Move
      (ledgerOf [next.number] ⟨handler :: rest, pending, log⟩ waiting exits clock)
      (ledgerOf [] (enterEnsure handler rest pending log next).1 waiting exits clock) := by
  have hw : (ledgerOf [next.number] ⟨handler :: rest, pending, log⟩ waiting exits clock).waiting =
      handler.cleanup :: (waitingOf rest ++ waiting) := by
    simp [ledgerOf, hkind]
  have he : (ledgerOf [next.number] ⟨handler :: rest, pending, log⟩ waiting exits clock).exits =
      next.number :: (exitsOf rest pending ++ exits) := by
    simp [ledgerOf, hkind]
  refine .single ?_
  convert Move.runs hw he using 1
  simp [ledgerOf, enterEnsure, hkind]

lemma chained_enterEnsure (hkind : handler.kind = .ensure) (h : Chained (handler :: rest) pending)
    (next : Exit V) : Chained (enterEnsure handler rest pending log next).1.handlers
      (enterEnsure handler rest pending log next).1.pending := by
  rw [enterEnsure, Chained, if_pos rfl]
  exact chained_of_ne (by simp [hkind]) h

lemma moves_took :
    ReflTransGen Move (ledgerOf [number] ⟨handlers, pending, log⟩ waiting exits clock)
      (ledgerOf [] ⟨handlers, pending, .took number :: log⟩ waiting exits clock) := by
  have he : (ledgerOf [number] ⟨handlers, pending, log⟩ waiting exits clock).exits =
      number :: (exitsOf handlers pending ++ exits) := by simp [ledgerOf]
  refine .single ?_
  convert Move.takes he using 1
  simp [ledgerOf]

section
variable (hchain : Chained handlers pending)
include hchain

lemma discardToEnsure_moves (hu : discardToEnsure number handlers pending log = u) :
    Chained u.handlers u.pending ∧ (∀ h below, u.handlers = h :: below → h.kind = .ensure) ∧
      ReflTransGen Move (ledgerOf [number] ⟨handlers, pending, log⟩ waiting exits clock)
        (ledgerOf [number] u waiting exits clock) := by
  induction handlers generalizing pending log with
  | nil =>
    cases hu
    exact ⟨hchain, (fun _ _ h => by cases h), .refl⟩
  | cons handler _ ih =>
    rw [discardToEnsure] at hu
    cases hkind : handler.kind with rw [hkind] at hu
    | rescue =>
      rw [ledgerOf_rescue hkind]
      exact ih (chained_of_ne (by simp [hkind]) hchain) hu
    | ensure =>
      cases hu
      refine ⟨hchain, fun h below heq => ?_, .refl⟩
      cases heq
      exact hkind
    | activeEnsure =>
      obtain ⟨hrest, hensure, hmoves⟩ := ih (chained_of_active hkind hchain) hu
      exact ⟨hrest, hensure, (moves_active hkind).trans hmoves⟩

/-- `catch_exception`: the exception is caught, or waits behind an ensure, or leaves the frame with
no handler left. -/
lemma catchException_moves {matchesType value ip}
    (hcatch : catchException matchesType value number handlers pending log = (u, ip)) :
    Chained u.handlers u.pending ∧ (ip = none → u.handlers = [] ∧ ReflTransGen Move
        (ledgerOf [number] ⟨handlers, pending, log⟩ waiting exits clock)
        (ledgerOf [number] u waiting exits clock)) ∧ (ip ≠ none → ReflTransGen Move
        (ledgerOf [number] ⟨handlers, pending, log⟩ waiting exits clock)
        (ledgerOf [] u waiting exits clock)) := by
  induction handlers generalizing pending log with
  | nil =>
    cases hcatch
    exact ⟨hchain, fun _ => ⟨rfl, .refl⟩, fun hne => absurd rfl hne⟩
  | cons handler _ ih =>
    rw [catchException] at hcatch
    cases hkind : handler.kind with rw [hkind] at hcatch
    | rescue =>
      rw [ledgerOf_rescue hkind]
      have hrest := chained_of_ne (by simp [hkind]) hchain
      dsimp only at hcatch
      split at hcatch
      · cases hcatch
        exact ⟨hrest, by simp, fun _ => moves_took⟩
      · exact ih hrest hcatch
    | ensure =>
      cases hcatch
      exact ⟨chained_enterEnsure hkind hchain _, by simp,
        fun _ => moves_enterEnsure hkind ⟨.exception value, number⟩⟩
    | activeEnsure =>
      obtain ⟨hu, hnone, hsome⟩ := ih (chained_of_active hkind hchain) hcatch
      refine ⟨hu, fun h => ?_, fun h => (moves_active hkind).trans (hsome h)⟩
      exact ⟨(hnone h).1, (moves_active hkind).trans (hnone h).2⟩

lemma unwindForJump_moves {levels target ip}
    (hjump : unwindForJump number target levels handlers pending log = some (u, ip)) :
    Chained u.handlers u.pending ∧ ReflTransGen Move
      (ledgerOf [number] ⟨handlers, pending, log⟩ waiting exits clock)
      (ledgerOf [] u waiting exits clock) := by
  induction handlers generalizing levels pending log with
  | nil =>
    cases levels with
    | zero =>
      cases hjump
      exact ⟨hchain, moves_took⟩
    | succ => cases hjump
  | cons handler _ ih =>
    cases levels with
    | zero =>
      cases hjump
      exact ⟨hchain, moves_took⟩
    | succ levels =>
      rw [unwindForJump] at hjump
      cases hkind : handler.kind with rw [hkind] at hjump
      | rescue =>
        rw [ledgerOf_rescue hkind]
        exact ih (chained_of_ne (by simp [hkind]) hchain) hjump
      | ensure =>
        cases hjump
        exact ⟨chained_enterEnsure hkind hchain _,
          moves_enterEnsure hkind ⟨.jump target levels, number⟩⟩
      | activeEnsure =>
        obtain ⟨hu, hmoves⟩ := ih (chained_of_active hkind hchain) hjump
        exact ⟨hu, (moves_active hkind).trans hmoves⟩

end

end Frame

/-! ## All frames -/

/-- Nothing is pending in a frame without an active handler. -/
def DiamondVm.Chained (vm : DiamondVm V) : Prop :=
  ∀ frame ∈ vm.frames, Unwind.Chained frame.handlers frame.pending

/-- The interpreter got from `vm` to `vm'` by moves of the ledger. -/
def Keeps (l : Ledger) (vm : DiamondVm V) : Prop := vm.Chained ∧ ReflTransGen Move l vm.ledger

section Vm

variable {P : Program V} {vm vm' : DiamondVm V} {frame : DiamondFrame V}
  {rest : List (DiamondFrame V)} {u : Unwinder V} {l : Ledger} {number ip : ℕ} {value : V}

/-- The ledger of the frame on top, with that of the others. -/
def frameLedger (current : List ℕ) (vm : DiamondVm V) (rest : List (DiamondFrame V))
    (u : Unwinder V) : Ledger :=
  ledgerOf current u (rest.flatMap fun f => waitingOf f.handlers)
    (rest.flatMap fun f => exitsOf f.handlers f.pending) vm.clock

attribute [local simp] frameLedger

open DiamondVm

lemma ledger_resume : (vm.resume frame rest u ip).ledger = frameLedger [] vm rest u := by
  simp [resume, ledgerOf]

lemma ledger_leave {log leaving} : (vm.leave rest log leaving).ledger =
      frameLedger (leaving.toList.map Exit.number) vm rest ⟨[], none, log⟩ := by
  simp [leave, ledgerOf]

lemma keeps_resume (hrest : ∀ f ∈ rest, Chained f.handlers f.pending)
    (hu : Chained u.handlers u.pending) (hmoves : ReflTransGen Move l (frameLedger [] vm rest u)) :
    Keeps l (vm.resume frame rest u ip) := by
  refine ⟨fun f hf => ?_, by rwa [ledger_resume]⟩
  rcases List.mem_cons.1 hf with rfl | hf
  · exact hu
  · exact hrest f hf

lemma keeps_leave {log leaving pending}
    (hrest : ∀ f ∈ rest, Chained f.handlers f.pending) (hpending : Chained [] pending)
    (hmoves : ReflTransGen Move l
      (frameLedger (leaving.toList.map Exit.number) vm rest ⟨[], pending, log⟩)) :
    Keeps l (vm.leave rest log leaving) := by
  rw [Chained] at hpending
  rw [hpending] at hmoves
  exact ⟨hrest, by rwa [ledger_leave]⟩

def DiamondVm.unwinder (vm : DiamondVm V) (frame : DiamondFrame V) : Unwinder V :=
  ⟨frame.handlers, frame.pending, vm.log⟩

attribute [local simp] DiamondVm.unwinder

lemma moves_start : ReflTransGen Move (frameLedger [] vm rest (vm.unwinder frame))
      (frameLedger [vm.clock] vm.start rest (vm.start.unwinder frame)) :=
  .single .starts

section Chained

variable (hframe : Chained frame.handlers frame.pending)
  (hrest : ∀ f ∈ rest, Chained f.handlers f.pending)
include hframe hrest

lemma keeps_raise :
    Keeps (frameLedger [number] vm rest (vm.unwinder frame)) (vm.raise P frame rest value number) := by
  unfold raise
  split
  case h_1 hcatch =>
    obtain ⟨hu, -, hsome⟩ := catchException_moves hframe hcatch
    exact keeps_resume hrest hu (hsome (by simp))
  case h_2 u hcatch =>
    obtain ⟨hu, hnone, -⟩ := catchException_moves hframe hcatch
    obtain ⟨hempty, hmoves⟩ := hnone rfl
    obtain ⟨handlers, _, _⟩ := u
    cases hempty
    exact keeps_leave hrest hu hmoves

lemma keeps_return :
    Keeps (frameLedger [number] vm rest (vm.unwinder frame)) (vm.return frame rest value number) := by
  unfold DiamondVm.return
  generalize hu : discardToEnsure number frame.handlers frame.pending vm.log = u
  obtain ⟨hchain, hensure, hmoves⟩ := discardToEnsure_moves hframe hu
  obtain ⟨handlers, pending, log⟩ := u
  dsimp only
  cases handlers with
  | nil => exact keeps_leave hrest hchain (hmoves.trans moves_took)
  | cons handler below =>
    have hkind := hensure handler below rfl
    exact keeps_resume hrest (chained_enterEnsure hkind hchain _)
      (hmoves.trans (moves_enterEnsure hkind ⟨.ret value, number⟩))

lemma keeps_nonlocal {target isBreak error} :
    Keeps (frameLedger [number] vm rest (vm.unwinder frame))
      (vm.nonlocalExitArrives P frame rest value target isBreak number error) := by
  unfold nonlocalExitArrives
  split
  · split
    · exact keeps_resume hrest hframe moves_took
    · exact keeps_raise hframe hrest
  generalize hu : discardToEnsure number frame.handlers frame.pending vm.log = u
  obtain ⟨hchain, hensure, hmoves⟩ := discardToEnsure_moves hframe hu
  obtain ⟨handlers, pending, log⟩ := u
  dsimp only
  cases handlers with
  | nil =>
    dsimp only
    split
    · exact keeps_leave hrest hchain (hmoves.trans moves_took)
    · split
      all_goals exact keeps_leave hrest hchain hmoves
  | cons handler below =>
    have hkind := hensure handler below rfl
    exact keeps_resume hrest (chained_enterEnsure hkind hchain _)
      (hmoves.trans (moves_enterEnsure hkind ⟨_, number⟩))

lemma keeps_jump {levels target} : (vm.jump frame rest levels target number).stopped = true ∨
      Keeps (frameLedger [number] vm rest (vm.unwinder frame))
        (vm.jump frame rest levels target number) := by
  unfold jump
  split
  case h_1 hjump =>
    obtain ⟨hu, hmoves⟩ := unwindForJump_moves hframe hjump
    exact .inr (keeps_resume hrest hu hmoves)
  case h_2 => exact .inl rfl

lemma keeps_endEnsure {error} : (vm.endEnsure P frame rest error).stopped = true ∨
      Keeps (frameLedger [] vm rest (vm.unwinder frame)) (vm.endEnsure P frame rest error) := by
  unfold endEnsure
  split
  case h_2 => exact .inl rfl
  case h_1 handler below exit hhandlers hpending =>
    split
    case isFalse => exact .inl rfl
    case isTrue hkind =>
      rw [hhandlers] at hframe
      have hbelow : Chained below handler.savedPending := chained_of_active hkind hframe
      -- The pending exit becomes the current one; the ledger is the same.
      have heq : frameLedger [] vm rest (vm.unwinder frame) = frameLedger [exit.number] vm rest
          (vm.unwinder { frame with handlers := below, pending := handler.savedPending }) := by
        simp [ledgerOf, hhandlers, hpending, hkind]
      rw [heq]
      dsimp only
      split
      case h_1 => exact .inr (keeps_resume hrest hbelow moves_took)
      case h_2 => exact keeps_jump hbelow hrest
      case h_3 => exact .inr (keeps_return hbelow hrest)
      case h_4 => exact .inr (keeps_nonlocal hbelow hrest)
      case h_5 => exact .inr (keeps_raise hbelow hrest)

lemma keeps_blockExit {target isBreak} : Keeps (frameLedger [] vm rest (vm.unwinder frame))
      (vm.blockExit P frame rest target isBreak value) := by
  have hraise : Keeps (frameLedger [vm.clock] vm.start rest (vm.start.unwinder frame))
      (vm.start.raise P frame rest value vm.clock) := keeps_raise hframe hrest
  unfold blockExit
  cases target with
  | none => exact ⟨hraise.1, moves_start.trans hraise.2⟩
  | some target =>
    dsimp only
    split
    · have hexit : Keeps (frameLedger [vm.clock] vm.start rest (vm.start.unwinder frame))
          (vm.start.nonlocalExitArrives P frame rest value target isBreak vm.clock value) :=
        keeps_nonlocal hframe hrest
      exact ⟨hexit.1, moves_start.trans hexit.2⟩
    · exact ⟨hraise.1, moves_start.trans hraise.2⟩

end Chained

lemma keeps_started (h : Keeps (frameLedger [vm.clock] vm.start rest (vm.start.unwinder frame)) vm') :
    Keeps (frameLedger [] vm rest (vm.unwinder frame)) vm' :=
  ⟨h.1, moves_start.trans h.2⟩

lemma keeps_pushEnsure {target} (hframe : Chained frame.handlers frame.pending)
    (hrest : ∀ f ∈ rest, Chained f.handlers f.pending) :
    Keeps (frameLedger [] vm rest (vm.unwinder frame)) (vm.pushEnsure frame rest target) := by
  constructor
  · intro f hf
    rcases List.mem_cons.1 hf with rfl | hf
    · exact chained_cons (by simp) hframe
    · exact hrest f hf
  · refine .single ?_
    convert Move.opens using 1
    simp [pushEnsure, resume, ledgerOf]

lemma keeps_call {function returnTarget breakTarget breakCall}
    (hleaving : vm.leaving = none) (hchained : vm.Chained) :
    Keeps vm.ledger (vm.call function returnTarget breakTarget breakCall) := by
  constructor
  · intro f hf
    rcases List.mem_cons.1 hf with rfl | hf
    · rfl
    · exact hchained f hf
  · refine .single ?_
    convert Move.ticks using 1
    simp [call, hleaving]

lemma DiamondVm.Chained.of_frames (hchained : vm.Chained) (hframes : vm.frames = frame :: rest) :
    Unwind.Chained frame.handlers frame.pending ∧
      ∀ f ∈ rest, Unwind.Chained f.handlers f.pending := by
  rw [DiamondVm.Chained, hframes] at hchained
  exact List.forall_mem_cons.1 hchained

lemma ledger_eq_frameLedger (hframes : vm.frames = frame :: rest) :
    vm.ledger = frameLedger (vm.leaving.toList.map Exit.number) vm rest (vm.unwinder frame) := by
  simp [ledgerOf, hframes]

lemma keeps_executes {instruction} (hframes : vm.frames = frame :: rest)
    (hleaving : vm.leaving = none) (hchained : vm.Chained)
    (hexecutes : Executes P vm frame rest instruction vm') :
    vm'.stopped = true ∨ Keeps vm.ledger vm' := by
  obtain ⟨hframe, hrest⟩ := hchained.of_frames hframes
  have hledger := ledger_eq_frameLedger hframes
  rw [hleaving] at hledger
  cases hexecutes with rw [hledger]
  | calls =>
    rw [← hledger]
    exact .inr (keeps_call hleaving hchained)
  | fullRescue | fullEnsure | noRescue | noEnsure => exact .inl rfl
  | fails =>
    exact .inr (keeps_started (keeps_raise hframe hrest))
  | completes | jumps | falls | branches =>
    exact .inr (keeps_resume hrest hframe .refl)
  | returns =>
    exact .inr (keeps_started (keeps_return hframe hrest))
  | exits =>
    exact .inr (keeps_blockExit hframe hrest)
  | @pushesRescue _ _ _ _ =>
    refine .inr (keeps_resume hrest ?_ ?_)
    · exact chained_cons (by simp) hframe
    · rw [frameLedger, frameLedger, ledgerOf_rescue rfl]
      exact .refl
  | @popsRescue _ _ hhandlers hkind =>
    rw [hhandlers] at hframe
    refine .inr (keeps_resume hrest (chained_of_ne (by simp [hkind]) hframe) ?_)
    rw [frameLedger, frameLedger, unwinder, hhandlers, ledgerOf_rescue hkind]
    exact .refl
  | pushesEnsure =>
    exact .inr (keeps_pushEnsure hframe hrest)
  | unwinds =>
    exact (keeps_jump hframe hrest).imp id keeps_started
  | @runsEnsure _ _ continuation hhandlers hkind =>
    rw [hhandlers] at hframe
    refine .inr (keeps_started (keeps_resume hrest (chained_enterEnsure hkind hframe _) ?_))
    rw [frameLedger, unwinder, hhandlers]
    exact moves_enterEnsure hkind ⟨.normal continuation, vm.clock⟩
  | endsEnsure =>
    exact keeps_endEnsure hframe hrest

lemma keeps_deliver {exit error} (hleaving : vm.leaving = some exit) (hchained : vm.Chained) :
    (vm.deliver P exit error).stopped = true ∨ Keeps vm.ledger (vm.deliver P exit error) := by
  unfold deliver
  split
  case h_1 hframes =>
    refine .inr ⟨fun f hf => (by cases hf), .single ?_⟩
    have he : vm.ledger.exits = exit.number :: [] := by
      simp [hframes, hleaving]
    convert Move.takes he using 1
    simp [leave, hframes]
  case h_2 _ _ hframes =>
    obtain ⟨hframe, hrest⟩ := hchained.of_frames hframes
    rw [ledger_eq_frameLedger hframes, hleaving]
    split
    case h_1 => exact .inr (keeps_nonlocal hframe hrest)
    case h_2 => exact .inr (keeps_raise hframe hrest)
    case h_3 => exact .inl rfl

lemma Steps.keeps (h : Steps P vm vm') (hchained : vm.Chained) :
    vm'.stopped = true ∨ Keeps vm.ledger vm' := by
  cases h with
  | executes hleaving hframes _ hexecutes => exact keeps_executes hframes hleaving hchained hexecutes
  | delivers _ hleaving => exact keeps_deliver hleaving hchained

end Vm

end Diamond.Unwind
