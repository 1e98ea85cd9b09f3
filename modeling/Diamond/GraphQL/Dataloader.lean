import Mathlib.SetTheory.Ordinal.Rank

/-!
# Batched loads

Model of `execution/dataloader.d6` in `packages/graphql`: `Dataloader#run`, `dispatch_pending`,
`Loader#load` and `dispatch`, with the groups that `complete_list_value` runs inside one another.

A fiber's body is a tree: it loads a key and goes on with the answer, runs a list of bodies as a group
of fibers and goes on when that has ended, ends, or raises.  A body that runs a group does not yield
to its own group until the inner one has ended, so `run` nests.  A loader's Hashes are functions of the
key.  What a batch function raises ends the whole execution, unless it is a StandardError: neither
`dispatch` nor the executor rescues anything else.  The loops run on fuel.
-/

namespace Diamond.GraphQL

variable {N K V : Type}

inductive Failure
  | stalled
  | raised (message : String)
  deriving DecidableEq, Repr

inductive Body (N K V : Type)
  | done
  | raise (message : String)
  | load (name : N) (key : K) (next : Except String V → Body N K V)
  | list (count : ℕ) (items : ℕ → Body N K V) (next : Except Failure Unit → Body N K V)

/-- A fiber: not resumed yet, or inside the loop of `Loader#load`. -/
inductive Fiber (N K V : Type)
  | fresh (body : Body N K V)
  | waiting (name : N) (key : K) (next : Except String V → Body N K V)

/-- What a batch function gives: the message of a StandardError, or what the lookup of each key in its
result does. -/
abbrev Answer (K V : Type) := Except String (K → Except String V)

/-- The batch functions; an error is one that is raised and is not a StandardError. -/
abbrev Batch (N K V : Type) := N → List K → Except String (Answer K V)

/-- Why a run does not return or raise a StandardError. -/
inductive Stop
  | outOfFuel
  | aborted (message : String)
  deriving DecidableEq, Repr

/-- What is seen of a run.  `reached` is a dispatch by a group while a fiber of a group around it
waits for a key that it asked for since. -/
inductive Event (N K V : Type)
  | called (name : N) (keys : List K) (answer : Answer K V)
  | loaded (name : N) (key : K) (result : Except String V)
  | reached
  | stalled
  | escaped

structure Dataloader (N K V : Type) where
  names : List N
  pending : N → List K
  cache : N → K → Option V
  failed : N → K → Option String
  log : List (Event N K V)

def Dataloader.empty : Dataloader N K V := ⟨[], fun _ => [], fun _ _ => none, fun _ _ => none, []⟩

def Dataloader.note (s : Dataloader N K V) (event : Event N K V) : Dataloader N K V :=
  { s with log := s.log ++ [event] }

variable [DecidableEq N] [DecidableEq K]

/-! ## Loaders -/

/-- `Dataloader#with`, and the first lines of `Loader#load` when the key is not there yet. -/
def Dataloader.register (s : Dataloader N K V) (name : N) (key : K) : Dataloader N K V :=
  { s with
    names := if name ∈ s.names then s.names else s.names ++ [name]
    pending := Function.update s.pending name
      (if key ∈ s.pending name then s.pending name else s.pending name ++ [key]) }

def cacheAnswers (lookup : K → Except String V) :
    List K → (K → Option V) → (K → Option V) × Option String
  | [], cache => (cache, none)
  | key :: keys, cache =>
    match lookup key with
    | .ok value => cacheAnswers lookup keys (Function.update cache key (some value))
    | .error message => (cache, some message)

def markFailed (message : String) (keys : List K) (failed : K → Option String) : K → Option String :=
  fun key => if key ∈ keys then some message else failed key

/-- `Loader#dispatch`, with the answer of the batch function. -/
def Dataloader.dispatch (s : Dataloader N K V) (name : N) (answer : Answer K V) :
    Dataloader N K V :=
  let keys := s.pending name
  let s := { s with pending := Function.update s.pending name [] }.note (.called name keys answer)
  match answer with
  | .error message =>
    { s with failed := Function.update s.failed name (markFailed message keys (s.failed name)) }
  | .ok lookup =>
    match cacheAnswers lookup keys (s.cache name) with
    | (cache, none) => { s with cache := Function.update s.cache name cache }
    | (cache, some message) =>
      { s with
        cache := Function.update s.cache name cache
        failed := Function.update s.failed name (markFailed message keys (s.failed name)) }

def Dataloader.dispatchAll (batch : Batch N K V) :
    List N → Dataloader N K V → Bool → Except Stop (Dataloader N K V × Bool)
  | [], s, dispatchedAny => .ok (s, dispatchedAny)
  | name :: names, s, dispatchedAny =>
    if s.pending name = [] then s.dispatchAll batch names dispatchedAny
    else
      match batch name (s.pending name) with
      | .ok answer => (s.dispatch name answer).dispatchAll batch names true
      | .error message => .error (.aborted message)

/-! ## Groups -/

inductive Outcome (N K V : Type)
  | finished
  | raised (failure : Failure)
  | waiting (name : N) (key : K) (next : Except String V → Body N K V)

/-- A group of fibers that runs to its end, with whether a fiber around it waits. -/
abbrev Group (N K V : Type) :=
  Bool → List (Fiber N K V) → Dataloader N K V → Except Stop (Except Failure Unit × Dataloader N K V)

/-- The body goes on to its end or to where it waits; `run` is for the groups inside. -/
def execute (run : Group N K V) (outer : Bool) :
    Body N K V → Dataloader N K V → Except Stop (Outcome N K V × Dataloader N K V)
  | .done, s => .ok (.finished, s)
  | .raise message, s => .ok (.raised (.raised message), s)
  | .load name key next, s =>
    match s.cache name key with
    | some value => execute run outer (next (.ok value)) (s.note (.loaded name key (.ok value)))
    | none =>
      match s.failed name key with
      | some message =>
        execute run outer (next (.error message)) (s.note (.loaded name key (.error message)))
      | none => .ok (.waiting name key next, s.register name key)
  | .list count items next, s =>
    match run outer ((List.range count).map fun i => .fresh (items i)) s with
    | .ok (result, s) => execute run outer (next result) s
    | .error stop => .error stop

def resume (run : Group N K V) (outer : Bool) (fiber : Fiber N K V) (s : Dataloader N K V) :
    Except Stop (Outcome N K V × Dataloader N K V) :=
  match fiber with
  | .fresh body => execute run outer body s
  | .waiting name key next =>
    match s.failed name key with
    | some message =>
      execute run outer (next (.error message)) (s.note (.loaded name key (.error message)))
    | none =>
      match s.cache name key with
      | some value => execute run outer (next (.ok value)) (s.note (.loaded name key (.ok value)))
      | none => .ok (.waiting name key next, s)

/-- One round of `run`: every fiber is resumed once; those still alive are collected. -/
def round (run : Group N K V) (outer : Bool) :
    List (Fiber N K V) → List (Fiber N K V) → Dataloader N K V →
      Except Stop (Except Failure (List (Fiber N K V)) × Dataloader N K V)
  | [], alive, s => .ok (.ok alive, s)
  | fiber :: rest, alive, s =>
    match resume run (outer || !alive.isEmpty) fiber s with
    | .ok (.finished, s) => round run outer rest alive s
    | .ok (.waiting name key next, s) => round run outer rest (alive ++ [.waiting name key next]) s
    | .ok (.raised failure, s) => .ok (.error failure, s.note .escaped)
    | .error stop => .error stop

def Dataloader.dispatchPending (batch : Batch N K V) (outer : Bool) (s : Dataloader N K V) :
    Except Stop (Except Failure Unit × Dataloader N K V) :=
  match s.dispatchAll batch s.names false with
  | .ok (s, true) => .ok (.ok (), if outer then s.note .reached else s)
  | .ok (s, false) => .ok (.error .stalled, s.note .stalled)
  | .error stop => .error stop

def run (batch : Batch N K V) : ℕ → Group N K V
  | 0, _, _, _ => .error .outOfFuel
  | _ + 1, _, [], s => .ok (.ok (), s)
  | fuel + 1, outer, fiber :: fibers, s =>
    match round (run batch fuel) outer (fiber :: fibers) [] s with
    | .error stop => .error stop
    | .ok (.error failure, s) => .ok (.error failure, s)
    | .ok (.ok [], s) => .ok (.ok (), s)
    | .ok (.ok (fiber :: fibers), s) =>
      match s.dispatchPending batch outer with
      | .error stop => .error stop
      | .ok (.error failure, s) => .ok (.error failure, s)
      | .ok (.ok (), s) => run batch fuel outer (fiber :: fibers) s

end Diamond.GraphQL
