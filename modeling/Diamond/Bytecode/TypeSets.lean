import Diamond.Bytecode.Disassemble
import Mathlib.Algebra.Order.BigOperators.Group.List
import Mathlib.Algebra.Order.Ring.Nat
import Mathlib.Data.Finset.Card

/-!
# Whether the verifier returns

`print_type_set` follows type sets into the sets they name and does not look whether it is already
in one; `fixed_binding_node_valid` in `src/compiled_prelude.c` does.  Here a call returns within a
depth if every call in it does; what it answers, and a check that ends it early, is left to
`diamondVerifyBytecode`.
-/

namespace Diamond.Bytecode
open Relation Finset

/-- The sets that `print_type_set` goes on to from a member, whether or not it found the member
valid. -/
def DiamondTypeMember.visited (member : DiamondTypeMember) : List ℕ :=
  if member.argumentSet ≠ noTypeSet then
    member.argumentSet ::
      if member.secondArgumentSet ≠ noTypeSet then [member.secondArgumentSet] else []
  else if member.id = typeCallable ∧ member.callableArity ≠ 0xff then
    (if member.callableParametersTyped then
      (List.range member.callableArity).map fun parameter =>
        member.callableParameterSets.getD parameter 0
      else []) ++
      if member.callableReturnSet ≠ noTypeSet then [member.callableReturnSet] else []
  else []

namespace DiamondChunk
variable (c : DiamondChunk)

def visited (index : ℕ) : List ℕ :=
  match c.typeSets[index]? with
  | none => []
  | some set => set.members.flatMap DiamondTypeMember.visited

/-- `print_type_set` returns, with at most `depth` calls of it on the stack. -/
def printTypeSetReturns : ℕ → ℕ → Bool
  | 0, _ => false
  | depth + 1, index => (c.visited index).all (printTypeSetReturns depth)

def printed (offset : ℕ) : List ℕ :=
  let operands (start count : ℕ) : List ℕ :=
    if c.requireBytes offset (start + 2 * count) then
      (List.range count).map fun i => c.readOperand (offset + start + 2 * i)
    else []
  match c.opcode offset with
  | some .callTyped => if c.requireBytes offset 9 then operands 9 (c.byte (offset + 8)) else []
  | some .invokeTyped => if c.requireBytes offset 11 then operands 11 (c.byte (offset + 10)) else []
  | some .checkType => if c.requireBytes offset 5 then [c.readOperand (offset + 3)] else []
  | some .checkSelfReturn =>
    if c.requireBytes offset 7 ∧ c.readOperand (offset + 3) ≠ noTypeSet then
      [c.readOperand (offset + 3)]
    else []
  | _ => []

def disassembleReturns (depth : ℕ) : Bool :=
  c.walk.starts.all fun offset => (c.printed offset).all (c.printTypeSetReturns depth)

def chunks : List DiamondChunk := c :: c.functions.map c.functionChunk

def Visits (index next : ℕ) : Prop := next ∈ c.visited index

/-- A set that is printed leads to one that leads back to itself. -/
def Cyclic : Prop :=
  ∃ offset ∈ c.walk.starts, ∃ index ∈ c.printed offset,
    ∃ set, ReflTransGen c.Visits index set ∧ TransGen c.Visits set set

end DiamondChunk

/-- `diamond_verify_bytecode`, on a stack with room for `depth` calls. -/
def verifyRun (depth : ℕ) (c : DiamondChunk) : Option Bool :=
  if c.chunks.all fun chunk => chunk.disassembleReturns depth then some (diamondVerifyBytecode c)
  else none

/-- `fixed_binding_node_valid` returns.  A node is the nodes that its members and their signatures
name. -/
def bindingNodeReturns (nodes : List (List ℕ)) : ℕ → List ℕ → ℕ → Bool
  | 0, _, _ => false
  | depth + 1, active, node =>
    if node = 0xff ∨ nodes.length ≤ node ∨ node ∈ active then true
    else (nodes.getD node []).all (bindingNodeReturns nodes depth (node :: active))

/-- A program: the bindings of its classes, whether it passes the checks that are loops over its
tables, and its chunk. -/
structure DiamondProgram where
  bindings : List (List (List ℕ))
  tablesValid : Bool
  chunk : DiamondChunk

/-- `program_is_valid`, on a stack with room for `depth` calls. -/
def programIsValidRun (depth : ℕ) (program : DiamondProgram) : Option Bool :=
  if program.bindings.all fun nodes => bindingNodeReturns nodes depth [] 0 then
    if program.tablesValid then verifyRun depth program.chunk else some false
  else none

/-! ## Type sets -/

variable {c : DiamondChunk} {index set depth : ℕ}

lemma visited_of_le (h : c.typeSets.length ≤ index) : c.visited index = [] := by
  rw [DiamondChunk.visited, List.getElem?_eq_none h]

lemma not_returns_of_cycle (hreach : ReflTransGen c.Visits index set)
    (hcycle : TransGen c.Visits set set) : c.printTypeSetReturns depth index = false := by
  induction depth generalizing index with
  | zero => rfl
  | succ _ ih =>
    have hstep : ∃ next ∈ c.visited index, ReflTransGen c.Visits next set := by
      rcases hreach.cases_head with rfl | ⟨next, hnext, hreach⟩
      · exact TransGen.head'_iff.1 hcycle
      · exact ⟨next, hnext, hreach⟩
    obtain ⟨next, hnext, hreach⟩ := hstep
    rw [DiamondChunk.printTypeSetReturns, List.all_eq_false]
    exact ⟨next, hnext, by rw [ih hreach]; exact Bool.false_ne_true⟩

/-- The calls on the stack are for different sets, so there are no more of them than sets. -/
lemma returns_of_acyclic {stack} (hstack : stack ⊆ Finset.range c.typeSets.length)
    (hdepth : c.typeSets.length < depth + stack.card)
    (habove : ∀ caller ∈ stack, TransGen c.Visits caller index)
    (hacyclic : ∀ set, ReflTransGen c.Visits index set → ¬TransGen c.Visits set set) :
    c.printTypeSetReturns depth index = true := by
  induction depth generalizing index stack with
  | zero =>
    have hcard := card_le_card hstack
    rw [card_range] at hcard
    omega
  | succ _ ih =>
    rw [DiamondChunk.printTypeSetReturns, List.all_eq_true]
    intro _ hnext
    have hindex : index < c.typeSets.length := by
      by_contra hout
      rw [visited_of_le (not_lt.1 hout)] at hnext
      cases hnext
    have hnew : index ∉ stack := fun hmem => hacyclic index .refl (habove index hmem)
    refine ih (insert_subset (mem_range.2 hindex) hstack) ?_ ?_ ?_
    · rw [card_insert_of_notMem hnew]
      omega
    · intro caller hcaller
      rcases mem_insert.1 hcaller with rfl | hcaller
      · exact .single hnext
      · exact (habove caller hcaller).tail hnext
    · exact fun set hreach => hacyclic set (.head hnext hreach)

lemma disassembleReturns_of_acyclic (h : ¬c.Cyclic) (hdepth : c.typeSets.length < depth) :
    c.disassembleReturns depth = true := by
  rw [DiamondChunk.disassembleReturns, List.all_eq_true]
  intro offset hoffset
  rw [List.all_eq_true]
  intro index hindex
  refine returns_of_acyclic (empty_subset _) hdepth (fun _ hcaller => ?_) ?_
  · cases hcaller
  · exact fun set hreach hcycle => h ⟨offset, hoffset, index, hindex, set, hreach, hcycle⟩

lemma not_cyclic_of_returns (h : c.disassembleReturns depth = true) : ¬c.Cyclic := by
  rintro ⟨offset, hoffset, index, hindex, _, hreach, hcycle⟩
  have hreturns := List.all_eq_true.1 (List.all_eq_true.1 h offset hoffset) index hindex
  rw [not_returns_of_cycle hreach hcycle] at hreturns
  cases hreturns

lemma verifyRun_eq_some (h : ∀ chunk ∈ c.chunks, ¬chunk.Cyclic)
    (hdepth : (c.chunks.map fun chunk => chunk.typeSets.length).sum < depth) :
    verifyRun depth c = some (diamondVerifyBytecode c) := by
  rw [verifyRun, if_pos]
  rw [List.all_eq_true]
  intro chunk hchunk
  apply disassembleReturns_of_acyclic (h chunk hchunk)
  refine lt_of_le_of_lt (List.le_sum_of_mem ?_) hdepth
  exact List.mem_map_of_mem (f := fun chunk => chunk.typeSets.length) hchunk

lemma not_cyclic_of_verifyRun {answer} (h : verifyRun depth c = some answer) :
    ∀ chunk ∈ c.chunks, ¬chunk.Cyclic := by
  rw [verifyRun] at h
  split_ifs at h with hreturns
  exact fun chunk hchunk => not_cyclic_of_returns (List.all_eq_true.1 hreturns chunk hchunk)

lemma bindingNodeReturns_of_lt {nodes node active}
    (hnodup : active.Nodup) (hactive : ∀ other ∈ active, other < nodes.length)
    (hdepth : nodes.length < depth + active.length) :
    bindingNodeReturns nodes depth active node = true := by
  induction depth generalizing active node with
  | zero =>
    have hlength := (hnodup.subperm fun other hother =>
      List.mem_range.2 (hactive other hother)).length_le
    rw [List.length_range] at hlength
    omega
  | succ _ ih =>
    rw [bindingNodeReturns]
    split_ifs with hends
    · rfl
    simp only [not_or, not_le] at hends
    rw [List.all_eq_true]
    intro _ _
    refine ih (List.nodup_cons.2 ⟨hends.2.2, hnodup⟩) ?_ ?_
    · exact List.forall_mem_cons.2 ⟨hends.2.1, hactive⟩
    · rw [List.length_cons]
      omega

lemma bindings_return {program : DiamondProgram}
    (hdepth : (program.bindings.map List.length).sum < depth) :
    (program.bindings.all fun nodes => bindingNodeReturns nodes depth [] 0) = true := by
  rw [List.all_eq_true]
  intro nodes hnodes
  refine bindingNodeReturns_of_lt List.nodup_nil (fun _ hother => ?_) ?_
  · cases hother
  · exact lt_of_le_of_lt (List.le_sum_of_mem (List.mem_map_of_mem hnodes)) hdepth

/-- `CHECK_TYPE r0` of a set of Arrays of that same set. -/
def cyclicChunk : DiamondChunk :=
  ⟨[50, 0, 0, 0, 0], 0, 0, [⟨[⟨5, 0, noTypeSet, 0, noTypeSet, false, []⟩]⟩], [], [], 0, 1⟩

end Diamond.Bytecode
