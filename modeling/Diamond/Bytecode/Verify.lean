import Diamond.Bytecode.Disassemble
import Mathlib.Order.Monotone.Basic

/-!
# What an accepted chunk is

Every case of the verifier is one of three things (`Decodes`): it finds its instruction truncated,
it has the length of the instruction's format and checks its operands, or it is one of the register
helpers, which end the walk at a truncated instruction without clearing `valid`.  Some operands are
not looked at (`DiamondOpCode.unchecked`).
-/

namespace Diamond.Bytecode

open List

open DiamondChunk (InRange)

attribute [local simp] InRange

/-- The operands that the verifier does not compare with anything: the function of a closure, the
argument registers of `INVOKE_SELF_METHOD` after the first, the registers after the destination of
`COLLECT_VARIADIC`, and the names of `GET_IVAR_NAME`, `SET_IVAR_NAME` and of the locals of
`DEBUGGER` and `BREAKPOINT_CHECK`. -/
def DiamondOpCode.unchecked : DiamondOpCode → Role → Bool
  | .closure, .function => true
  | .invokeSelfMethod, .registers _ => true
  | .collectVariadic, .registers _ => true
  | .getIvarName, .string => true
  | .setIvarName, .string => true
  | .debugger, .string => true
  | .breakpointCheck, .string => true
  | _, _ => false

attribute [simp] DiamondOpCode.unchecked

def Format.Short (f : Format) : Prop := (∃ n, f = Format.registers n) ∨ f = Format.registersAndConstant

variable {c : DiamondChunk} {offset : ℕ} {op : DiamondOpCode} {d : Decoded}

/-- What a case of the verifier makes of the instruction at `offset`. -/
inductive Decodes (c : DiamondChunk) (offset : ℕ) (op : DiamondOpCode) (d : Decoded) : Prop
  | truncated (hnext : d.next = c.codeCount) (hvalid : d.valid = false)
  | cutOff (hshort : (c.formatAt offset op).Short)
      (hend : c.codeCount < offset + (c.formatAt offset op).length) (hnext : d.next = c.codeCount)
  | whole (hend : offset + (c.formatAt offset op).length ≤ c.codeCount)
      (hnext : d.next = offset + (c.formatAt offset op).length)
      (hvalid : d.valid = true → ∀ operand ∈ (c.formatAt offset op).operands,
        op.unchecked operand.2 = false → c.InRange d.targets offset operand)

section Checks

variable (c) (offset count : ℕ)

@[simp]
lemma requireBytes_iff : c.requireBytes offset count = true ↔ offset + count ≤ c.codeCount :=
  decide_eq_true_iff

@[simp]
lemma checkedRegister_iff :
    c.checkedRegister offset = true ↔ c.readOperand offset < c.registerWidth :=
  decide_eq_true_iff

@[simp]
lemma checkedRegisterRange_iff : c.checkedRegisterRange offset count = true ↔
    c.readOperand offset + count ≤ c.registerWidth :=
  decide_eq_true_iff

@[simp]
lemma constantIndex_iff : c.constantIndex offset = true ↔ c.readOperand offset < c.constantCount :=
  decide_eq_true_iff

@[simp]
lemma stringIndex_iff : c.stringIndex offset = true ↔ c.readOperand offset < c.stringCount :=
  decide_eq_true_iff

@[simp]
lemma functionIndex_iff : c.functionIndex offset = true ↔ c.readOperand offset < c.functionCount :=
  decide_eq_true_iff

@[simp]
lemma typeSetIndex_iff : c.typeSetIndex offset = true ↔ c.readOperand offset < c.typeSetCount :=
  decide_eq_true_iff

lemma typeSetIndex_of_printTypeSet (h : c.printTypeSet offset = true) :
    c.readOperand offset < c.typeSetCount := by
  unfold DiamondChunk.printTypeSet DiamondChunk.printTypeSetWithin at h
  split at h
  case h_1 => cases h
  case h_2 hset => exact (List.getElem?_eq_some_iff.1 hset).1

lemma typeSetIndexes_iff : c.typeSetIndexes offset count = true ↔
    ∀ i < count, c.readOperand (offset + 2 * i) < c.typeSetCount := by
  simp [DiamondChunk.typeSetIndexes]

lemma typeSetIndexes_of_printed (h : c.printedTypeSets offset count = true) (i : ℕ)
    (hi : i < count) : c.readOperand (offset + 2 * i) < c.typeSetCount := by
  apply typeSetIndex_of_printTypeSet
  exact all_eq_true.1 h i (mem_range.2 hi)

end Checks

/-! ## Operands of a variable part -/

variable {P : ℕ × Role → Prop} {start encoded : ℕ} {valid : Bool} {w : DisassemblyWalk}
  {starts : List ℕ}

lemma forall_typeSets {n} :
    (∀ x ∈ Format.typeSets start n, P x) ↔ ∀ i < n, P (start + 2 * i, .typeSet) := by
  simp [Format.typeSets]

lemma forall_named {n} : (∀ x ∈ Format.named start n, P x) ↔
      ∀ i < n, P (start + 4 * i, .string) ∧ P (start + 4 * i + 2, .register) := by
  simp only [Format.named, forall_mem_flatMap, mem_range, forall_mem_cons,
    not_mem_nil, false_imp_iff, implies_true, and_true]

lemma forall_trailer : (∀ x ∈ Format.trailer start encoded, P x) ↔
      (∀ i < Format.keywordCount encoded,
        P (start + 4 * i, .string) ∧ P (start + 4 * i + 2, .register)) ∧
      (Format.hasBlock encoded = true →
        P (start + 4 * Format.keywordCount encoded, .register)) := by
  rw [Format.trailer, forall_mem_append, forall_named]
  apply and_congr_right'
  split
  case isTrue hblock | isFalse hblock => simp [hblock]

lemma Decodes.require {count} (h : offset + count ≤ c.codeCount → Decodes c offset op d) :
    Decodes c offset op (c.require offset count d) := by
  unfold DiamondChunk.require
  split
  case isTrue hbytes => exact h ((requireBytes_iff _ _ _).1 hbytes)
  case isFalse => exact .truncated rfl rfl

lemma Decodes.instruction {count operands} (hformat : c.formatAt offset op = ⟨count, operands⟩)
    (hvalid : valid = true → ∀ operand ∈ operands, op.unchecked operand.2 = false →
      c.InRange [] offset operand) : Decodes c offset op (c.instruction offset count valid) := by
  refine .require fun hbytes => .whole ?_ ?_ ?_
  · rwa [hformat]
  · rw [hformat]
  · rwa [hformat]

lemma Decodes.jumpInstruction {count position operands}
    (hformat : c.formatAt offset op = ⟨count, operands⟩)
    (hvalid : valid = true → ∀ operand ∈ operands, op.unchecked operand.2 = false →
      c.InRange [c.readOperand position] offset operand) :
    Decodes c offset op (c.jumpInstruction offset count position valid) := by
  refine .require fun hbytes => ?_
  split
  case isTrue =>
    refine .whole (by rwa [hformat]) (by rw [hformat]) fun hfalse => ?_
    cases hfalse
  case isFalse => exact .whole (by rwa [hformat]) (by rw [hformat]) (by rwa [hformat])

lemma Decodes.nRegisters {n} (hformat : c.formatAt offset op = Format.registers n) :
    Decodes c offset op (c.nRegisters n offset) := by
  unfold DiamondChunk.nRegisters
  split
  case isTrue hbytes =>
    refine .whole (by rw [hformat]; exact (requireBytes_iff _ _ _).1 hbytes) (by rw [hformat]; rfl) ?_
    intro hvalid _ hmem _
    rw [hformat] at hmem
    obtain ⟨i, hi, rfl⟩ := mem_map.1 hmem
    exact (checkedRegister_iff _ _).1 (all_eq_true.1 hvalid i hi)
  case isFalse hbytes =>
    refine .cutOff (.inl ⟨n, hformat⟩) ?_ rfl
    rw [hformat]
    exact not_le.1 fun hend => hbytes ((requireBytes_iff _ _ _).2 hend)

lemma Decodes.registersAndConstant (hformat : c.formatAt offset op = Format.registersAndConstant) :
    Decodes c offset op (c.registersAndConstant offset) := by
  unfold DiamondChunk.registersAndConstant
  split
  case isTrue hbytes =>
    refine .whole (by rw [hformat]; exact (requireBytes_iff _ _ _).1 hbytes) (by rw [hformat]; rfl) ?_
    rw [hformat]
    simp +contextual [Format.registersAndConstant]
  case isFalse hbytes =>
    refine .cutOff (.inr hformat) ?_ rfl
    rw [hformat]
    exact not_le.1 fun hend => hbytes ((requireBytes_iff _ _ _).2 hend)

lemma disassembleLoads_decodes (h : c.disassembleLoads offset op = some d) :
    Decodes c offset op d := by
  unfold DiamondChunk.disassembleLoads at h
  split at h <;> cases h
  case h_5 => exact .nRegisters rfl
  all_goals exact .instruction rfl (by simp +contextual)

lemma disassembleArithmetic_decodes (h : c.disassembleArithmetic offset op = some d) :
    Decodes c offset op d := by
  unfold DiamondChunk.disassembleArithmetic at h
  split at h <;> cases h
  all_goals first
    | exact .nRegisters rfl
    | exact .registersAndConstant rfl

lemma Decodes.typed {count} {f : Format}
    (hformat : c.formatAt offset op = f.typed fun i => c.byte (offset + i))
    (hcount : count = f.length + 1 + 2 * c.byte (offset + f.length))
    (hvalid : valid = true → (∀ operand ∈ f.operands, op.unchecked operand.2 = false →
      c.InRange [] offset operand) ∧
      ∀ i < c.byte (offset + f.length), c.readOperand (offset + (f.length + 1) + 2 * i) <
        c.typeSetCount) : Decodes c offset op (c.instruction offset count valid) := by
  subst hcount
  refine .instruction hformat fun h => ?_
  rw [forall_mem_append, forall_typeSets]
  refine ⟨(hvalid h).1, fun i hi _ => ?_⟩
  have hset := (hvalid h).2 i hi
  rwa [Nat.add_assoc] at hset

open Bool

/-- The type sets of a typed instruction are checked after its other operands. -/
lemma Decodes.typedSets {count fixed} {f : Format}
    (hformat : c.formatAt offset op = f.typed fun i => c.byte (offset + i))
    (hcount : count = f.length + 1 + 2 * c.byte (offset + f.length))
    (hvalid : valid = (fixed && c.typeSetIndexes (offset + (f.length + 1))
      (c.byte (offset + f.length))))
    (hfixed : fixed = true → ∀ operand ∈ f.operands, op.unchecked operand.2 = false →
      c.InRange [] offset operand) :
    Decodes c offset op (c.instruction offset count valid) := by
  refine .typed hformat hcount fun h => ?_
  rw [hvalid, and_eq_true, typeSetIndexes_iff] at h
  exact ⟨hfixed h.1, h.2⟩

variable {typed : Bool}

/-- The keyword forms, of which one has type sets after the keywords. -/
lemma Decodes.optionallyTyped {f} (hformat : c.formatAt offset op =
      if typed then f.typed fun i => c.byte (offset + i) else f)
    (hvalid : valid = true → ∀ operand ∈ f.operands, op.unchecked operand.2 = false →
      c.InRange [] offset operand) :
    Decodes c offset op (c.require offset (f.length + if typed then 1 else 0)
      (if typed then c.typeTrailer offset f.length valid else ⟨offset + f.length, valid, []⟩)) := by
  refine .require fun hbytes => ?_
  cases typed with
  | false =>
    rw [if_neg Bool.false_ne_true] at hformat ⊢
    exact .whole (by rwa [hformat]) (by rw [hformat]) (by rwa [hformat])
  | true =>
    rw [if_pos rfl] at hformat ⊢
    unfold DiamondChunk.typeTrailer
    dsimp only
    split
    case isTrue => exact .truncated rfl rfl
    case isFalse =>
      exact .typedSets hformat rfl rfl hvalid

lemma keywordTrailer_inRange {targets} (h : c.keywordTrailer (offset + start) encoded = true) :
    ∀ operand ∈ Format.trailer start encoded, c.InRange targets offset operand := by
  simp only [DiamondChunk.keywordTrailer, DiamondChunk.keywords, and_eq_true, all_eq_true,
    mem_range, stringIndex_iff, checkedRegister_iff, or_eq_true, not_eq_true',
    Nat.add_assoc] at h
  obtain ⟨hkeywords, hblock⟩ := h
  rw [forall_trailer]
  refine ⟨hkeywords, fun hhas => hblock.resolve_left ?_⟩
  simp [hhas]

lemma keywordTrailer_append {fixed}
    (hvalid : valid = true → ∀ operand ∈ fixed, op.unchecked operand.2 = false →
      c.InRange [] offset operand) (h : (valid && c.keywordTrailer (offset + start) encoded) = true) :
    ∀ operand ∈ fixed ++ Format.trailer start encoded, op.unchecked operand.2 = false →
      c.InRange [] offset operand := by
  rw [and_eq_true] at h
  rw [forall_mem_append]
  exact ⟨hvalid h.1, fun operand hmem _ => keywordTrailer_inRange h.2 operand hmem⟩

/-- A case that rejects the count byte of its keyword trailer unless `ok`. -/
lemma Decodes.trailer {fixed} {ok : Prop} [Decidable ok] (hformat : c.formatAt offset op =
      ⟨start + Format.trailerLength encoded, fixed ++ Format.trailer start encoded⟩)
    (hvalid : valid = true → ∀ operand ∈ fixed, op.unchecked operand.2 = false →
      c.InRange [] offset operand) : Decodes c offset op (c.require offset start (
      if ok then c.instruction offset (start + Format.trailerLength encoded)
        (valid && c.keywordTrailer (offset + start) encoded) else c.truncated)) := by
  refine .require fun _ => ?_
  split
  case isTrue => exact .instruction hformat (keywordTrailer_append hvalid)
  case isFalse => exact .truncated rfl rfl

/-- A trailer that is followed by type sets in one of the two forms. -/
lemma Decodes.typedTrailer {fixed f} {ok : Prop} [Decidable ok]
    (hformat : c.formatAt offset op = if typed then f.typed fun i => c.byte (offset + i) else f)
    (hf : f = ⟨start + Format.trailerLength encoded, fixed ++ Format.trailer start encoded⟩)
    (hvalid : valid = true → ∀ operand ∈ fixed, op.unchecked operand.2 = false →
      c.InRange [] offset operand) :
    Decodes c offset op (c.require offset start (if ok then
      c.require offset (f.length + if typed then 1 else 0)
        (if typed then
          c.typeTrailer offset f.length (valid && c.keywordTrailer (offset + start) encoded)
        else ⟨offset + f.length, valid && c.keywordTrailer (offset + start) encoded, []⟩)
      else c.truncated)) := by
  subst hf
  refine .require fun _ => ?_
  split
  case isTrue => exact .optionallyTyped hformat (keywordTrailer_append hvalid)
  case isFalse => exact .truncated rfl rfl

lemma keywordSpread_decodes (hformat : c.formatAt offset op =
      if typed then (DiamondOpCode.format.keywordSpread fun i => c.byte (offset + i)).typed
        fun i => c.byte (offset + i)
      else DiamondOpCode.format.keywordSpread fun i => c.byte (offset + i)) :
    Decodes c offset op (c.keywordSpread offset typed) := by
  refine .require fun _ => ?_
  dsimp only
  split
  case isTrue => exact .truncated rfl rfl
  case isFalse =>
    refine .optionallyTyped hformat fun hvalid => ?_
    simp_all [DiamondOpCode.format.keywordSpread]

lemma disassembleCalls_decodes (h : c.disassembleCalls offset op = some d) :
    Decodes c offset op d := by
  unfold DiamondChunk.disassembleCalls at h
  split at h <;> cases h
  case h_3 =>
    refine .require fun _ => .typed rfl rfl fun hvalid => ?_
    simp only [and_eq_true] at hvalid
    obtain ⟨⟨hregisters, hsets⟩, hfunction⟩ := hvalid
    refine ⟨?_, typeSetIndexes_of_printed c _ _ hsets⟩
    simp_all
  all_goals exact .instruction rfl (by simp +contextual)

lemma disassembleSpreadCalls_decodes (h : c.disassembleSpreadCalls offset op = some d) :
    Decodes c offset op d := by
  unfold DiamondChunk.disassembleSpreadCalls at h
  split at h <;> cases h
  case h_2 => exact .require fun _ => .typedSets rfl rfl rfl (by simp +contextual)
  case h_3 | h_4 => exact keywordSpread_decodes rfl
  case h_6 => exact .trailer rfl (by simp +contextual)
  all_goals exact .instruction rfl (by simp +contextual)

lemma disassembleSpreadInvokes_decodes (h : c.disassembleSpreadInvokes offset op = some d) :
    Decodes c offset op d := by
  unfold DiamondChunk.disassembleSpreadInvokes at h
  split at h <;> cases h
  case h_1 => exact .instruction rfl (by simp +contextual)
  case h_2 | h_3 => exact .typedTrailer rfl rfl (by simp +contextual)
  case h_4 => exact .require fun _ => .typedSets rfl rfl rfl (by simp +contextual)

lemma disassembleSpreadConstructors_decodes
    (h : c.disassembleSpreadConstructors offset op = some d) : Decodes c offset op d := by
  unfold DiamondChunk.disassembleSpreadConstructors at h
  split at h <;> cases h
  case h_2 | h_3 => exact .trailer rfl (by simp +contextual)
  case h_5 => exact .require fun _ => .typedSets rfl rfl rfl (by simp +contextual)
  case h_6 | h_7 => exact .typedTrailer rfl rfl (by simp +contextual)
  all_goals exact .instruction rfl (by simp +contextual)

lemma disassembleClosuresAndClasses_decodes
    (h : c.disassembleClosuresAndClasses offset op = some d) : Decodes c offset op d := by
  unfold DiamondChunk.disassembleClosuresAndClasses at h
  split at h <;> cases h
  case h_7 => exact .require fun _ => .instruction rfl (by simp +contextual)
  all_goals first
    | exact .nRegisters rfl
    | exact .instruction rfl (by simp +contextual)

lemma disassembleIoAndConversions_decodes
    (h : c.disassembleIoAndConversions offset op = some d) : Decodes c offset op d := by
  unfold DiamondChunk.disassembleIoAndConversions at h
  split at h <;> cases h
  all_goals first
    | exact .nRegisters rfl
    | exact .instruction rfl (by simp +contextual)

lemma disassembleInvokesAndVariables_decodes
    (h : c.disassembleInvokesAndVariables offset op = some d) : Decodes c offset op d := by
  unfold DiamondChunk.disassembleInvokesAndVariables at h
  split at h <;> cases h
  case h_3 =>
    refine .require fun _ => .typed rfl rfl fun hvalid => ?_
    simp only [and_eq_true] at hvalid
    obtain ⟨hfixed, hsets⟩ := hvalid
    refine ⟨?_, typeSetIndexes_of_printed c _ _ hsets⟩
    simp_all
  all_goals exact .instruction rfl (by simp +contextual)

lemma disassembleJumps_decodes (h : c.disassembleJumps offset op = some d) :
    Decodes c offset op d := by
  unfold DiamondChunk.disassembleJumps at h
  split at h <;> cases h
  all_goals exact .jumpInstruction rfl (by simp +contextual)

lemma locals_decodes (hformat : c.formatAt offset op = ⟨start + 4 * c.byte (offset + 3),
      (1, .register) :: Format.named start (c.byte (offset + 3))⟩)
    (hunchecked : op.unchecked .string = true) : Decodes c offset op (c.locals offset start) := by
  refine .require fun _ => .instruction hformat ?_
  rw [forall_mem_cons, forall_named]
  simp +contextual [hunchecked, -DiamondOpCode.unchecked]

lemma disassembleNativesAndDebugging_decodes
    (h : c.disassembleNativesAndDebugging offset op = some d) : Decodes c offset op d := by
  unfold DiamondChunk.disassembleNativesAndDebugging at h
  split at h <;> cases h
  case h_1 | h_2 => exact .instruction rfl (by simp +contextual)
  case h_42 | h_43 => exact locals_decodes rfl rfl
  all_goals exact .nRegisters rfl

lemma disassemblePatternsAndTypes_decodes
    (h : c.disassemblePatternsAndTypes offset op = some d) : Decodes c offset op d := by
  unfold DiamondChunk.disassemblePatternsAndTypes at h
  split at h <;> cases h
  case h_18 =>
    refine .instruction rfl fun hvalid => ?_
    rw [and_eq_true, checkedRegister_iff] at hvalid
    have hset := typeSetIndex_of_printTypeSet _ _ hvalid.2
    exact forall_mem_cons.2 ⟨fun _ => hvalid.1, forall_mem_singleton.2 fun _ => hset⟩
  case h_19 =>
    refine .instruction rfl fun hvalid => ?_
    simp only [and_eq_true, or_eq_true, beq_iff_eq, checkedRegister_iff] at hvalid
    obtain ⟨⟨hvalue, hset⟩, hreceiver⟩ := hvalid
    have hset := hset.imp_right (typeSetIndex_of_printTypeSet _ _)
    exact forall_mem_cons.2 ⟨fun _ => hvalue, forall_mem_cons.2
      ⟨fun _ => hset, forall_mem_singleton.2 fun _ => hreceiver⟩⟩
  case h_21 | h_22 =>
    refine .instruction rfl fun hvalid => ?_
    rw [and_eq_true, checkedRegister_iff, checkedRegisterRange_iff] at hvalid
    exact forall_mem_cons.2 ⟨fun _ => hvalid.1, forall_mem_singleton.2 fun _ => hvalid.2⟩
  all_goals first
    | exact .nRegisters rfl
    | exact .instruction rfl (by simp +contextual)

lemma disassembleExceptionFlow_decodes (hoffset : offset < c.codeCount)
    (h : c.disassembleExceptionFlow offset op = some d) : Decodes c offset op d := by
  unfold DiamondChunk.disassembleExceptionFlow at h
  split at h <;> cases h
  case h_2 | h_3 => exact .whole hoffset rfl fun _ _ hmem => absurd hmem not_mem_nil
  all_goals exact .jumpInstruction rfl (by simp +contextual)

lemma disassembleInstruction_decodes (hoffset : offset < c.codeCount)
    (h : c.disassembleInstruction offset op = some d) : Decodes c offset op d := by
  simp only [DiamondChunk.disassembleInstruction, Option.orElse_eq_orElse, Option.orElse_eq_or,
    Option.or_eq_some_iff] at h
  rcases h with h | ⟨-, h | ⟨-, h | ⟨-, h | ⟨-, h | ⟨-, h | ⟨-, h | ⟨-, h | ⟨-, h | ⟨-, h | ⟨-, h |
    ⟨-, h | ⟨-, h⟩⟩⟩⟩⟩⟩⟩⟩⟩⟩⟩⟩
  · exact disassembleLoads_decodes h
  · exact disassembleArithmetic_decodes h
  · exact disassembleCalls_decodes h
  · exact disassembleSpreadCalls_decodes h
  · exact disassembleSpreadInvokes_decodes h
  · exact disassembleSpreadConstructors_decodes h
  · exact disassembleInvokesAndVariables_decodes h
  · exact disassembleJumps_decodes h
  · exact disassembleClosuresAndClasses_decodes h
  · exact disassembleIoAndConversions_decodes h
  · exact disassembleNativesAndDebugging_decodes h
  · exact disassemblePatternsAndTypes_decodes h
  · exact disassembleExceptionFlow_decodes hoffset h

/-! ## The walk -/

lemma format_length_pos (byte : ℕ → ℕ) (op : DiamondOpCode) : 0 < (op.format byte).length := by
  cases op <;> first
    | exact Nat.succ_pos _
    | exact Nat.lt_add_right _ (Nat.succ_pos _)

lemma Decodes.advances (h : Decodes c offset op d) (hoffset : offset < c.codeCount) :
    offset < d.next := by
  cases h with
  | truncated hnext | cutOff _ _ hnext => rwa [hnext]
  | whole _ hnext =>
    rw [hnext]
    exact Nat.lt_add_of_pos_right (format_length_pos _ op)

lemma opcode_lt (h : c.opcode offset = some op) : offset < c.codeCount := by
  unfold DiamondChunk.opcode at h
  split at h
  case isTrue hoffset => exact hoffset
  case isFalse => cases h

/-- One turn of the loop: an opcode that no group has, or an instruction that is decoded. -/
lemma walkStep_cases (w : DisassemblyWalk) (hoffset : w.offset < c.codeCount) :
    ((c.walkStep w).valid = false ∧ (c.walkStep w).offset = w.offset + 1) ∨
    ∃ op d, c.opcode w.offset = some op ∧ Decodes c w.offset op d ∧
      c.walkStep w = ⟨d.next, w.valid && d.valid, w.pendingTargets ++ d.targets,
        w.starts ++ [w.offset]⟩ := by
  unfold DiamondChunk.walkStep
  split
  case h_1 d hd =>
    obtain ⟨op, hop, hd⟩ := Option.bind_eq_some_iff.1 hd
    exact .inr ⟨op, d, hop, disassembleInstruction_decodes hoffset hd, rfl⟩
  case h_2 => exact .inl ⟨rfl, rfl⟩

lemma walkStep_advances (w : DisassemblyWalk) (hoffset : w.offset < c.codeCount) :
    w.offset < (c.walkStep w).offset := by
  rcases walkStep_cases w hoffset with ⟨-, hnext⟩ | ⟨_, d, -, hd, hstep⟩
  · rw [hnext]
    exact Nat.lt_succ_self _
  · rw [hstep]
    exact hd.advances hoffset

lemma walkLoop_ends {turns} (h : c.codeCount ≤ w.offset + turns) :
    c.codeCount ≤ (c.walkLoop turns w).offset := by
  induction turns generalizing w with
  | zero => exact h
  | succ _ ih =>
    unfold DiamondChunk.walkLoop
    split
    case isTrue hoffset =>
      apply ih
      have := walkStep_advances w hoffset
      omega
    case isFalse hoffset => exact not_lt.1 hoffset

/-- Both gaps of the verifier are harmless for the chunk: no instruction that a register helper
decodes is cut off by the end of the code, and the operands that are not checked are in range. -/
structure Spared (c : DiamondChunk) : Prop where
  notCutOff : ∀ starts offset op, c.Splits starts offset → c.opcode offset = some op →
    (c.formatAt offset op).Short → offset + (c.formatAt offset op).length ≤ c.codeCount
  unchecked : ∀ starts offset op, c.Splits starts offset → c.opcode offset = some op →
    ∀ operand ∈ (c.formatAt offset op).operands, op.unchecked operand.2 = true →
      c.InRange [] offset operand

lemma inRange_mono {targets operand} (h : c.InRange targets offset operand)
    (htargets : ∀ target ∈ targets, target ∈ starts ∨ target = c.codeCount) :
    c.InRange starts offset operand := by
  obtain ⟨_, role⟩ := operand
  cases role with
  | target =>
    rcases h with hmem | hend
    · exact htargets _ hmem
    · exact .inr hend
  | _ => exact h

/-- The invariant of a walk that has found nothing wrong so far. -/
structure Walked (c : DiamondChunk) (w : DisassemblyWalk) : Prop where
  splits : c.Splits w.starts w.offset
  checked : ∀ offset ∈ w.starts, ∀ op, c.opcode offset = some op →
    ∀ operand ∈ (c.formatAt offset op).operands, c.InRange w.pendingTargets offset operand

lemma Walked.step (hc : Spared c) (h : Walked c w) (hoffset : w.offset < c.codeCount)
    (hvalid : (c.walkStep w).valid = true) : Walked c (c.walkStep w) := by
  rcases walkStep_cases w hoffset with ⟨hfalse, -⟩ | ⟨op, d, hop, hd, hstep⟩
  · rw [hvalid] at hfalse
    cases hfalse
  rw [hstep] at hvalid ⊢
  have hdvalid : d.valid = true := (and_eq_true_iff.1 hvalid).2
  cases hd with
  | truncated _ hfalse =>
    rw [hdvalid] at hfalse
    cases hfalse
  | cutOff hshort hend =>
    exact absurd (hc.notCutOff _ _ _ h.splits hop hshort) (not_le.2 hend)
  | whole hend hnext hchecked =>
    refine ⟨?_, ?_⟩
    · rw [hnext]
      exact h.splits.next hop hend
    · intro offset hmem op' hop' operand hoperand
      rcases mem_append.1 hmem with hold | hnew
      · exact inRange_mono (h.checked offset hold op' hop' operand hoperand)
          fun _ ht => .inl (mem_append_left _ ht)
      · cases mem_singleton.1 hnew
        obtain rfl : op = op' := Option.some.inj (hop.symm.trans hop')
        cases hunchecked : op.unchecked operand.2 with
        | true =>
          exact inRange_mono (hc.unchecked _ _ _ h.splits hop operand hoperand hunchecked)
            fun _ ht => absurd ht not_mem_nil
        | false =>
          exact inRange_mono (hchecked hdvalid operand hoperand hunchecked)
            fun _ ht => .inl (mem_append_right _ ht)

lemma walkStep_valid (w : DisassemblyWalk) (h : (c.walkStep w).valid = true) : w.valid = true := by
  unfold DiamondChunk.walkStep at h
  split at h
  · exact (and_eq_true_iff.1 h).1
  · cases h

/-- The walk keeps its invariant for as long as it finds nothing wrong. -/
lemma Walked.loop (hc : Spared c) {turns} (h : w.valid = true → Walked c w)
    (hvalid : (c.walkLoop turns w).valid = true) : Walked c (c.walkLoop turns w) := by
  induction turns generalizing w with
  | zero => exact h hvalid
  | succ _ ih =>
    unfold DiamondChunk.walkLoop at hvalid ⊢
    split
    case isTrue hoffset =>
      rw [if_pos hoffset] at hvalid
      exact ih (fun hstep => (h (walkStep_valid w hstep)).step hc hoffset hstep) hvalid
    case isFalse hoffset =>
      rw [if_neg hoffset] at hvalid
      exact h hvalid

variable {stop : ℕ}

lemma DiamondChunk.Splits.le (h : c.Splits starts stop) : stop ≤ c.codeCount := by
  cases h with
  | nothing => exact Nat.zero_le _
  | next _ _ hend => exact hend

lemma wellFormed_of_spared (hc : Spared c) (h : c.disassembleChunk = true) : c.WellFormed := by
  rw [DiamondChunk.disassembleChunk, and_eq_true, all_eq_true] at h
  obtain ⟨hvalid, htargets⟩ := h
  have hwalked : Walked c c.walk :=
    Walked.loop hc (fun _ => ⟨.nothing, fun _ hmem => absurd hmem not_mem_nil⟩) hvalid
  have hend : c.walk.offset = c.codeCount :=
    le_antisymm (hwalked.splits.le) (walkLoop_ends (Nat.le_add_left _ _))
  refine ⟨c.walk.starts, hend ▸ hwalked.splits, fun offset hmem op hop operand hoperand => ?_⟩
  apply inRange_mono (hwalked.checked offset hmem op hop operand hoperand)
  intro target ht
  have := htargets target ht
  rw [or_eq_true, beq_iff_eq, contains_iff_mem] at this
  exact this.symm

/-! ## The instruction starts are determined by the code -/

def instructionStart (c : DiamondChunk) : ℕ → ℕ
  | 0 => 0
  | k + 1 =>
    match c.opcode (instructionStart c k) with
    | some op => instructionStart c k + (c.formatAt (instructionStart c k) op).length
    | none => instructionStart c k + 1

lemma instructionStart_strictMono : StrictMono (instructionStart c) := by
  apply strictMono_nat_of_lt_succ
  intro k
  rw [instructionStart]
  split
  · exact Nat.lt_add_of_pos_right (format_length_pos _ _)
  · exact Nat.lt_succ_self _

lemma DiamondChunk.Splits.eq_instructionStart (h : c.Splits starts stop) :
    ∃ k, stop = instructionStart c k ∧ starts = (List.range k).map (instructionStart c) := by
  induction h with
  | nothing => exact ⟨0, rfl, rfl⟩
  | next _ hop _ ih =>
    obtain ⟨k, rfl, rfl⟩ := ih
    refine ⟨k + 1, ?_, ?_⟩
    · rw [instructionStart, hop]
    · rw [range_succ, map_append, map_singleton]

lemma DiamondChunk.Splits.mem_of_lt {starts'} (h : c.Splits starts stop)
    (h' : c.Splits starts' offset) (hlt : offset < stop) : offset ∈ starts := by
  obtain ⟨k, rfl, rfl⟩ := h.eq_instructionStart
  obtain ⟨_, rfl, -⟩ := h'.eq_instructionStart
  exact mem_map_of_mem (mem_range.2 (instructionStart_strictMono.lt_iff_lt.1 hlt))

lemma DiamondChunk.Splits.end_le (h : c.Splits starts stop) (hmem : offset ∈ starts)
    (hop : c.opcode offset = some op) : offset + (c.formatAt offset op).length ≤ stop := by
  obtain ⟨k, rfl, rfl⟩ := h.eq_instructionStart
  obtain ⟨i, hi, rfl⟩ := mem_map.1 hmem
  have hnext : instructionStart c (i + 1) ≤ instructionStart c k :=
    instructionStart_strictMono.monotone (mem_range.1 hi)
  rwa [instructionStart, hop] at hnext

lemma Spared.of_wellFormed (h : c.WellFormed) : Spared c := by
  obtain ⟨_, hsplits, hrange⟩ := h
  refine ⟨fun _ offset op hs hop _ => ?_, fun _ offset op hs hop operand hoperand hu => ?_⟩
  · exact hsplits.end_le (hsplits.mem_of_lt hs (opcode_lt hop)) hop
  have hin := hrange offset (hsplits.mem_of_lt hs (opcode_lt hop)) op hop operand hoperand
  obtain ⟨_, role⟩ := operand
  cases role with
  | target => cases op <;> cases hu
  | _ => exact hin

/-- A chunk that `diamond_verify_bytecode` accepts is well formed, and so are the chunks of its
functions, exactly when in each of them no instruction made of registers (or of registers and a
constant) is cut off by the end of the code, and the function of every `CLOSURE`, the argument
registers of every `INVOKE_SELF_METHOD`, the registers of every `COLLECT_VARIADIC` and the names of
every `GET_IVAR_NAME`, `SET_IVAR_NAME`, `DEBUGGER` and `BREAKPOINT_CHECK` are in range. -/
theorem verified_wellFormed_iff (c : DiamondChunk) (h : diamondVerifyBytecode c = true) :
    (c.WellFormed ∧ ∀ f ∈ c.functions, (c.functionChunk f).WellFormed) ↔
      (Spared c ∧ ∀ f ∈ c.functions, Spared (c.functionChunk f)) := by
  rw [diamondVerifyBytecode, and_eq_true, List.all_eq_true] at h
  constructor
  · rintro ⟨hc, hf⟩
    exact ⟨.of_wellFormed hc, fun f hmem => .of_wellFormed (hf f hmem)⟩
  · rintro ⟨hc, hf⟩
    exact ⟨wellFormed_of_spared hc h.1, fun f hmem => wellFormed_of_spared (hf f hmem) (h.2 f hmem)⟩

/-- A chunk of one register with the given code and no tables. -/
def plainChunk (code : List UInt8) : DiamondChunk := ⟨code, 0, 0, [], [], [], 0, 1⟩

/-- `JUMP -> 3; NIL r0` is accepted and well formed, hence spared. -/
theorem verified_wellFormed_iff_jump :
    diamondVerifyBytecode (plainChunk [27, 0, 3, 3, 0, 0]) = true ∧
      Spared (plainChunk [27, 0, 3, 3, 0, 0]) := by
  have haccepted : diamondVerifyBytecode (plainChunk [27, 0, 3, 3, 0, 0]) = true := by decide
  refine ⟨haccepted, ((verified_wellFormed_iff _ haccepted).1 ⟨⟨[0, 3], ?_, ?_⟩, ?_⟩).1⟩
  · have hjump : (plainChunk [27, 0, 3, 3, 0, 0]).opcode 0 = some .jump := rfl
    have hnil : (plainChunk [27, 0, 3, 3, 0, 0]).opcode 3 = some .nil := rfl
    exact .next (.next .nothing hjump (by decide)) hnil (by decide)
  · intro _ hmem op hop operand hoperand
    rcases List.mem_pair.1 hmem with rfl | rfl
    · obtain rfl : DiamondOpCode.jump = op := Option.some.inj hop
      cases List.mem_singleton.1 hoperand
      exact .inl (by decide)
    · obtain rfl : DiamondOpCode.nil = op := Option.some.inj hop
      cases List.mem_singleton.1 hoperand
      exact (by decide : (0 : ℕ) < 1)
  · exact fun f hmem => absurd hmem List.not_mem_nil

/-- The verifier accepts a `NIL` without its operand, and a `CLOSURE` of a function that does not
exist. -/
theorem verifier_gaps :
    (diamondVerifyBytecode (plainChunk [3]) = true ∧ ¬(plainChunk [3]).WellFormed) ∧
    (diamondVerifyBytecode (plainChunk [31, 0, 0, 0, 9, 0]) = true ∧
      ¬(plainChunk [31, 0, 0, 0, 9, 0]).WellFormed) := by
  refine ⟨⟨by decide, fun h => ?_⟩, ⟨by decide, fun h => ?_⟩⟩
  · have hend := (Spared.of_wellFormed h).notCutOff [] 0 .nil .nothing rfl (.inl ⟨1, rfl⟩)
    exact absurd hend (by decide)
  · have hrange := (Spared.of_wellFormed h).unchecked [] 0 .closure .nothing rfl (3, .function)
      (by decide) rfl
    exact absurd hrange (Nat.not_lt_zero _)

end Diamond.Bytecode
