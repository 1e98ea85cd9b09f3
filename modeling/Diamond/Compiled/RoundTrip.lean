import Mathlib.Data.List.Forall2
import Diamond.Compiled.Serialize

/-!
# Reading back a compiled program

The reader inverts the writer on every record but for what the writer leaves out: a class is read
back unsealed and, like a module, without the list of the modules it includes.
-/

namespace Diamond.Compiled
open Codec List Nat DiamondFunction

variable {b : Build}

/-! ## Images -/

variable (bytes : Bytes)

/-- A literal ends within the bytes, and keeps at least what it had before the last seven zeros. -/
lemma literalLoop_spec (literal trailing : ℕ) (h : trailing < 8) :
    ∃ literal' trailing', literalLoop bytes literal trailing = (literal', trailing') ∧
      literal ≤ literal' ∧ literal' ≤ literal + bytes.length ∧
      (8 ≤ trailing' → literal + 7 ≤ literal' + trailing) := by
  induction bytes generalizing literal trailing with
  | nil => exact ⟨literal, trailing, rfl, le_rfl, le_add_right _ _, by omega⟩
  | cons _ _ ih =>
    rw [literalLoop, length_cons]
    split_ifs with hx ht
    · exact ⟨literal, trailing + 1, rfl, le_rfl, le_add_right _ _, by omega⟩
    · obtain ⟨l, t, heq, hle, hlen, hend⟩ := ih (literal + 1) (trailing + 1) (by omega)
      exact ⟨l, t, heq, by omega, by omega, by omega⟩
    · obtain ⟨l, t, heq, hle, hlen, hend⟩ := ih (literal + 1) 0 (by omega)
      exact ⟨l, t, heq, by omega, by omega, by omega⟩

lemma literalLength_le : literalLength bytes ≤ bytes.length := by
  obtain ⟨l, t, heq, -, hlen, -⟩ := literalLoop_spec bytes 0 0 (by decide)
  rw [literalLength, heq]
  exact (sub_le _ _).trans (by omega)

lemma literalLength_pos {x} (hx : x ≠ 0) (xs : Bytes) : 0 < literalLength (x :: xs) := by
  obtain ⟨l, t, heq, hle, -, hend⟩ := literalLoop_spec xs 1 0 (by decide)
  rw [literalLength, literalLoop, if_neg hx, heq]
  show 0 < l - if t < 8 then 0 else 7
  split_ifs with ht
  · omega
  · have := hend (not_lt.1 ht)
    omega

lemma replicate_append_drop_zeros : List.replicate (bytes.takeWhile (· == 0)).length 0 ++
      bytes.drop (bytes.takeWhile (· == 0)).length = bytes := by
  induction bytes with
  | nil => rfl
  | cons x _ ih =>
    by_cases hx : x = 0
    · rw [takeWhile_cons_of_pos (by simpa using hx), length_cons, replicate_succ,
        drop_succ_cons, cons_append, ih, hx]
    · rw [takeWhile_cons_of_neg (by simpa using hx)]
      rfl

lemma record_pos {bytes} (h : bytes ≠ []) : 0 < (bytes.takeWhile (· == 0)).length +
      literalLength (bytes.drop (bytes.takeWhile (· == 0)).length) := by
  cases bytes with
  | nil => exact absurd rfl h
  | cons x xs =>
    by_cases hx : x = 0
    · rw [takeWhile_cons_of_pos (by simpa using hx)]
      exact Nat.add_pos_left (Nat.succ_pos _) _
    · rw [takeWhile_cons_of_neg (by simpa using hx)]
      exact Nat.add_pos_right _ (literalLength_pos hx xs)

lemma reads_records (fuel : ℕ) (bytes : Bytes) (hfuel : bytes.length ≤ fuel)
    (hlt : bytes.length < 2 ^ 32) :
    Reads (readRecords fuel bytes.length) (writeRecords fuel bytes) bytes := by
  induction fuel generalizing bytes with
  | zero =>
    obtain rfl := eq_nil_of_length_eq_zero (le_zero.1 hfuel)
    exact Reads.pure []
  | succ fuel ih =>
    cases bytes with
    | nil => exact Reads.pure []
    | cons x xs =>
      have hpos := record_pos (cons_ne_nil x xs)
      have hsplit := replicate_append_drop_zeros (x :: xs)
      rw [writeRecords, append_assoc, append_assoc]
      · generalize ((x :: xs).takeWhile (· == 0)).length = zeros at hpos hsplit ⊢
        generalize (x :: xs).drop zeros = live at hpos hsplit ⊢
        have hlength := congrArg List.length hsplit
        rw [length_append, length_replicate] at hlength
        have hliteral := literalLength_le live
        generalize literalLength live = literal at hpos hliteral ⊢
        have hrest : (live.drop literal).length = (x :: xs).length - zeros - literal := by
          rw [length_drop]
          omega
        have hfuel' : (live.drop literal).length ≤ fuel := by omega
        have hlt' : (live.drop literal).length < 2 ^ 32 := by omega
        -- the record's header, its literal, and the records after it
        apply Reads.bind (.word (n := zeros) (by omega))
        apply Reads.bind (.word (n := literal) (by omega))
        apply Reads.require ⟨by omega, by omega⟩
        apply Reads.bind (.take (length_take_of_le hliteral))
        apply Reads.require (by omega)
        rw [← append_nil (writeRecords _ _)]
        have hrec := ih _ hfuel' hlt'
        rw [hrest] at hrec
        apply Reads.bind hrec
        rw [take_append_drop, hsplit]
        exact Reads.pure _
      · exact cons_ne_nil x xs

/-! ## Functions -/

lemma clear_clear (mask mask' : ℕ → Bool) (bytes : Bytes) :
    clear mask (clear mask' bytes) = clear (fun i => mask' i || mask i) bytes := by
  apply ext_getElem?
  intro i
  simp only [clear, getElem?_mapIdx, Option.map_map]
  congr 1
  funext x
  by_cases h : mask' i = true
  all_goals simp [h]

lemma clear_mono {mask mask' bytes bytes'} (hmask : ∀ i, mask i = true → mask' i = true)
    (h : clear mask bytes = clear mask bytes') : clear mask' bytes = clear mask' bytes' := by
  have hor : (fun i => mask i || mask' i) = mask' := by
    funext i
    cases hi : mask i with
    | false => rfl
    | true => exact (hmask i hi).symm
  rw [← hor, ← clear_clear, ← clear_clear, h]

lemma get_clear {field : Field} {mask : ℕ → Bool} (bytes : Bytes)
    (h : ∀ i, field.offset ≤ i → i < field.offset + field.width → mask i = false) :
    field.get (clear mask bytes) = field.get bytes := by
  rw [Field.get, Field.get]
  congr 1
  apply ext_getElem?
  intro i
  rw [getElem?_take, getElem?_take]
  split_ifs with hi
  · rw [getElem?_drop, getElem?_drop, clear, getElem?_mapIdx,
      h _ (Nat.le_add_right _ _) (Nat.add_lt_add_left hi _)]
    exact congrFun Option.map_id _
  · rfl

lemma reads_string {s} (h : s.length ≤ maxStringLength) : Reads readString (writeString s) s := by
  have hlt : s.length < 256 ^ 8 := h.trans_lt (by decide)
  apply Reads.bind (.word hlt)
  apply Reads.require h
  exact .take rfl

lemma length_strings (strings : List Bytes) :
    strings.length * 8 ≤ (strings.flatMap writeString).length := by
  induction strings with
  | nil => exact le_rfl
  | cons =>
    rw [flatMap_cons, length_append, writeString, length_append, length_toBytes, length_cons]
    omega

/-- A function without what `write_function_image` leaves out. -/
def DiamondFunction.written (b : Build) (f : DiamondFunction) : DiamondFunction :=
  { f with bytes := clear b.unwritten f.bytes }

variable {f : DiamondFunction}

lemma DiamondFunction.Valid.written (hf : f.Valid b) : (f.written b).Valid b := by
  have hget : ∀ field ∈ [b.codeCount, b.constantCount, b.stringCount, b.typeSetCount,
      b.typeVariableCount, b.classTypeVariable, b.capturesTypeVariables, b.nested],
      field.get (f.written b).bytes = field.get f.bytes :=
    fun field hfield => get_clear f.bytes (b.fields_written field hfield)
  simp only [forall_mem_cons] at hget
  obtain ⟨hcode, hconstant, hstring, htypeSet, hvariable, hclass, hcaptures, hnested, -⟩ := hget
  refine ⟨(length_clear _ _).trans hf.bytes, ?_, ?_, ?_, ?_, ?_, hf.stringLength, ?_, ?_, ?_⟩
  · exact hcode ▸ hf.code
  · exact hcode ▸ hf.lines
  · exact hcode ▸ hf.columns
  · exact hconstant ▸ hf.constants
  · exact hstring ▸ hf.strings
  · exact htypeSet ▸ hf.typeSets
  · rw [hvariable, hclass]
    exact hf.typeVariables
  · rw [hvariable, hclass, hcaptures, hnested]
    exact hf.captures

lemma reads_function (hf : f.Valid b) :
    Reads (readFunction b) (writeFunction b f) (diamondFunctionCopy b (f.written b)) := by
  have hv := hf.written
  have himage : Reads (readRecords b.functionSize b.functionSize) (writeFunctionImage b f)
      (f.written b).bytes := by
    have hread := reads_records b.functionSize _ hv.bytes.le (hv.bytes.trans_lt b.functionSize_lt)
    rw [hv.bytes] at hread
    rw [writeFunctionImage, hf.bytes]
    exact hread
  have hstrings : Reads (many readString (b.stringCount.get (f.written b).bytes))
      (f.strings.flatMap writeString) f.strings :=
    Reads.all (fun s hs => reads_string (hf.stringLength s hs)) hv.strings
  have hcode : f.code.length = b.codeCount.get (f.written b).bytes := hv.code
  have hconstants : f.constants.length = b.constantCount.get (f.written b).bytes * b.valueSize :=
    hv.constants
  have htypeSets : f.typeSets.length = b.typeSetCount.get (f.written b).bytes * b.typeSetSize :=
    hv.typeSets
  apply Reads.bind himage
  apply Reads.require hv.typeVariables
  apply Reads.require hv.captures
  -- each count is that of an array still to come
  apply Reads.fits one_pos
  · simp only [flatten_cons, length_append]
    omega
  apply Reads.fits b.valueSize_pos
  · simp only [flatten_cons, length_append]
    omega
  apply Reads.fits b.typeSetSize_pos
  · simp only [flatten_cons, length_append]
    omega
  apply Reads.bind (.take hcode)
  apply Reads.bind (.take hv.lines)
  apply Reads.bind (.take hv.columns)
  apply Reads.bind (.take hconstants)
  apply Reads.fits (by decide)
  · rw [← hv.strings, flatten_cons, length_append]
    exact (length_strings f.strings).trans (le_add_right _ _)
  apply Reads.bind hstrings
  apply Reads.bind (.take htypeSets)
  exact Reads.pure _

/-! ## Classes, modules and interfaces -/

lemma reads_flag (flag : Bool) : Reads readFlag (writeFlag flag) flag := by
  rw [← append_nil (writeFlag flag)]
  apply Reads.bind (.word (n := flag.toNat) (flag.toNat_lt.trans (by decide)))
  apply Reads.require flag.toNat_le
  cases flag <;> exact .pure _

lemma reads_table {n count entries} (h : entries.length = count) :
    Reads (readTable n count) (writeTable entries) entries :=
  .all (fun x _ => .block x) h

lemma reads_when {n} (flag : Bool) (x : Block n) :
    Reads (readWhen flag n) (if flag then x.bytes else []) (if flag then x else Block.zero n) := by
  cases flag with
  | false => exact .pure _
  | true => exact .block x

lemma clearMethodPointers_plain {methods}
    (h : PlainMethods b methods) : clearMethodPointers methods = methods := by
  conv_rhs => rw [← map_id methods]
  exact map_congr_left fun m hm => Block.ext (h m hm)

/-- A class as it is read back: what the writer leaves out is zero. -/
def DiamondClass.restored (c : DiamondClass b) : DiamondClass b :=
  { c with
    parentTypeBindings := if c.transformsParentArguments then c.parentTypeBindings else Block.zero _
    fixedTypeBindings := if c.fixedTypeArguments then c.fixedTypeBindings else Block.zero _
    index := 0
    sealed := false
    includedModules := [] }

def DiamondModule.restored (m : DiamondModule b) : DiamondModule b :=
  { m with includedModules := [] }

lemma reads_class {c : DiamondClass b} (hc : c.Valid) :
    Reads readClass (writeClass c) c.restored := by
  obtain ⟨hparameter, hsecond, hparameters, hfixed, ⟨hmethods, hplain⟩, ⟨hsingletons, hplain'⟩,
    hfields, hstatus, hknown, hvariables⟩ := hc
  apply Reads.bind (.block c.name)
  apply Reads.bind (.block c.typeParameter)
  apply Reads.require hparameter
  apply Reads.bind (.block c.secondTypeParameter)
  apply Reads.require hsecond
  apply Reads.require hparameters
  apply Reads.bind (reads_flag c.generatedStruct)
  apply Reads.bind (reads_flag c.fixedTypeArguments)
  apply Reads.bind (reads_flag c.swapsParentArguments)
  apply Reads.bind (reads_flag c.transformsParentArguments)
  apply Reads.bind (reads_when c.transformsParentArguments c.parentTypeBindings)
  apply Reads.bind (reads_when c.fixedTypeArguments c.fixedTypeBindings)
  apply Reads.require hfixed
  apply Reads.bind (.block c.declarationLine)
  apply Reads.bind (.block c.declarationColumn)
  apply Reads.bind (.block c.declarationStart)
  apply Reads.bind (.block c.superclass)
  apply Reads.bind (.word (hmethods.trans_lt (by decide)))
  apply Reads.bind (.word (hsingletons.trans_lt (by decide)))
  apply Reads.require ⟨hmethods, hsingletons⟩
  apply Reads.bind (reads_table rfl)
  apply Reads.bind (reads_table rfl)
  apply Reads.bind (.word (hfields.trans_lt (by decide)))
  apply Reads.require hfields
  apply Reads.bind (reads_table rfl)
  apply Reads.bind (reads_table hstatus)
  apply Reads.bind (reads_table hknown)
  apply Reads.bind (.word (hvariables.trans_lt (by decide)))
  apply Reads.require hvariables
  apply Reads.bind (reads_table rfl)
  apply Reads.bind (.block c.declaredByDiscovery)
  rw [clearMethodPointers_plain hplain, clearMethodPointers_plain hplain']
  exact Reads.pure _

lemma reads_module {m : DiamondModule b} (hm : m.Valid) :
    Reads readModule (writeModule m) m.restored := by
  obtain ⟨⟨hmethods, hplain⟩, ⟨hsingletons, hplain'⟩, hfields⟩ := hm
  apply Reads.bind (.block m.name)
  apply Reads.bind (.block m.declarationLine)
  apply Reads.bind (.block m.declarationColumn)
  apply Reads.bind (.block m.declarationStart)
  apply Reads.bind (.word (hmethods.trans_lt (by decide)))
  apply Reads.bind (.word (hsingletons.trans_lt (by decide)))
  apply Reads.require ⟨hmethods, hsingletons⟩
  apply Reads.bind (reads_table rfl)
  apply Reads.bind (reads_table rfl)
  apply Reads.bind (.block m.nextSingletonClaim)
  apply Reads.bind (.word (hfields.trans_lt (by decide)))
  apply Reads.require hfields
  apply Reads.bind (reads_table rfl)
  apply Reads.bind (.block m.declaredByDiscovery)
  rw [clearMethodPointers_plain hplain, clearMethodPointers_plain hplain']
  exact Reads.pure _

lemma reads_interface {i : DiamondInterface b} (hi : i.methods.length ≤ maxMethods) :
    Reads readInterface (writeInterface i) i := by
  apply Reads.bind (.block i.name)
  apply Reads.bind (.block i.declarationLine)
  apply Reads.bind (.block i.declarationColumn)
  apply Reads.bind (.block i.declarationStart)
  apply Reads.bind (.word (hi.trans_lt (by decide)))
  apply Reads.require hi
  apply Reads.bind (reads_table rfl)
  apply Reads.bind (.block i.declaredByDiscovery)
  exact Reads.pure _

/-! ## Programs -/

def sharedFunctions (template : Option (DiamondProgram b)) (skip : ℕ) : List DiamondFunction :=
  template.elim [] fun t => (t.functions.take skip).map (diamondFunctionCopy b)

def DiamondProgram.restored (p : DiamondProgram b) (template : Option (DiamondProgram b))
    (skip : ℕ) : DiamondProgram b :=
  { entry := diamondFunctionCopy b (p.entry.written b)
    functions := sharedFunctions template skip ++
      (p.functions.drop skip).map fun f => diamondFunctionCopy b (f.written b)
    classes := (p.classes.map DiamondClass.restored).mapIdx fun index c => { c with index }
    interfaces := p.interfaces
    modules := p.modules.map DiamondModule.restored
    namespaceConstants := p.namespaceConstants
    rangeClassIndex := p.rangeClassIndex }

variable {p : DiamondProgram b}

lemma reads_program (hp : p.Valid) (template : Option (DiamondProgram b)) {skip}
    (hskip : skip ≤ p.functions.length) :
    Reads (readProgramBody template skip) (writeProgramBody p skip) (p.restored template skip) := by
  have hcount : p.functions.length - skip ≤ maxFunctions := (sub_le _ _).trans hp.functionCount
  have hfunctions : Reads (many (readFunction b) (p.functions.length - skip))
      ((p.functions.drop skip).flatMap (writeFunction b))
      ((p.functions.drop skip).map fun f => diamondFunctionCopy b (f.written b)) := by
    rw [← length_drop]
    exact Reads.many fun f hf => reads_function (hp.functions f (mem_of_mem_drop hf))
  apply Reads.bind (reads_function hp.entry)
  apply Reads.bind (.word (hcount.trans_lt (by decide)))
  apply Reads.require (by rw [Nat.add_sub_cancel' hskip]; exact hp.functionCount)
  apply Reads.bind hfunctions
  apply Reads.bind (.word (hp.classCount.trans_lt (by decide)))
  apply Reads.bind (.word (hp.interfaceCount.trans_lt (by decide)))
  apply Reads.bind (.word (hp.moduleCount.trans_lt (by decide)))
  apply Reads.bind (.word (hp.namespaceConstants.trans_lt (by decide)))
  apply Reads.require ⟨hp.classCount, hp.interfaceCount, hp.moduleCount, hp.namespaceConstants⟩
  apply Reads.bind (.many fun c hc => reads_class (hp.classes c hc))
  apply Reads.bind (.all (fun i hi => reads_interface (hp.interfaces i hi)) rfl)
  apply Reads.bind (.many fun m hm => reads_module (hp.modules m hm))
  apply Reads.bind (reads_table rfl)
  apply Reads.bind (.block p.rangeClassIndex)
  exact Reads.pure _

/-! ## Equality with the program that was written -/

lemma image_copy (f : DiamondFunction) : (diamondFunctionCopy b f).image b = f.image b := by
  rw [image, image, diamondFunctionCopy, clear_clear]
  congr 1
  funext i
  cases b.rebuilt i <;> cases b.unwritten i <;> rfl

lemma image_written (f : DiamondFunction) : (f.written b).image b = f.image b := by
  rw [image, image, written, clear_clear]
  congr 1
  funext i
  cases b.unwritten i <;> rfl

lemma same_copy_written (f : DiamondFunction) : (diamondFunctionCopy b (f.written b)).Same b f :=
  ⟨(image_copy _).trans (image_written f), rfl, rfl, rfl, rfl, rfl, rfl⟩

lemma same_copy_identical {g} (h : functionsIdentical b f g = true) :
    (diamondFunctionCopy b g).Same b f := by
  simp only [functionsIdentical, Bool.and_eq_true, beq_iff_eq] at h
  obtain ⟨⟨⟨⟨⟨⟨⟨-, hbytes⟩, hcode⟩, hlines⟩, hcolumns⟩, hconstants⟩, hstrings⟩, htypeSets⟩ := h
  refine ⟨(image_copy g).trans ?_, hcode.symm, hlines.symm, hcolumns.symm, hconstants.symm,
    hstrings.symm, htypeSets.symm⟩
  apply clear_mono _ hbytes.symm
  intro i hi
  exact Bool.or_eq_true_iff.2 (b.uncompared_transient i hi)

lemma same_shared {fs gs : List DiamondFunction} (hlength : gs.length ≤ fs.length)
    (h : ((fs.zip gs).all fun (f, g) => functionsIdentical b f g) = true) :
    List.Forall₂ (DiamondFunction.Same b) (gs.map (diamondFunctionCopy b)) (fs.take gs.length) := by
  induction gs generalizing fs with
  | nil => exact .nil
  | cons _ _ ih =>
    cases fs with
    | nil => exact absurd hlength (not_succ_le_zero _)
    | cons =>
      rw [zip_cons_cons, all_cons, Bool.and_eq_true] at h
      exact .cons (same_copy_identical h.1) (ih (le_of_succ_le_succ hlength) h.2)

lemma sharedPreludeFunctionCount_spec (p : DiamondProgram b)
    (template : Option (DiamondProgram b)) :
    sharedPreludeFunctionCount p template ≤ p.functions.length ∧
      List.Forall₂ (DiamondFunction.Same b)
        (sharedFunctions template (sharedPreludeFunctionCount p template))
        (p.functions.take (sharedPreludeFunctionCount p template)) := by
  have hnone : 0 ≤ p.functions.length ∧ List.Forall₂ (DiamondFunction.Same b)
      (sharedFunctions template 0) (p.functions.take 0) := by
    refine ⟨zero_le _, ?_⟩
    cases template <;> exact .nil
  cases template with
  | none => exact hnone
  | some template =>
    rw [sharedPreludeFunctionCount]
    split_ifs with hlength hidentical
    · exact hnone
    · rw [not_or, not_lt] at hlength
      refine ⟨hlength.2, ?_⟩
      show List.Forall₂ _ ((template.functions.take _).map _) _
      rw [take_length]
      exact same_shared hlength.2 hidentical
    · exact hnone

structure DiamondClass.Stored (c : DiamondClass b) : Prop where
  unsealed : c.sealed = false
  includedModules : c.includedModules = []
  parentTypeBindings : c.transformsParentArguments = false → c.parentTypeBindings = Block.zero _
  fixedTypeBindings : c.fixedTypeArguments = false → c.fixedTypeBindings = Block.zero _

structure DiamondProgram.Stored (p : DiamondProgram b) : Prop where
  classes : ∀ c ∈ p.classes, c.Stored
  modules : ∀ m ∈ p.modules, m.includedModules = []

lemma restored_eq_iff (c : DiamondClass b) :
    { c.restored with index := c.index } = c ↔ c.Stored := by
  constructor
  · intro h
    refine ⟨?_, ?_, fun hflag => ?_, fun hflag => ?_⟩
    · rw [← h]
      rfl
    · rw [← h]
      rfl
    · rw [← congrArg DiamondClass.parentTypeBindings h]
      exact if_neg (by rw [hflag]; decide)
    · rw [← congrArg DiamondClass.fixedTypeBindings h]
      exact if_neg (by rw [hflag]; decide)
  · rintro ⟨hsealed, hincluded, hparent, hfixed⟩
    have hparent' : (if c.transformsParentArguments then c.parentTypeBindings else .zero _) =
        c.parentTypeBindings := by
      split_ifs with hflag
      · rfl
      · exact (hparent (Bool.eq_false_of_not_eq_true hflag)).symm
    have hfixed' : (if c.fixedTypeArguments then c.fixedTypeBindings else .zero _) =
        c.fixedTypeBindings := by
      split_ifs with hflag
      · rfl
      · exact (hfixed (Bool.eq_false_of_not_eq_true hflag)).symm
    simp only [DiamondClass.restored, hparent', hfixed']
    rw [← hsealed, ← hincluded]

lemma map_eq_self_iff {α : Type} {f : α → α} {l : List α} : l.map f = l ↔ ∀ a ∈ l, f a = a := by
  conv_lhs => rhs; rw [← map_id l]
  exact map_inj_left

lemma restored_classes (hp : p.Valid) (template : Option (DiamondProgram b)) (skip : ℕ) :
    (p.restored template skip).classes =
      p.classes.map fun c => { c.restored with index := c.index } := by
  apply ext_getElem?
  intro i
  simp only [DiamondProgram.restored, getElem?_mapIdx, getElem?_map, Option.map_map]
  cases hc : p.classes[i]? with
  | none => rfl
  | some c =>
    rw [Option.map_some, Option.map_some, hp.classIndex i c hc]
    rfl

/-- What is read back is a program equal to the one written exactly when the file holds all of it.
-/
lemma restored_same_iff (hp : p.Valid) (template : Option (DiamondProgram b)) {skip}
    (hshared : List.Forall₂ (DiamondFunction.Same b) (sharedFunctions template skip)
      (p.functions.take skip)) : (p.restored template skip).Same p ↔ p.Stored := by
  have hfunctions : List.Forall₂ (DiamondFunction.Same b) (p.restored template skip).functions
      p.functions := by
    conv_rhs => rw [← take_append_drop skip p.functions]
    apply rel_append hshared
    rw [forall₂_map_left_iff, forall₂_same]
    exact fun f _ => same_copy_written f
  constructor
  · intro h
    have hclasses := h.classes
    rw [restored_classes hp, map_eq_self_iff] at hclasses
    refine ⟨fun c hc => (restored_eq_iff c).1 (hclasses c hc), fun m hm => ?_⟩
    rw [← map_eq_self_iff.1 h.modules m hm]
    rfl
  · intro h
    refine ⟨same_copy_written p.entry, hfunctions, ?_, rfl, ?_, rfl, rfl⟩
    · rw [restored_classes hp, map_eq_self_iff]
      exact fun c hc => (restored_eq_iff c).2 (h.classes c hc)
    · apply map_eq_self_iff.2
      intro m hm
      rw [DiamondModule.restored, ← h.modules m hm]

/-- A compiled program that is written, whole or without the functions it shares with the prelude,
is read back; and the program read is equal to it exactly when none of its classes is sealed, no
class or module lists modules it includes, and the type bindings a class does not declare are zero.
-/
theorem read_back_same_iff (p : DiamondProgram b) (hp : p.Valid)
    (template : Option (DiamondProgram b)) (skip : ℕ)
    (hskip : skip = 0 ∨ skip = sharedPreludeFunctionCount p template) :
    ∃ q, readProgramBody template skip (writeProgramBody p skip) = some (q, []) ∧
      (q.Same p ↔ p.Stored) := by
  have hshared : skip ≤ p.functions.length ∧ List.Forall₂ (DiamondFunction.Same b)
      (sharedFunctions template skip) (p.functions.take skip) := by
    rcases hskip with rfl | rfl
    · refine ⟨zero_le _, ?_⟩
      cases template <;> exact .nil
    · exact sharedPreludeFunctionCount_spec p template
  refine ⟨p.restored template skip, ?_, restored_same_iff hp template hshared.2⟩
  have hread := reads_program hp template hshared.1 []
  rwa [List.append_nil] at hread

/-! ## A program with one class -/

/-- A build with words of 8 bytes: each array of a function has a pointer, a count and a capacity, and
the flags stand behind them. -/
def wordBuild : Build where
  functionSize := 120
  valueSize := 16
  typeSetSize := 24
  bindingsSize := 8
  methodSize := 48
  interfaceMethodSize := 40
  codeCount := ⟨24, 8⟩
  constantCount := ⟨48, 8⟩
  stringCount := ⟨72, 8⟩
  typeSetCount := ⟨96, 8⟩
  typeVariableCount := ⟨112, 1⟩
  classTypeVariable := ⟨113, 1⟩
  capturesTypeVariables := ⟨114, 1⟩
  nested := ⟨115, 1⟩
  unwritten i := i < 24 || 32 ≤ i && i < 48 || 56 ≤ i && i < 72 || 80 ≤ i && i < 96 ||
    104 ≤ i && i < 112
  rebuilt i := i < 24 || 32 ≤ i && i < 48 || 56 ≤ i && i < 72 || 80 ≤ i && i < 96 ||
    104 ≤ i && i < 112
  uncompared i := i < 24 || 32 ≤ i && i < 48 || 56 ≤ i && i < 72 || 80 ≤ i && i < 96 ||
    104 ≤ i && i < 112
  methodPointers := fun _ => false
  functionSize_lt := by decide
  valueSize_pos := by decide
  typeSetSize_pos := by decide
  fields_written := by
    simp only [List.forall_mem_cons, Bool.or_eq_false_iff, Bool.and_eq_false_iff,
      decide_eq_false_iff_not]
    refine ⟨?_, ?_, ?_, ?_, ?_, ?_, ?_, ?_, nofun⟩ <;> (intros; omega)
  uncompared_transient := fun _ h => .inl h

/-- Three bytes of code, an Int constant and a String, with pointers and capacities as they happen to
be. -/
def wordFunction : DiamondFunction where
  bytes := List.replicate 24 77 ++ (3 :: List.replicate 7 0) ++ List.replicate 16 77 ++
    (1 :: List.replicate 7 0) ++ List.replicate 16 77 ++ (1 :: List.replicate 7 0) ++
    List.replicate 16 77 ++ List.replicate 8 0 ++ List.replicate 8 77 ++ List.replicate 8 0
  code := [3, 0, 0]
  lines := [1, 0, 0, 0, 1, 0, 0, 0, 1, 0, 0, 0]
  columns := [1, 0, 0, 0, 1, 0, 0, 0, 1, 0, 0, 0]
  constants := 2 :: List.replicate 7 0 ++ 7 :: List.replicate 7 0
  strings := [[104, 105]]
  typeSets := []

def shapeClass (sealed : Bool) : DiamondClass wordBuild where
  name := Block.zero _
  typeParameter := Block.zero _
  secondTypeParameter := Block.zero _
  generatedStruct := false
  fixedTypeArguments := false
  swapsParentArguments := false
  transformsParentArguments := false
  parentTypeBindings := Block.zero _
  fixedTypeBindings := Block.zero _
  index := 0
  declarationLine := Block.zero _
  declarationColumn := Block.zero _
  declarationStart := Block.zero _
  superclass := Block.zero _
  sealed := sealed
  includedModules := []
  methods := [Block.zero _]
  singletonMethods := []
  fields := []
  fieldTypeStatus := []
  fieldKnownClass := []
  classVariables := []
  declaredByDiscovery := Block.zero _

def shapeProgram (sealed : Bool) : DiamondProgram wordBuild where
  entry := wordFunction
  functions := [wordFunction]
  classes := [shapeClass sealed]
  interfaces := []
  modules := []
  namespaceConstants := []
  rangeClassIndex := Block.zero _

lemma wordFunction_valid : wordFunction.Valid wordBuild := by
  constructor <;> decide

lemma shapeClass_valid (sealed : Bool) : (shapeClass sealed).Valid := by
  refine ⟨?_, ?_, ?_, nofun, ⟨?_, ?_⟩, ⟨?_, nofun⟩, ?_, rfl, rfl, ?_⟩
  case refine_5 => exact forall_mem_singleton.2 rfl
  all_goals decide +revert

lemma shapeProgram_valid (sealed : Bool) : (shapeProgram sealed).Valid where
  entry := wordFunction_valid
  functions := forall_mem_singleton.2 wordFunction_valid
  functionCount := le_of_ble_eq_true rfl
  classes := forall_mem_singleton.2 (shapeClass_valid sealed)
  classIndex
    | 0, _, hc => by cases hc; rfl
  classCount := le_of_ble_eq_true rfl
  interfaces := nofun
  interfaceCount := zero_le _
  modules := nofun
  moduleCount := zero_le _
  namespaceConstants := zero_le _

/-- With a class that is not sealed the program comes back, its one function taken from the
template. -/
theorem read_back_same_iff_shape :
    ∃ q, readProgramBody (some (shapeProgram false)) 1 (writeProgramBody (shapeProgram false) 1) =
      some (q, []) ∧ (q.Same (shapeProgram false) ↔ (shapeProgram false).Stored) :=
  read_back_same_iff (shapeProgram false) (shapeProgram_valid false) (some (shapeProgram false)) 1
    (.inr (by decide +kernel))

/-- A sealed class comes back unsealed. -/
theorem sealed_class_lost : (shapeProgram true).Valid ∧
      ∃ q, readProgramBody none 0 (writeProgramBody (shapeProgram true) 0) = some (q, []) ∧
        q.classes.map DiamondClass.sealed = [false] ∧ ¬q.Same (shapeProgram true) := by
  refine ⟨shapeProgram_valid true, (shapeProgram true).restored none 0, ?_, rfl, fun h => ?_⟩
  · have hread := reads_program (shapeProgram_valid true) none (zero_le _) []
    rwa [List.append_nil] at hread
  · have hsealed := congrArg (List.map DiamondClass.sealed) h.classes
    exact absurd hsealed (by decide)

end Diamond.Compiled
