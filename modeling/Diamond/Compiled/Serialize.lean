import Diamond.Compiled.Program

/-!
# Writing and reading compiled programs

Model of `src/compiled_prelude.c`: `write_program_body` and `read_program_body` with everything they
call, and the comparison that finds how many functions a program shares with the prelude.  Writers
return the bytes they append to the file; readers are those of `Lib.Codec`.
-/

namespace Diamond.Compiled
open Codec

variable (b : Build)

/-! ## Functions -/

/-- The loop of `write_function_image` that finds where a literal ends: its length so far and the
zeros it ends with.  It stops at the eighth zero in a row. -/
def literalLoop : Bytes → ℕ → ℕ → ℕ × ℕ
  | [], literal, trailing => (literal, trailing)
  | x :: xs, literal, trailing =>
    if x = 0 then
      if 8 ≤ trailing + 1 then (literal, trailing + 1)
      else literalLoop xs (literal + 1) (trailing + 1)
    else literalLoop xs (literal + 1) 0

def literalLength (bytes : Bytes) : ℕ :=
  let (literal, trailing) := literalLoop bytes 0 0
  literal - if trailing < 8 then 0 else 7

/-- The records of an image: the zeros, the length of the literal, the literal.  A record covers at
least a byte, so there are at most as many as bytes. -/
def writeRecords : ℕ → Bytes → Bytes
  | 0, _ => []
  | _ + 1, [] => []
  | fuel + 1, bytes =>
    let zeros := (bytes.takeWhile (· == 0)).length
    let live := bytes.drop zeros
    let literal := literalLength live
    toBytes 4 zeros ++ toBytes 4 literal ++ live.take literal ++
      writeRecords fuel (live.drop literal)

def writeFunctionImage (f : DiamondFunction) : Bytes :=
  writeRecords f.bytes.length (clear b.unwritten f.bytes)

def writeString (s : Bytes) : Bytes := toBytes 8 s.length ++ s

def writeFunction (f : DiamondFunction) : Bytes :=
  [writeFunctionImage b f, f.code, f.lines, f.columns, f.constants,
    f.strings.flatMap writeString, f.typeSets].flatten

/-- The loop of `read_function` over the records, with the bytes of the struct that are still to be
covered. -/
def readRecords : ℕ → ℕ → Reader Bytes
  | 0, _ => pure []
  | _ + 1, 0 => pure []
  | fuel + 1, left => do
    let zeroCount ← word 4
    let literalCount ← word 4
    require (zeroCount ≤ left ∧ literalCount ≤ left - zeroCount)
    let literal ← take literalCount
    require ¬(zeroCount = 0 ∧ literalCount = 0)
    let rest ← readRecords fuel (left - zeroCount - literalCount)
    return List.replicate zeroCount 0 ++ (literal ++ rest)

/-- `diamond_function_copy`: the arrays are copied; what the copy holds in the fields it sets anew
is its own. -/
def diamondFunctionCopy (f : DiamondFunction) : DiamondFunction :=
  { f with bytes := clear b.rebuilt f.bytes }

def readString : Reader Bytes := do
  let length ← word 8
  require (length ≤ maxStringLength)
  take length

def readFunction : Reader DiamondFunction := do
  let view ← readRecords b.functionSize b.functionSize
  let codeCount := b.codeCount.get view
  let constantCount := b.constantCount.get view
  let stringCount := b.stringCount.get view
  let typeSetCount := b.typeSetCount.get view
  let typeVariableCount := b.typeVariableCount.get view
  let classTypeVariable := b.classTypeVariable.get view
  let captures := b.capturesTypeVariables.get view
  require (typeVariableCount ≤ 8 ∧ classTypeVariable ≤ 2 ∧ classTypeVariable ≤ typeVariableCount)
  require (captures = 0 ∨ captures = 1 ∧ b.nested.get view ≠ 0 ∧ typeVariableCount ≠ 0 ∧
    classTypeVariable = 0)
  fits codeCount 1
  fits constantCount b.valueSize
  fits typeSetCount b.typeSetSize
  let code ← take codeCount
  let lines ← take (codeCount * 4)
  let columns ← take (codeCount * 4)
  let constants ← take (constantCount * b.valueSize)
  fits stringCount 8
  let strings ← many readString stringCount
  let typeSets ← take (typeSetCount * b.typeSetSize)
  return diamondFunctionCopy b { bytes := view, code, lines, columns, constants, strings, typeSets }

/-! ## Classes, modules and interfaces -/

def writeFlag (flag : Bool) : Bytes := toBytes 1 flag.toNat

def readFlag : Reader Bool := do
  let flag ← word 1
  require (flag ≤ 1)
  return flag != 0

/-- Bytes that are in the file only when the flag is set, and zero otherwise. -/
def readWhen (flag : Bool) (n : ℕ) : Reader (Block n) :=
  if flag then block n else pure (Block.zero n)

def writeTable {n : ℕ} (entries : List (Block n)) : Bytes := entries.flatMap Block.bytes

def readTable (n count : ℕ) : Reader (List (Block n)) := many (block n) count

variable {b}

def writeClass (c : DiamondClass b) : Bytes :=
  [c.name.bytes, c.typeParameter.bytes, c.secondTypeParameter.bytes, writeFlag c.generatedStruct,
    writeFlag c.fixedTypeArguments, writeFlag c.swapsParentArguments,
    writeFlag c.transformsParentArguments,
    if c.transformsParentArguments then c.parentTypeBindings.bytes else [],
    if c.fixedTypeArguments then c.fixedTypeBindings.bytes else [], c.declarationLine.bytes,
    c.declarationColumn.bytes, c.declarationStart.bytes, c.superclass.bytes,
    toBytes 8 c.methods.length, toBytes 8 c.singletonMethods.length, writeTable c.methods,
    writeTable c.singletonMethods, toBytes 8 c.fields.length, writeTable c.fields,
    writeTable c.fieldTypeStatus, writeTable c.fieldKnownClass,
    toBytes 8 c.classVariables.length, writeTable c.classVariables,
    c.declaredByDiscovery.bytes].flatten

def writeModule (m : DiamondModule b) : Bytes :=
  [m.name.bytes, m.declarationLine.bytes, m.declarationColumn.bytes, m.declarationStart.bytes,
    toBytes 8 m.methods.length, toBytes 8 m.singletonMethods.length, writeTable m.methods,
    writeTable m.singletonMethods, m.nextSingletonClaim.bytes, toBytes 8 m.fields.length,
    writeTable m.fields, m.declaredByDiscovery.bytes].flatten

def writeInterface (i : DiamondInterface b) : Bytes :=
  [i.name.bytes, i.declarationLine.bytes, i.declarationColumn.bytes, i.declarationStart.bytes,
    toBytes 8 i.methods.length, writeTable i.methods, i.declaredByDiscovery.bytes].flatten

lemma length_clear (mask : ℕ → Bool) (bytes : Bytes) :
    (clear mask bytes).length = bytes.length := List.length_mapIdx

def clearMethodPointers (methods : List (Block b.methodSize)) : List (Block b.methodSize) :=
  methods.map fun m => ⟨clear b.methodPointers m.bytes, (length_clear _ _).trans m.length_bytes⟩

/-- The struct is zeroed first, so what is not read stays zero; the caller sets the index. -/
def readClass : Reader (DiamondClass b) := do
  let name ← block maxFunctionName
  let typeParameter ← block maxFunctionName
  require (0 ∈ typeParameter.bytes)
  let secondTypeParameter ← block maxFunctionName
  require (0 ∈ secondTypeParameter.bytes)
  require (secondTypeParameter.bytes.head? ≠ some 0 → typeParameter.bytes.head? ≠ some 0)
  let generatedStruct ← readFlag
  let fixedTypeArguments ← readFlag
  let swapsParentArguments ← readFlag
  let transformsParentArguments ← readFlag
  let parentTypeBindings ← readWhen transformsParentArguments b.bindingsSize
  let fixedTypeBindings ← readWhen fixedTypeArguments b.bindingsSize
  require (fixedTypeArguments = true → typeParameter.bytes.head? ≠ some 0)
  let declarationLine ← block 4
  let declarationColumn ← block 4
  let declarationStart ← block 8
  let superclass ← block 2
  let methodCount ← word 8
  let singletonMethodCount ← word 8
  require (methodCount ≤ maxMethods ∧ singletonMethodCount ≤ maxMethods)
  let methods ← readTable b.methodSize methodCount
  let singletonMethods ← readTable b.methodSize singletonMethodCount
  let fieldCount ← word 8
  require (fieldCount ≤ maxFields)
  let fields ← readTable maxFunctionName fieldCount
  let fieldTypeStatus ← readTable 1 fieldCount
  let fieldKnownClass ← readTable 2 fieldCount
  let classVariableCount ← word 8
  require (classVariableCount ≤ maxClassVariables)
  let classVariables ← readTable maxFunctionName classVariableCount
  let declaredByDiscovery ← block 1
  return {
    name, typeParameter, secondTypeParameter, generatedStruct, fixedTypeArguments,
    swapsParentArguments, transformsParentArguments, parentTypeBindings, fixedTypeBindings,
    index := 0, declarationLine, declarationColumn, declarationStart, superclass,
    sealed := false, includedModules := [],
    methods := clearMethodPointers methods,
    singletonMethods := clearMethodPointers singletonMethods,
    fields, fieldTypeStatus, fieldKnownClass, classVariables, declaredByDiscovery }

def readModule : Reader (DiamondModule b) := do
  let name ← block maxFunctionName
  let declarationLine ← block 4
  let declarationColumn ← block 4
  let declarationStart ← block 8
  let methodCount ← word 8
  let singletonMethodCount ← word 8
  require (methodCount ≤ maxMethods ∧ singletonMethodCount ≤ maxMethods)
  let methods ← readTable b.methodSize methodCount
  let singletonMethods ← readTable b.methodSize singletonMethodCount
  let nextSingletonClaim ← block 8
  let fieldCount ← word 8
  require (fieldCount ≤ maxFields)
  let fields ← readTable maxFunctionName fieldCount
  let declaredByDiscovery ← block 1
  return {
    name, declarationLine, declarationColumn, declarationStart,
    methods := clearMethodPointers methods,
    singletonMethods := clearMethodPointers singletonMethods,
    nextSingletonClaim, fields, includedModules := [], declaredByDiscovery }

def readInterface : Reader (DiamondInterface b) := do
  let name ← block maxFunctionName
  let declarationLine ← block 4
  let declarationColumn ← block 4
  let declarationStart ← block 8
  let methodCount ← word 8
  require (methodCount ≤ maxMethods)
  let methods ← readTable b.interfaceMethodSize methodCount
  let declaredByDiscovery ← block 1
  return {
    name, declarationLine, declarationColumn, declarationStart, methods := methods,
    declaredByDiscovery }

/-! ## Programs -/

/-- `write_program_body`: the first `skip` functions are left out. -/
def writeProgramBody (p : DiamondProgram b) (skip : ℕ) : Bytes :=
  [writeFunction b p.entry, toBytes 8 (p.functions.length - skip),
    (p.functions.drop skip).flatMap (writeFunction b), toBytes 8 p.classes.length,
    toBytes 8 p.interfaces.length, toBytes 8 p.modules.length,
    toBytes 8 p.namespaceConstants.length, p.classes.flatMap writeClass,
    p.interfaces.flatMap writeInterface, p.modules.flatMap writeModule,
    writeTable p.namespaceConstants, p.rangeClassIndex.bytes].flatten

/-- `read_program_body`: the first `skip` functions are copies of the template's. -/
def readProgramBody (template : Option (DiamondProgram b)) (skip : ℕ) :
    Reader (DiamondProgram b) := do
  let entry ← readFunction b
  let shared := template.elim [] fun t => (t.functions.take skip).map (diamondFunctionCopy b)
  let functionCount ← word 8
  -- `diamond_program_add_function` has no slot past the limit
  require (skip + functionCount ≤ maxFunctions)
  let functions ← many (readFunction b) functionCount
  let classCount ← word 8
  let interfaceCount ← word 8
  let moduleCount ← word 8
  let namespaceConstantCount ← word 8
  require (classCount ≤ maxClasses ∧ interfaceCount ≤ maxInterfaces ∧ moduleCount ≤ maxModules ∧
    namespaceConstantCount ≤ maxNamespaceConstants)
  let classes ← many readClass classCount
  let interfaces ← many readInterface interfaceCount
  let modules ← many readModule moduleCount
  let namespaceConstants ← readTable maxFunctionName namespaceConstantCount
  let rangeClassIndex ← block 2
  return {
    entry, functions := shared ++ functions,
    classes := classes.mapIdx fun index c => { c with index },
    interfaces, modules, namespaceConstants, rangeClassIndex }

variable (b)

/-- `functions_identical`.  The arrays are compared over the counts, which are their lengths. -/
def functionsIdentical (f g : DiamondFunction) : Bool :=
  b.codeCount.get f.bytes == b.codeCount.get g.bytes &&
    b.constantCount.get f.bytes == b.constantCount.get g.bytes &&
    b.stringCount.get f.bytes == b.stringCount.get g.bytes &&
    b.typeSetCount.get f.bytes == b.typeSetCount.get g.bytes &&
    clear b.uncompared f.bytes == clear b.uncompared g.bytes &&
    f.code == g.code && f.lines == g.lines && f.columns == g.columns &&
    f.constants == g.constants && f.strings == g.strings && f.typeSets == g.typeSets

variable {b}

/-- `shared_prelude_function_count`: how many functions may be left out. -/
def sharedPreludeFunctionCount (p : DiamondProgram b) : Option (DiamondProgram b) → ℕ
  | none => 0
  | some template =>
    if template.functions.length = 0 ∨ p.functions.length < template.functions.length then 0
    else if (p.functions.zip template.functions).all fun (f, g) => functionsIdentical b f g then
      template.functions.length
    else 0

end Diamond.Compiled
