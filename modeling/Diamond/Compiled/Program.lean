import Diamond.Lib.Codec

/-!
# Compiled programs

Model of `DiamondProgram` and the records it is made of (`src/compiler.h`, `src/vm.h`), as
`src/compiled_prelude.c` writes them to a file and reads them back.

The records are dumped as this build's C compiler laid them out, so everything that depends on the
layout is a parameter, `Build`.  A plain field is a block of bytes and a table is a list; a
`DiamondFunction` keeps the bytes of its whole struct, out of which the counts are read.  Data that
only the passes of the compiler use (discovery tables, scalar field facts, template counts),
capacities and `shapes`, which is rebuilt from the rest, are left out.
-/

namespace Diamond.Compiled
open Codec

/-- `DIAMOND_MAX_FUNCTION_NAME`, `DIAMOND_MAX_STRING_LENGTH` and the limits of the tables. -/
def maxFunctionName : ℕ := 64
def maxStringLength : ℕ := 4095
def maxFunctions : ℕ := 65535
def maxClasses : ℕ := 1024
def maxInterfaces : ℕ := 1024
def maxModules : ℕ := 1024
def maxNamespaceConstants : ℕ := 65535
def maxMethods : ℕ := 4096
def maxFields : ℕ := 255
def maxClassVariables : ℕ := 64

structure Field where
  offset : ℕ
  width : ℕ

def Field.get (f : Field) (bytes : Bytes) : ℕ := ofBytes ((bytes.drop f.offset).take f.width)

def clear (mask : ℕ → Bool) (bytes : Bytes) : Bytes :=
  bytes.mapIdx fun i b => if mask i then 0 else b

/-- What the build fixes: the sizes of the structs, the fields of `DiamondFunction` that the reader
looks at, and the bytes of three groups of its fields.  `unwritten` are the pointer, JIT and
`call_chunk` fields that `write_function_image` zeroes, `rebuilt` those that `diamond_function_copy`
sets anew (pointers, capacities, `owns_combined_buffer` and the JIT state), and `uncompared` those
that `functions_identical` ignores. -/
structure Build where
  functionSize : ℕ
  valueSize : ℕ
  typeSetSize : ℕ
  bindingsSize : ℕ
  methodSize : ℕ
  interfaceMethodSize : ℕ
  codeCount : Field
  constantCount : Field
  stringCount : Field
  typeSetCount : Field
  typeVariableCount : Field
  classTypeVariable : Field
  capturesTypeVariables : Field
  nested : Field
  unwritten : ℕ → Bool
  rebuilt : ℕ → Bool
  uncompared : ℕ → Bool
  methodPointers : ℕ → Bool
  functionSize_lt : functionSize < 2 ^ 32
  valueSize_pos : 0 < valueSize
  typeSetSize_pos : 0 < typeSetSize
  fields_written : ∀ f ∈ [codeCount, constantCount, stringCount, typeSetCount, typeVariableCount,
    classTypeVariable, capturesTypeVariables, nested],
    ∀ i, f.offset ≤ i → i < f.offset + f.width → unwritten i = false
  uncompared_transient : ∀ i, uncompared i = true → unwritten i = true ∨ rebuilt i = true

/-- `DiamondFunction`: the bytes of the struct and the arrays its pointers own.  The elements of
`lines`, `columns`, `constants` and `type_sets` are dumped as they are. -/
structure DiamondFunction where
  bytes : Bytes
  code : Bytes
  lines : Bytes
  columns : Bytes
  constants : Bytes
  strings : List Bytes
  typeSets : Bytes
  deriving DecidableEq

structure DiamondClass (b : Build) where
  name : Block maxFunctionName
  typeParameter : Block maxFunctionName
  secondTypeParameter : Block maxFunctionName
  generatedStruct : Bool
  fixedTypeArguments : Bool
  swapsParentArguments : Bool
  transformsParentArguments : Bool
  parentTypeBindings : Block b.bindingsSize
  fixedTypeBindings : Block b.bindingsSize
  index : ℕ
  declarationLine : Block 4
  declarationColumn : Block 4
  declarationStart : Block 8
  superclass : Block 2
  sealed : Bool
  includedModules : List (Block 2)
  methods : List (Block b.methodSize)
  singletonMethods : List (Block b.methodSize)
  fields : List (Block maxFunctionName)
  fieldTypeStatus : List (Block 1)
  fieldKnownClass : List (Block 2)
  classVariables : List (Block maxFunctionName)
  declaredByDiscovery : Block 1
  deriving DecidableEq

structure DiamondInterface (b : Build) where
  name : Block maxFunctionName
  declarationLine : Block 4
  declarationColumn : Block 4
  declarationStart : Block 8
  methods : List (Block b.interfaceMethodSize)
  declaredByDiscovery : Block 1
  deriving DecidableEq

structure DiamondModule (b : Build) where
  name : Block maxFunctionName
  declarationLine : Block 4
  declarationColumn : Block 4
  declarationStart : Block 8
  methods : List (Block b.methodSize)
  singletonMethods : List (Block b.methodSize)
  nextSingletonClaim : Block 8
  fields : List (Block maxFunctionName)
  includedModules : List (Block 2)
  declaredByDiscovery : Block 1
  deriving DecidableEq

structure DiamondProgram (b : Build) where
  entry : DiamondFunction
  functions : List DiamondFunction
  classes : List (DiamondClass b)
  interfaces : List (DiamondInterface b)
  modules : List (DiamondModule b)
  namespaceConstants : List (Block maxFunctionName)
  rangeClassIndex : Block 2
  deriving DecidableEq

variable (b : Build)

/-- The struct of a function without what does not outlive the process that holds it. -/
def DiamondFunction.image (f : DiamondFunction) : Bytes :=
  clear (fun i => b.unwritten i || b.rebuilt i) f.bytes

/-- Two functions are equal: image, code, lines, columns, constants, strings and type sets. -/
structure DiamondFunction.Same (f g : DiamondFunction) : Prop where
  image : f.image b = g.image b
  code : f.code = g.code
  lines : f.lines = g.lines
  columns : f.columns = g.columns
  constants : f.constants = g.constants
  strings : f.strings = g.strings
  typeSets : f.typeSets = g.typeSets

variable {b}

/-- Two programs are equal: their functions are, and everything else is identical. -/
structure DiamondProgram.Same (p q : DiamondProgram b) : Prop where
  entry : p.entry.Same b q.entry
  functions : List.Forall₂ (DiamondFunction.Same b) p.functions q.functions
  classes : p.classes = q.classes
  interfaces : p.interfaces = q.interfaces
  modules : p.modules = q.modules
  namespaceConstants : p.namespaceConstants = q.namespaceConstants
  rangeClassIndex : p.rangeClassIndex = q.rangeClassIndex

/-! ## What the compiler guarantees -/

variable (b)

/-- The counts of the struct are the lengths of the arrays, and the facts about type variables
agree. -/
structure DiamondFunction.Valid (f : DiamondFunction) : Prop where
  bytes : f.bytes.length = b.functionSize
  code : f.code.length = b.codeCount.get f.bytes
  lines : f.lines.length = b.codeCount.get f.bytes * 4
  columns : f.columns.length = b.codeCount.get f.bytes * 4
  constants : f.constants.length = b.constantCount.get f.bytes * b.valueSize
  strings : f.strings.length = b.stringCount.get f.bytes
  stringLength : ∀ s ∈ f.strings, s.length ≤ maxStringLength
  typeSets : f.typeSets.length = b.typeSetCount.get f.bytes * b.typeSetSize
  typeVariables : b.typeVariableCount.get f.bytes ≤ 8 ∧ b.classTypeVariable.get f.bytes ≤ 2 ∧
    b.classTypeVariable.get f.bytes ≤ b.typeVariableCount.get f.bytes
  captures : b.capturesTypeVariables.get f.bytes = 0 ∨
    b.capturesTypeVariables.get f.bytes = 1 ∧ b.nested.get f.bytes ≠ 0 ∧
      b.typeVariableCount.get f.bytes ≠ 0 ∧ b.classTypeVariable.get f.bytes = 0

/-- `assert_methods_are_plain`: no method points to a chunk or has bound values. -/
def PlainMethods (methods : List (Block b.methodSize)) : Prop :=
  ∀ m ∈ methods, clear b.methodPointers m.bytes = m.bytes

variable {b}

/-- Names of type parameters are terminated, tables are within their limits and have one entry per
field, and methods are plain. -/
structure DiamondClass.Valid (c : DiamondClass b) : Prop where
  typeParameter : 0 ∈ c.typeParameter.bytes
  secondTypeParameter : 0 ∈ c.secondTypeParameter.bytes
  parameters : c.secondTypeParameter.bytes.head? ≠ some 0 → c.typeParameter.bytes.head? ≠ some 0
  fixedGeneric : c.fixedTypeArguments = true → c.typeParameter.bytes.head? ≠ some 0
  methods : c.methods.length ≤ maxMethods ∧ PlainMethods b c.methods
  singletonMethods : c.singletonMethods.length ≤ maxMethods ∧ PlainMethods b c.singletonMethods
  fields : c.fields.length ≤ maxFields
  fieldTypeStatus : c.fieldTypeStatus.length = c.fields.length
  fieldKnownClass : c.fieldKnownClass.length = c.fields.length
  classVariables : c.classVariables.length ≤ maxClassVariables

structure DiamondModule.Valid (m : DiamondModule b) : Prop where
  methods : m.methods.length ≤ maxMethods ∧ PlainMethods b m.methods
  singletonMethods : m.singletonMethods.length ≤ maxMethods ∧ PlainMethods b m.singletonMethods
  fields : m.fields.length ≤ maxFields

structure DiamondProgram.Valid (p : DiamondProgram b) : Prop where
  entry : p.entry.Valid b
  functions : ∀ f ∈ p.functions, f.Valid b
  functionCount : p.functions.length ≤ maxFunctions
  classes : ∀ c ∈ p.classes, c.Valid
  classIndex : ∀ (i : ℕ) (c : DiamondClass b), p.classes[i]? = some c → c.index = i
  classCount : p.classes.length ≤ maxClasses
  interfaces : ∀ i ∈ p.interfaces, i.methods.length ≤ maxMethods
  interfaceCount : p.interfaces.length ≤ maxInterfaces
  modules : ∀ m ∈ p.modules, m.Valid
  moduleCount : p.modules.length ≤ maxModules
  namespaceConstants : p.namespaceConstants.length ≤ maxNamespaceConstants

end Diamond.Compiled
