import Diamond.Bytecode.Format

/-!
# The verifier

Model of `diamond_verify_bytecode` and the walk of `src/disassemble.c` it runs with a null stream,
so that nothing is printed.  Each opcode group is a function that gives `none` for an opcode of
another group; a case of a group says where the walk goes on, whether the instruction is valid, and
which jump targets it records.  The walk only ever clears `valid`, so an instruction's own verdict
is enough.
-/

namespace Diamond.Bytecode

structure Decoded where
  next : ℕ
  valid : Bool
  targets : List ℕ
  deriving DecidableEq, Repr

def keywordTrailerCountValid (encoded : ℕ) : Bool :=
  (0 < Format.keywordCount encoded || Format.hasBlock encoded) &&
    Format.keywordCount encoded ≤ maxDeclaredParameters

namespace DiamondChunk

variable (c : DiamondChunk)

def requireBytes (offset count : ℕ) : Bool := offset + count ≤ c.codeCount

def registerInRange (value : ℕ) : Bool := value < c.registerWidth

def checkedRegister (offset : ℕ) : Bool := c.registerInRange (c.readOperand offset)

def checkedRegisterRange (offset count : ℕ) : Bool := c.readOperand offset + count ≤ c.registerWidth

def constantIndex (offset : ℕ) : Bool := c.readOperand offset < c.constantCount
def stringIndex (offset : ℕ) : Bool := c.readOperand offset < c.stringCount
def functionIndex (offset : ℕ) : Bool := c.readOperand offset < c.functionCount
def typeSetIndex (offset : ℕ) : Bool := c.readOperand offset < c.typeSetCount
def classIndex (offset : ℕ) : Bool := c.readOperand offset < c.classCount

def knownType (type : ℕ) : Bool :=
  type < typeClassBase || type == typeNative ||
    (typeVariableBase ≤ type && type < typeInterfaceBase) ||
    (typeInterfaceBase ≤ type && type - typeInterfaceBase < c.interfaceCount) ||
    type - typeClassBase < c.classCount

/-- `print_type_set` from an index, `depth` calls deep at most.  A call that is nested deeper than
there are type sets comes back to a set it is in; the source then recurses until its stack is full
and never accepts. -/
def printTypeSetWithin : ℕ → ℕ → Bool
  | 0, _ => false
  | depth + 1, index =>
    match c.typeSets[index]? with
    | none => false
    | some set =>
      set.members.all fun member =>
        c.knownType member.id &&
          if member.argumentSet ≠ noTypeSet then
            printTypeSetWithin depth member.argumentSet &&
              (member.secondArgumentSet == noTypeSet ||
                printTypeSetWithin depth member.secondArgumentSet)
          else if member.id = typeCallable ∧ member.callableArity ≠ 0xff then
            (!member.callableParametersTyped ||
              (List.range member.callableArity).all fun parameter =>
                printTypeSetWithin depth (member.callableParameterSets.getD parameter 0)) &&
              (member.callableReturnSet == noTypeSet ||
                printTypeSetWithin depth member.callableReturnSet)
          else true

def printTypeSet (offset : ℕ) : Bool :=
  c.printTypeSetWithin (c.typeSetCount + 1) (c.readOperand offset)

/-- The exit of a case that finds its instruction truncated: `valid=false; offset=code_count`. -/
def truncated : Decoded := ⟨c.codeCount, false, []⟩

/-- `if(!require_bytes(..)) {valid=false;offset=chunk->code_count;break;}` before the rest of a
case. -/
def require (offset count : ℕ) (rest : Decoded) : Decoded :=
  if c.requireBytes offset count then rest else c.truncated

/-- A case with a fixed number of bytes: the checks, then `offset += count`. -/
def instruction (offset count : ℕ) (valid : Bool) : Decoded :=
  c.require offset count ⟨offset + count, valid, []⟩

/-- A case that also records the jump target at `position`. -/
def jumpInstruction (offset count position : ℕ) (valid : Bool) : Decoded :=
  c.require offset count
    (if c.codeCount < c.readOperand position then ⟨offset + count, false, []⟩
      else ⟨offset + count, valid, [c.readOperand position]⟩)

/-- The helpers for instructions of `n` registers.  A truncated one ends the walk and leaves `valid`
alone. -/
def nRegisters (n offset : ℕ) : Decoded :=
  if c.requireBytes offset (1 + 2 * n) then
    ⟨offset + (1 + 2 * n), (List.range n).all fun i => c.checkedRegister (offset + (1 + 2 * i)), []⟩
  else ⟨c.codeCount, true, []⟩

def oneRegister : ℕ → Decoded := c.nRegisters 1
def twoRegisters : ℕ → Decoded := c.nRegisters 2
def threeRegisters : ℕ → Decoded := c.nRegisters 3
def fourRegisters : ℕ → Decoded := c.nRegisters 4
def fiveRegisters : ℕ → Decoded := c.nRegisters 5
def sixRegisters : ℕ → Decoded := c.nRegisters 6

def registersAndConstant (offset : ℕ) : Decoded :=
  if c.requireBytes offset 9 then
    ⟨offset + 9, c.checkedRegister (offset + 1) && c.checkedRegister (offset + 3) &&
      c.checkedRegister (offset + 5) && c.constantIndex (offset + 7), []⟩
  else ⟨c.codeCount, true, []⟩

def typeSetIndexes (offset n : ℕ) : Bool :=
  (List.range n).all fun i => c.typeSetIndex (offset + 2 * i)
def printedTypeSets (offset n : ℕ) : Bool :=
  (List.range n).all fun i => c.printTypeSet (offset + 2 * i)
def keywords (offset n : ℕ) : Bool :=
  (List.range n).all fun i =>
    c.stringIndex (offset + 4 * i) && c.checkedRegister (offset + 4 * i + 2)

def keywordTrailer (offset encoded : ℕ) : Bool :=
  c.keywords offset (Format.keywordCount encoded) &&
    (!Format.hasBlock encoded || c.checkedRegister (offset + 4 * Format.keywordCount encoded))

/-- The type sets that follow an instruction of `count` bytes in the keyword forms. -/
def typeTrailer (offset count : ℕ) (valid : Bool) : Decoded :=
  let typeCount := c.byte (offset + count)
  if 8 < typeCount then c.truncated
  else c.instruction offset (count + 1 + 2 * typeCount)
    (valid && c.typeSetIndexes (offset + (count + 1)) typeCount)

def disassembleLoads (offset : ℕ) : DiamondOpCode → Option Decoded
  | .constant =>
    some (c.instruction offset 5 (c.checkedRegister (offset + 1) && c.constantIndex (offset + 3)))
  | .string =>
    some (c.instruction offset 5 (c.checkedRegister (offset + 1) && c.stringIndex (offset + 3)))
  | .indexGetString =>
    some (c.instruction offset 7
      (c.checkedRegister (offset + 1) && c.checkedRegister (offset + 3) &&
        c.stringIndex (offset + 5)))
  | .symbol =>
    some (c.instruction offset 5 (c.checkedRegister (offset + 1) && c.stringIndex (offset + 3)))
  | .nil => some (c.oneRegister offset)
  | .bool => some (c.instruction offset 5 (c.checkedRegister (offset + 1)))
  | .argumentProvided => some (c.instruction offset 5 (c.checkedRegister (offset + 1)))
  | .collectVariadic => some (c.instruction offset 7 (c.checkedRegister (offset + 1)))
  | _ => none

def disassembleArithmetic (offset : ℕ) : DiamondOpCode → Option Decoded
  | .toString | .move | .negate => some (c.twoRegisters offset)
  | .add | .addInt | .subtract | .multiply | .divide | .subtractInt | .multiplyInt | .divideInt
  | .less | .lessEqual | .greater | .greaterEqual | .equal | .notEqual | .equalInt | .notEqualInt
  | .lessInt | .lessEqualInt | .greaterInt | .greaterEqualInt => some (c.threeRegisters offset)
  | .addIntK | .subtractIntK | .multiplyIntK | .moduloIntK | .lessIntK | .lessEqualIntK | .greaterIntK
  | .greaterEqualIntK | .equalIntK | .notEqualIntK => some (c.registersAndConstant offset)
  | _ => none

def disassembleCalls (offset : ℕ) : DiamondOpCode → Option Decoded
  | .call | .tailCall =>
    some (c.instruction offset 8
      (c.checkedRegister (offset + 1) &&
        c.checkedRegisterRange (offset + 5) (c.byte (offset + 7)) && c.functionIndex (offset + 3)))
  | .callTyped =>
    let count := c.byte (offset + 8)
    some (c.require offset 9 (c.instruction offset (9 + 2 * count)
      (c.checkedRegister (offset + 1) &&
        c.checkedRegisterRange (offset + 5) (c.byte (offset + 7)) &&
        c.printedTypeSets (offset + 9) count && c.functionIndex (offset + 3))))
  | .callClosure =>
    some (c.instruction offset 8
      (c.checkedRegister (offset + 1) && c.checkedRegister (offset + 3) &&
        c.checkedRegisterRange (offset + 5) (c.byte (offset + 7))))
  | _ => none

def keywordSpread (offset : ℕ) (typed : Bool) : Decoded :=
  c.require offset 8 (
    let keywordCount := c.byte (offset + 7)
    let keywordEnd := 8 + 3 * keywordCount
    if keywordCount = 0 ∨ maxDeclaredParameters < keywordCount then c.truncated
    else c.require offset (keywordEnd + if typed then 1 else 0) (
      let valid := c.checkedRegister (offset + 1) && c.checkedRegister (offset + 5) &&
        c.functionIndex (offset + 3) &&
        (List.range keywordCount).all fun i => c.checkedRegister (offset + (8 + 3 * i + 1))
      if typed then c.typeTrailer offset keywordEnd valid else ⟨offset + keywordEnd, valid, []⟩))

def disassembleSpreadCalls (offset : ℕ) : DiamondOpCode → Option Decoded
  | .callSpread =>
    some (c.instruction offset 7
      (c.checkedRegister (offset + 1) && c.checkedRegister (offset + 5) &&
        c.functionIndex (offset + 3)))
  | .callTypedSpread =>
    let typeCount := c.byte (offset + 7)
    some (c.require offset 8 (c.instruction offset (8 + 2 * typeCount)
      (c.checkedRegister (offset + 1) && c.checkedRegister (offset + 5) &&
        c.functionIndex (offset + 3) && decide (typeCount ≤ 8) &&
        c.typeSetIndexes (offset + 8) typeCount)))
  | .callKeywordSpread => some (c.keywordSpread offset false)
  | .callTypedKeywordSpread => some (c.keywordSpread offset true)
  | .callClosureSpread =>
    some (c.instruction offset 7
      (c.checkedRegister (offset + 1) && c.checkedRegister (offset + 3) &&
        c.checkedRegister (offset + 5)))
  | .callClosureKeywords =>
    let encoded := c.byte (offset + 7)
    some (c.require offset 8 (
      if keywordTrailerCountValid encoded then
        c.instruction offset (8 + Format.trailerLength encoded)
          (c.checkedRegister (offset + 1) && c.checkedRegister (offset + 3) &&
            c.checkedRegister (offset + 5) && c.keywordTrailer (offset + 8) encoded)
      else c.truncated))
  | .buildSpreadArgs =>
    let suffixCount := c.byte (offset + 10) &&& 0x7f
    let optionalBlock := decide (c.byte (offset + 10) &&& 0x80 ≠ 0)
    some (c.instruction offset 11
      (!(optionalBlock && suffixCount == 0) && c.checkedRegister (offset + 1) &&
        c.checkedRegisterRange (offset + 3) (c.byte (offset + 5)) &&
        c.checkedRegister (offset + 6) && c.checkedRegisterRange (offset + 8) suffixCount))
  | _ => none

def invokeKeywords (offset : ℕ) (typed : Bool) : Decoded :=
  c.require offset 10 (
    let encoded := c.byte (offset + 9)
    let keywordEnd := 10 + Format.trailerLength encoded
    if keywordTrailerCountValid encoded then
      c.require offset (keywordEnd + if typed then 1 else 0) (
        let valid := c.checkedRegister (offset + 1) && c.checkedRegister (offset + 3) &&
          c.checkedRegister (offset + 7) && c.stringIndex (offset + 5) &&
          c.keywordTrailer (offset + 10) encoded
        if typed then c.typeTrailer offset keywordEnd valid else ⟨offset + keywordEnd, valid, []⟩)
    else c.truncated)

def disassembleSpreadInvokes (offset : ℕ) : DiamondOpCode → Option Decoded
  | .invokeSpread =>
    some (c.instruction offset 9
      (c.checkedRegister (offset + 1) && c.checkedRegister (offset + 3) &&
        c.checkedRegister (offset + 7) && c.stringIndex (offset + 5)))
  | .invokeKeywords => some (c.invokeKeywords offset false)
  | .invokeTypedKeywords => some (c.invokeKeywords offset true)
  | .invokeTypedSpread =>
    let typeCount := c.byte (offset + 9)
    some (c.require offset 10 (c.instruction offset (10 + 2 * typeCount)
      (c.checkedRegister (offset + 1) && c.checkedRegister (offset + 3) &&
        c.checkedRegister (offset + 7) && c.stringIndex (offset + 5) && decide (typeCount ≤ 8) &&
        c.typeSetIndexes (offset + 10) typeCount)))
  | _ => none

def optionalClass (offset : ℕ) : Bool := c.readOperand offset == noClass || c.classIndex offset

/-- The two forms of `CALL_SINGLETON_KEYWORDS`.  Neither looks at the class operand. -/
def callSingletonKeywords (offset : ℕ) (typed : Bool) : Decoded :=
  c.require offset 11 (
    let encoded := c.byte (offset + 10)
    let keywordEnd := 11 + Format.trailerLength encoded
    if keywordTrailerCountValid encoded then
      c.require offset (keywordEnd + if typed then 1 else 0) (
        let valid := c.checkedRegister (offset + 1) && c.checkedRegister (offset + 5) &&
          c.functionIndex (offset + 3) && c.keywordTrailer (offset + 11) encoded
        if typed then c.typeTrailer offset keywordEnd valid else ⟨offset + keywordEnd, valid, []⟩)
    else c.truncated)

def disassembleSpreadConstructors (offset : ℕ) : DiamondOpCode → Option Decoded
  | .newSpread =>
    some (c.instruction offset 7
      (c.checkedRegister (offset + 1) && c.checkedRegister (offset + 5) && c.classIndex (offset + 3)))
  | .newTyped =>
    let encoded := c.byte (offset + 9)
    some (c.require offset 10 (
      if Format.keywordCount encoded ≤ maxDeclaredParameters then
        c.instruction offset (10 + Format.trailerLength encoded)
          (c.checkedRegister (offset + 1) && c.checkedRegister (offset + 7) &&
            c.typeSetIndex (offset + 5) &&
            (match c.classes[c.readOperand (offset + 3)]? with
              | some cls => cls.typeParameter ≠ ""
              | none => false) &&
            c.keywordTrailer (offset + 10) encoded)
      else c.truncated))
  | .newKeywords =>
    let encoded := c.byte (offset + 7)
    some (c.require offset 8 (
      if keywordTrailerCountValid encoded then
        c.instruction offset (8 + Format.trailerLength encoded)
          (c.checkedRegister (offset + 1) && c.checkedRegister (offset + 5) &&
            c.classIndex (offset + 3) && c.keywordTrailer (offset + 8) encoded)
      else c.truncated))
  | .callSingletonSpread =>
    some (c.instruction offset 10
      (c.checkedRegister (offset + 1) && c.checkedRegister (offset + 5) &&
        c.functionIndex (offset + 3) && decide (c.byte (offset + 9) ≤ 1) &&
        c.optionalClass (offset + 7)))
  | .callTypedSingletonSpread =>
    let typeCount := c.byte (offset + 10)
    some (c.require offset 11 (c.instruction offset (11 + 2 * typeCount)
      (c.checkedRegister (offset + 1) && c.checkedRegister (offset + 5) &&
        c.functionIndex (offset + 3) && decide (c.byte (offset + 9) ≤ 1) &&
        decide (typeCount ≤ 8) && c.optionalClass (offset + 7) &&
        c.typeSetIndexes (offset + 11) typeCount)))
  | .callSingletonKeywords => some (c.callSingletonKeywords offset false)
  | .callTypedSingletonKeywords => some (c.callSingletonKeywords offset true)
  | _ => none

def disassembleClosuresAndClasses (offset : ℕ) : DiamondOpCode → Option Decoded
  | .getCapture | .getCaptureCell => some (c.instruction offset 5 (c.checkedRegister (offset + 1)))
  | .setCapture => some (c.instruction offset 5 (c.checkedRegister (offset + 3)))
  | .boxLocal => some (c.oneRegister offset)
  | .getCell | .setCell => some (c.twoRegisters offset)
  | .closure =>
    -- The function index is printed and not compared with `function_count`.
    let count := c.byte (offset + 5)
    some (c.require offset 6 (c.instruction offset (6 + 2 * count)
      (c.checkedRegister (offset + 1) &&
        (List.range count).all fun i => c.checkedRegister (offset + (6 + 2 * i)))))
  | .new =>
    some (c.instruction offset 8
      (c.checkedRegister (offset + 1) && c.checkedRegisterRange (offset + 5) (c.byte (offset + 7))))
  | .redefineMethod | .defineMethod =>
    some (c.instruction offset 9
      (c.checkedRegister (offset + 1) && c.checkedRegister (offset + 5) &&
        c.checkedRegister (offset + 7)))
  | .compileMethod =>
    some (c.instruction offset 13
      (c.checkedRegister (offset + 1) && c.checkedRegister (offset + 5) &&
        c.checkedRegister (offset + 7) && c.checkedRegister (offset + 9) &&
        c.checkedRegister (offset + 11)))
  | .loadClass => some (c.instruction offset 5 (c.checkedRegister (offset + 1)))
  | .invokeSelfMethod =>
    -- The first argument register is checked, the range it starts is not.
    some (c.instruction offset 8
      (c.stringIndex (offset + 3) && c.checkedRegister (offset + 1) && c.checkedRegister (offset + 5)))
  | .yield | .fiberNew => some (c.twoRegisters offset)
  | .threadNew =>
    some (c.instruction offset 8
      (c.checkedRegister (offset + 1) && c.checkedRegister (offset + 3) &&
        c.checkedRegisterRange (offset + 5) (c.byte (offset + 7))))
  | _ => none

def disassembleIoAndConversions (offset : ℕ) : DiamondOpCode → Option Decoded
  | .print =>
    some (c.instruction offset 6 (c.checkedRegister (offset + 1) && c.checkedRegister (offset + 3)))
  | .fileJoin =>
    some (c.instruction offset 6
      (c.checkedRegister (offset + 1) && c.checkedRegisterRange (offset + 3) (c.byte (offset + 5))))
  | .timeBuild =>
    some (c.instruction offset 6
      (c.checkedRegister (offset + 1) &&
        c.checkedRegisterRange (offset + 3) (if c.byte (offset + 5) = 1 then 7 else 6)))
  | .semver | .filePath =>
    some (c.instruction offset 8
      (c.checkedRegister (offset + 1) && c.checkedRegister (offset + 3) &&
        c.checkedRegister (offset + 5)))
  | .gets | .udpOpen | .programBuilderNew => some (c.oneRegister offset)
  | .timeParse | .fileDelete | .chr | .toFloat | .toInt | .toSymbol | .jsonStringify =>
    some (c.twoRegisters offset)
  | .fileOpen | .tcpConnectNonblock | .tcpListen | .tcpListenNonblock | .udpBind | .signalTrap
  | .jsonStringifyOptions | .regexpNew => some (c.threeRegisters offset)
  | .dnsResolve | .tcpConnect | .tlsStartHandshake | .tlsConnect => some (c.fourRegisters offset)
  | .tlsListen => some (c.fiveRegisters offset)
  | .ioPoll =>
    some (c.instruction offset 9
      (c.checkedRegister (offset + 1) && c.checkedRegister (offset + 3) &&
        c.checkedRegister (offset + 5) && c.checkedRegister (offset + 7)))
  | .mathUnary =>
    some (c.instruction offset 6 (c.checkedRegister (offset + 1) && c.checkedRegister (offset + 3)))
  | .mathBinary =>
    some (c.instruction offset 8
      (c.checkedRegister (offset + 1) && c.checkedRegister (offset + 3) &&
        c.checkedRegister (offset + 5)))
  | _ => none

def disassembleInvokesAndVariables (offset : ℕ) : DiamondOpCode → Option Decoded
  | .invoke | .invokeMono =>
    some (c.instruction offset 10
      (c.stringIndex (offset + 5) && c.checkedRegister (offset + 1) &&
        c.checkedRegister (offset + 3) &&
        c.checkedRegisterRange (offset + 7) (c.byte (offset + 9))))
  | .invokeTyped =>
    let count := c.byte (offset + 10)
    some (c.require offset 11 (c.instruction offset (11 + 2 * count)
      (c.stringIndex (offset + 5) && c.checkedRegister (offset + 1) &&
        c.checkedRegister (offset + 3) &&
        c.checkedRegisterRange (offset + 7) (c.byte (offset + 9)) &&
        c.printedTypeSets (offset + 11) count)))
  | .super =>
    some (c.instruction offset 10
      (c.classIndex (offset + 3) && c.stringIndex (offset + 5) && c.checkedRegister (offset + 1) &&
        c.checkedRegisterRange (offset + 7) (c.byte (offset + 9))))
  | .getIvar =>
    some (c.instruction offset 7 (c.checkedRegister (offset + 1) && c.checkedRegister (offset + 3)))
  | .setIvar =>
    some (c.instruction offset 7 (c.checkedRegister (offset + 1) && c.checkedRegister (offset + 5)))
  -- The two `_NAME` forms leave their string index to the interpreter.
  | .getIvarName =>
    some (c.instruction offset 7 (c.checkedRegister (offset + 1) && c.checkedRegister (offset + 3)))
  | .setIvarName =>
    some (c.instruction offset 7 (c.checkedRegister (offset + 1) && c.checkedRegister (offset + 5)))
  | .getNamespaceConstant => some (c.instruction offset 5 (c.checkedRegister (offset + 1)))
  | .setNamespaceConstant => some (c.instruction offset 5 (c.checkedRegister (offset + 3)))
  | .getCvar => some (c.instruction offset 7 (c.checkedRegister (offset + 1)))
  | .setCvar => some (c.instruction offset 7 (c.checkedRegister (offset + 5)))
  | _ => none

def disassembleJumps (offset : ℕ) : DiamondOpCode → Option Decoded
  | .jump => some (c.jumpInstruction offset 3 (offset + 1) true)
  | .jumpIfFalse | .jumpIfTrue =>
    some (c.jumpInstruction offset 5 (offset + 3) (c.checkedRegister (offset + 1)))
  | _ => none

/-- `DEBUGGER` and `BREAKPOINT_CHECK`, whose locals start at position `start`.  A name that is not
in the string table is printed as `?`. -/
def locals (offset start : ℕ) : Decoded :=
  let localCount := c.byte (offset + 3)
  c.require offset start (c.instruction offset (start + 4 * localCount)
    (c.checkedRegister (offset + 1) &&
      (List.range localCount).all fun i => c.checkedRegister (offset + (start + 4 * i + 2))))

def disassembleNativesAndDebugging (offset : ℕ) : DiamondOpCode → Option Decoded
  | .checkDestructureCount => some (c.instruction offset 5 (c.checkedRegister (offset + 1)))
  | .timeNow => some (c.instruction offset 4 (c.checkedRegister (offset + 1)))
  | .timeMonotonic | .exit | .argv | .env => some (c.oneRegister offset)
  | .timeAt | .channelNew | .supervisorNew | .dirEntries | .tensorFromArray | .processRun
  | .processSpawn | .secureRandomBytes | .secureRandomHex | .digestSha256 | .digestSha1
  | .gzipCompress | .base64Encode | .base64Decode => some (c.twoRegisters offset)
  | .sqlite3Open | .shiftLeft | .shiftRight | .bitwiseAnd | .bitwiseOr | .bitwiseXor
  | .channelSelect | .tensorZeros | .processRunOptions | .processSpawnOptions | .bcryptHash
  | .bcryptVerify | .hmacSha256 | .hmacSha1 | .cipherEncrypt | .cipherDecrypt | .gzipDecompress
  | .modulo => some (c.threeRegisters offset)
  | .channelSelectSend | .tensorRandom | .hmacVerify => some (c.fourRegisters offset)
  | .debugger => some (c.locals offset 4)
  | .breakpointCheck => some (c.locals offset 12)
  | _ => none

def disassemblePatternsAndTypes (offset : ℕ) : DiamondOpCode → Option Decoded
  | .compare | .caseMatch | .caseHashHas | .hashRest | .sameClass | .indexGet | .indexSet =>
    some (c.threeRegisters offset)
  | .caseArrayShape | .arrayRest | .arrayMiddle | .arraySuffix =>
    some (c.instruction offset 7 (c.checkedRegister (offset + 1) && c.checkedRegister (offset + 3)))
  | .caseHashShape | .checkHashKey | .postgresOpen | .className | .not =>
    some (c.twoRegisters offset)
  | .mysqlOpen => some (c.sixRegisters offset)
  | .checkType =>
    some (c.instruction offset 5 (c.checkedRegister (offset + 1) && c.printTypeSet (offset + 3)))
  | .checkSelfReturn =>
    some (c.instruction offset 7
      (c.checkedRegister (offset + 1) &&
        (c.readOperand (offset + 3) == noTypeSet || c.printTypeSet (offset + 3)) &&
        c.checkedRegister (offset + 5)))
  | .isType =>
    -- `(uint8_t)read_operand(..)` keeps the low byte of the type id.
    some (c.instruction offset 7
      (c.checkedRegister (offset + 1) && c.checkedRegister (offset + 3) &&
        c.knownType (c.readOperand (offset + 5) % 2 ^ 8)))
  | .array =>
    some (c.instruction offset 7
      (c.checkedRegister (offset + 1) &&
        c.checkedRegisterRange (offset + 3) (c.readOperand (offset + 5))))
  | .hash =>
    some (c.instruction offset 7
      (c.checkedRegister (offset + 1) &&
        c.checkedRegisterRange (offset + 3) (c.readOperand (offset + 5) * 2)))
  | .opReturn | .blockReturn | .blockBreak | .raise => some (c.oneRegister offset)
  | _ => none

def disassembleExceptionFlow (offset : ℕ) : DiamondOpCode → Option Decoded
  | .pushRescue => some (c.jumpInstruction offset 14 (offset + 12) (c.checkedRegister (offset + 1)))
  | .popRescue | .endEnsure => some ⟨offset + 1, true, []⟩
  | .pushEnsure | .runEnsure => some (c.jumpInstruction offset 3 (offset + 1) true)
  | .unwindJump => some (c.jumpInstruction offset 4 (offset + 2) true)
  | _ => none

def disassembleInstruction (offset : ℕ) (op : DiamondOpCode) : Option Decoded :=
  (c.disassembleLoads offset op <|> c.disassembleArithmetic offset op <|>
    c.disassembleCalls offset op <|> c.disassembleSpreadCalls offset op <|>
    c.disassembleSpreadInvokes offset op <|> c.disassembleSpreadConstructors offset op <|>
    c.disassembleInvokesAndVariables offset op <|> c.disassembleJumps offset op <|>
    c.disassembleClosuresAndClasses offset op <|> c.disassembleIoAndConversions offset op <|>
    c.disassembleNativesAndDebugging offset op <|> c.disassemblePatternsAndTypes offset op <|>
    c.disassembleExceptionFlow offset op)

end DiamondChunk

structure DisassemblyWalk where
  offset : ℕ
  valid : Bool
  pendingTargets : List ℕ
  starts : List ℕ
  deriving DecidableEq, Repr

namespace DiamondChunk

variable (c : DiamondChunk)

def walkStep (w : DisassemblyWalk) : DisassemblyWalk :=
  match (c.opcode w.offset).bind (c.disassembleInstruction w.offset) with
  | some decoded =>
    { offset := decoded.next
      valid := w.valid && decoded.valid
      pendingTargets := w.pendingTargets ++ decoded.targets
      starts := w.starts ++ [w.offset] }
  | none =>
    -- `<unknown opcode>`
    { w with offset := w.offset + 1, valid := false, starts := w.starts ++ [w.offset] }

/-- `while (walk.offset < chunk->code_count)`; every turn moves on, so `code_count` turns are
enough. -/
def walkLoop : ℕ → DisassemblyWalk → DisassemblyWalk
  | 0, w => w
  | turns + 1, w => if w.offset < c.codeCount then walkLoop turns (c.walkStep w) else w

def walk : DisassemblyWalk := c.walkLoop c.codeCount ⟨0, true, [], []⟩

/-- `disassemble_chunk`: the walk, then the check of the recorded jump targets. -/
def disassembleChunk : Bool :=
  c.walk.valid && c.walk.pendingTargets.all fun target =>
    target == c.codeCount || c.walk.starts.contains target

end DiamondChunk

/-- `diamond_verify_bytecode`: the chunk and every function of it. -/
def diamondVerifyBytecode (c : DiamondChunk) : Bool :=
  c.disassembleChunk && c.functions.all fun f => (c.functionChunk f).disassembleChunk

end Diamond.Bytecode
