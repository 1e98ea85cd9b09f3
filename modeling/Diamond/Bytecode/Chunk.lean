import Mathlib.Data.List.Basic
import Mathlib.Data.Nat.Bitwise

/-!
# Chunks

Model of the parts of `DiamondChunk`, `DiamondFunction` and `DiamondTypeSet` in `src/vm.h` that the
bytecode verifier reads: the code, the sizes of the tables that operands index, and the type sets,
which the verifier follows into the sets they name.  Line tables and everything that is only printed
are left out.
-/

namespace Diamond.Bytecode

/-- `DiamondOpCode`, in the order of the source; `opReturn` is `DIAMOND_OP_RETURN`. -/
inductive DiamondOpCode
  | constant | string | symbol | nil | bool | move | add | addInt | subtract | multiply | divide
  | subtractInt | multiplyInt | divideInt | less | lessEqual | greater | greaterEqual | negate
  | equal | notEqual | equalInt | notEqualInt | lessInt | lessEqualInt | greaterInt
  | greaterEqualInt | jump | jumpIfFalse | call | callTyped | closure | callClosure | getCapture
  | getCaptureCell | setCapture | boxLocal | getCell | setCell | new | invoke | invokeMono
  | invokeTyped | super | getIvar | setIvar | getIvarName | setIvarName | getNamespaceConstant
  | setNamespaceConstant | checkType | array | indexGet | indexSet | hash | not | jumpIfTrue
  | opReturn | raise | pushRescue | popRescue | pushEnsure | runEnsure | endEnsure | isType
  | argumentProvided | toString | yield | redefineMethod | fiberNew | print | gets | fileOpen
  | fileDelete | tcpConnect | tcpListen | tcpListenNonblock | ioPoll | udpBind | udpOpen
  | signalTrap | tlsConnect | tlsListen | regexpNew | chr | toFloat | toInt | toSymbol | mathUnary
  | mathBinary | programBuilderNew | threadNew | getCvar | setCvar | sqlite3Open
  | checkDestructureCount | timeMonotonic | timeNow | timeAt | shiftLeft | processRun
  | processSpawn | debugger | argv | env | modulo | compare | postgresOpen | mysqlOpen
  | defineMethod | loadClass | invokeSelfMethod | bcryptHash | bcryptVerify | secureRandomBytes
  | secureRandomHex | digestSha256 | hmacSha256 | hmacVerify | digestSha1 | hmacSha1
  | cipherEncrypt | cipherDecrypt | gzipCompress | gzipDecompress | base64Encode | base64Decode
  | compileMethod | exit | collectVariadic | callSpread | caseMatch | caseArrayShape | arrayRest
  | caseHashShape | caseHashHas | hashRest | arrayMiddle | arraySuffix | checkHashKey
  | invokeSpread | callClosureSpread | newSpread | callSingletonSpread | buildSpreadArgs
  | callTypedSpread | invokeTypedSpread | callTypedSingletonSpread | callKeywordSpread
  | callTypedKeywordSpread | invokeKeywords | invokeTypedKeywords | callClosureKeywords
  | newKeywords | callSingletonKeywords | callTypedSingletonKeywords | filePath | fileJoin
  | timeParse | timeBuild | dirEntries | shiftRight | bitwiseAnd | bitwiseOr | bitwiseXor
  | className | tensorZeros | tensorFromArray | tensorRandom | channelNew | supervisorNew
  | tailCall | breakpointCheck | blockReturn | blockBreak | tcpConnectNonblock | dnsResolve
  | tlsStartHandshake | jsonStringify | channelSelect | indexGetString | channelSelectSend
  | sameClass | processRunOptions | processSpawnOptions | unwindJump | jsonStringifyOptions
  | newTyped | checkSelfReturn | semver | addIntK | subtractIntK | multiplyIntK | moduloIntK
  | lessIntK | lessEqualIntK | greaterIntK | greaterEqualIntK | equalIntK | notEqualIntK
  deriving DecidableEq, Repr

def opCount : ℕ := 200

def DiamondOpCode.ofByte (byte : ℕ) : Option DiamondOpCode :=
  if byte < opCount then some (.ofNat byte) else none

def maxRegisterCount : ℕ := 4096

def maxDeclaredParameters : ℕ := 32

/-- `DIAMOND_NO_TYPE_SET`, and `DIAMOND_NO_CLASS`. -/
def noTypeSet : ℕ := 0xffff
def noClass : ℕ := 0xffff

/-- The ids of `DiamondTypeId` that the verifier tells apart; the built-in ids `DIAMOND_TYPE_INT` to
`DIAMOND_TYPE_SYMBOL` are those below `typeClassBase`. -/
def typeCallable : ℕ := 7
def typeClassBase : ℕ := 10
def typeNative : ℕ := 0xf000
def typeVariableBase : ℕ := 0xf100
def typeInterfaceBase : ℕ := 0xf200

structure DiamondTypeMember where
  id : ℕ
  argumentSet : ℕ
  secondArgumentSet : ℕ
  callableArity : ℕ
  callableReturnSet : ℕ
  callableParametersTyped : Bool
  callableParameterSets : List ℕ
  deriving DecidableEq, Repr

structure DiamondTypeSet where
  members : List DiamondTypeMember
  deriving DecidableEq, Repr

structure DiamondFunction where
  code : List UInt8
  constantCount : ℕ
  stringCount : ℕ
  typeSets : List DiamondTypeSet
  registerCount : ℕ
  deriving DecidableEq, Repr

/-- `DiamondClass`: the name of its type parameter, empty for a class that is not generic. -/
structure DiamondClass where
  typeParameter : String
  deriving DecidableEq, Repr

structure DiamondChunk where
  code : List UInt8
  constantCount : ℕ
  stringCount : ℕ
  typeSets : List DiamondTypeSet
  functions : List DiamondFunction
  classes : List DiamondClass
  interfaceCount : ℕ
  registerCount : ℕ
  deriving DecidableEq, Repr

namespace DiamondChunk

variable (c : DiamondChunk)

/-- The fields `code_count`, `type_set_count`, `function_count` and `class_count`. -/
def codeCount : ℕ := c.code.length
def typeSetCount : ℕ := c.typeSets.length
def functionCount : ℕ := c.functions.length
def classCount : ℕ := c.classes.length

/-- `chunk->code[offset]`; a read past the end, which `require_bytes` keeps from happening, gives
zero. -/
def byte (offset : ℕ) : ℕ := (c.code.getD offset 0).toNat

/-- `read_operand`: two bytes, big-endian. -/
def readOperand (offset : ℕ) : ℕ := c.byte offset <<< 8 ||| c.byte (offset + 1)

def opcode (offset : ℕ) : Option DiamondOpCode :=
  if offset < c.codeCount then DiamondOpCode.ofByte (c.byte offset) else none

/-- The number of registers a frame of the chunk has: `register_count`, or the full width for a
hand-written chunk that leaves it at zero. -/
def registerWidth : ℕ := if c.registerCount = 0 then maxRegisterCount else c.registerCount

/-- The chunk `diamond_disassemble_user` builds for one of the functions. -/
def functionChunk (f : DiamondFunction) : DiamondChunk :=
  { c with
    code := f.code
    constantCount := f.constantCount
    stringCount := f.stringCount
    typeSets := f.typeSets
    registerCount := f.registerCount }

end DiamondChunk

end Diamond.Bytecode
