import Diamond.Bytecode.Chunk

/-!
# The instruction format

What a well-formed chunk is, stated without the verifier: the length of every instruction and the
meaning of its operands, as the interpreter loop of `src/vm_run_chunk.c` and the helpers of
`src/vm_outlined.c` read them.  Operands that are neither registers nor jump targets nor indexes of
a constant, string, function or type set (class indexes, field and capture slots, counts, flags)
have no entry.
-/

namespace Diamond.Bytecode

/-- What the interpreter uses a two-byte operand for.  A `registers` operand is the first of `count`
registers; an `optionalTypeSet` may be `DIAMOND_NO_TYPE_SET`. -/
inductive Role
  | register
  | registers (count : ℕ)
  | constant
  | string
  | function
  | typeSet
  | optionalTypeSet
  | target
  deriving DecidableEq, Repr

/-- The length of an instruction and its operands, with their positions in it. -/
structure Format where
  length : ℕ
  operands : List (ℕ × Role)

namespace Format

def registers (n : ℕ) : Format := ⟨1 + 2 * n, (List.range n).map fun i => (1 + 2 * i, .register)⟩

def registersAndConstant : Format :=
  ⟨9, [(1, .register), (3, .register), (5, .register), (7, .constant)]⟩

def typeSets (start n : ℕ) : List (ℕ × Role) :=
  (List.range n).map fun i => (start + 2 * i, .typeSet)

/-- `n` pairs of a name and a register from position `start`. -/
def named (start n : ℕ) : List (ℕ × Role) :=
  (List.range n).flatMap fun i => [(start + 4 * i, .string), (start + 4 * i + 2, .register)]

/-- The count byte of a keyword trailer: the number of keywords, and whether a block register
follows them. -/
def keywordCount (encoded : ℕ) : ℕ := encoded &&& 0x7f
def hasBlock (encoded : ℕ) : Bool := encoded &&& 0x80 ≠ 0

def trailerLength (encoded : ℕ) : ℕ := 4 * keywordCount encoded + if hasBlock encoded then 2 else 0

/-- The operands of a keyword trailer that starts at position `start`. -/
def trailer (start encoded : ℕ) : List (ℕ × Role) :=
  named start (keywordCount encoded) ++
    if hasBlock encoded then [(start + 4 * keywordCount encoded, .register)] else []

/-- The format `f` with a count of type sets and the sets themselves appended; `byte` gives the
bytes of the instruction. -/
def typed (byte : ℕ → ℕ) (f : Format) : Format :=
  ⟨f.length + 1 + 2 * byte f.length, f.operands ++ typeSets (f.length + 1) (byte f.length)⟩

end Format

open Format in
/-- The format of an instruction, of which `byte` gives the bytes. -/
def DiamondOpCode.format (byte : ℕ → ℕ) : DiamondOpCode → Format
  | .nil | .boxLocal | .gets | .udpOpen | .programBuilderNew | .timeMonotonic | .exit | .argv
  | .env | .opReturn | .blockReturn | .blockBreak | .raise => registers 1
  | .toString | .move | .negate | .getCell | .setCell | .yield | .fiberNew | .timeParse
  | .fileDelete | .chr | .toFloat | .toInt | .toSymbol | .jsonStringify | .timeAt | .channelNew
  | .supervisorNew | .dirEntries | .tensorFromArray | .processRun | .processSpawn
  | .secureRandomBytes | .secureRandomHex | .digestSha256 | .digestSha1 | .gzipCompress
  | .base64Encode | .base64Decode | .caseHashShape | .checkHashKey | .postgresOpen | .className
  | .not => registers 2
  | .add | .addInt | .subtract | .multiply | .divide | .subtractInt | .multiplyInt | .divideInt
  | .less | .lessEqual | .greater | .greaterEqual | .equal | .notEqual | .equalInt | .notEqualInt
  | .lessInt | .lessEqualInt | .greaterInt | .greaterEqualInt | .fileOpen | .tcpConnectNonblock
  | .tcpListen | .tcpListenNonblock | .udpBind | .signalTrap | .jsonStringifyOptions | .regexpNew
  | .sqlite3Open | .shiftLeft | .shiftRight | .bitwiseAnd | .bitwiseOr | .bitwiseXor
  | .channelSelect | .tensorZeros | .processRunOptions | .processSpawnOptions | .bcryptHash
  | .bcryptVerify | .hmacSha256 | .hmacSha1 | .cipherEncrypt | .cipherDecrypt | .gzipDecompress
  | .modulo | .compare | .caseMatch | .caseHashHas | .hashRest | .sameClass | .indexGet
  | .indexSet => registers 3
  | .dnsResolve | .tcpConnect | .tlsStartHandshake | .tlsConnect | .channelSelectSend
  | .tensorRandom | .hmacVerify => registers 4
  | .tlsListen => registers 5
  | .mysqlOpen => registers 6
  | .addIntK | .subtractIntK | .multiplyIntK | .moduloIntK | .lessIntK | .lessEqualIntK
  | .greaterIntK | .greaterEqualIntK | .equalIntK | .notEqualIntK => registersAndConstant
  | .constant => ⟨5, [(1, .register), (3, .constant)]⟩
  | .string | .symbol => ⟨5, [(1, .register), (3, .string)]⟩
  | .indexGetString => ⟨7, [(1, .register), (3, .register), (5, .string)]⟩
  | .bool | .argumentProvided => ⟨5, [(1, .register)]⟩
  | .collectVariadic => ⟨7, [(1, .register), (1, .registers (1 + (byte 5 <<< 8 ||| byte 6)))]⟩
  | .jump => ⟨3, [(1, .target)]⟩
  | .jumpIfFalse | .jumpIfTrue => ⟨5, [(1, .register), (3, .target)]⟩
  | .call | .tailCall => ⟨8, [(1, .register), (3, .function), (5, .registers (byte 7))]⟩
  | .callTyped =>
    typed byte ⟨8, [(1, .register), (3, .function), (5, .registers (byte 7))]⟩
  | .callClosure | .threadNew => ⟨8, [(1, .register), (3, .register), (5, .registers (byte 7))]⟩
  | .callSpread => ⟨7, [(1, .register), (3, .function), (5, .register)]⟩
  | .callTypedSpread => typed byte ⟨7, [(1, .register), (3, .function), (5, .register)]⟩
  | .callKeywordSpread => keywordSpread byte
  | .callTypedKeywordSpread => typed byte (keywordSpread byte)
  | .callClosureSpread => ⟨7, [(1, .register), (3, .register), (5, .register)]⟩
  | .callClosureKeywords =>
    ⟨8 + trailerLength (byte 7),
      [(1, .register), (3, .register), (5, .register)] ++ trailer 8 (byte 7)⟩
  | .buildSpreadArgs =>
    ⟨11, [(1, .register), (3, .registers (byte 5)), (6, .register),
      (8, .registers (byte 10 &&& 0x7f))]⟩
  | .invokeSpread => ⟨9, [(1, .register), (3, .register), (5, .string), (7, .register)]⟩
  | .invokeKeywords => invokeKeywords byte
  | .invokeTypedKeywords => typed byte (invokeKeywords byte)
  | .invokeTypedSpread =>
    typed byte ⟨9, [(1, .register), (3, .register), (5, .string), (7, .register)]⟩
  | .newSpread => ⟨7, [(1, .register), (5, .register)]⟩
  | .newTyped =>
    ⟨10 + trailerLength (byte 9),
      [(1, .register), (5, .typeSet), (7, .register)] ++ trailer 10 (byte 9)⟩
  | .newKeywords =>
    ⟨8 + trailerLength (byte 7), [(1, .register), (5, .register)] ++ trailer 8 (byte 7)⟩
  | .callSingletonSpread => ⟨10, [(1, .register), (3, .function), (5, .register)]⟩
  | .callTypedSingletonSpread =>
    typed byte ⟨10, [(1, .register), (3, .function), (5, .register)]⟩
  | .callSingletonKeywords => singletonKeywords byte
  | .callTypedSingletonKeywords => typed byte (singletonKeywords byte)
  | .getCapture | .getCaptureCell => ⟨5, [(1, .register)]⟩
  | .setCapture => ⟨5, [(3, .register)]⟩
  | .closure =>
    ⟨6 + 2 * byte 5, [(1, .register), (3, .function)] ++
      (List.range (byte 5)).map fun i => (6 + 2 * i, .register)⟩
  | .new => ⟨8, [(1, .register), (5, .registers (byte 7))]⟩
  | .redefineMethod | .defineMethod => ⟨9, [(1, .register), (5, .register), (7, .register)]⟩
  | .compileMethod =>
    ⟨13, [(1, .register), (5, .register), (7, .register), (9, .register), (11, .register)]⟩
  | .loadClass => ⟨5, [(1, .register)]⟩
  | .invokeSelfMethod => ⟨8, [(1, .register), (3, .string), (5, .registers (byte 7))]⟩
  | .print | .mathUnary => ⟨6, [(1, .register), (3, .register)]⟩
  | .fileJoin => ⟨6, [(1, .register), (3, .registers (byte 5))]⟩
  | .timeBuild => ⟨6, [(1, .register), (3, .registers (if byte 5 = 1 then 7 else 6))]⟩
  | .semver | .filePath | .mathBinary => ⟨8, [(1, .register), (3, .register), (5, .register)]⟩
  | .ioPoll => ⟨9, [(1, .register), (3, .register), (5, .register), (7, .register)]⟩
  | .invoke | .invokeMono =>
    ⟨10, [(1, .register), (3, .register), (5, .string), (7, .registers (byte 9))]⟩
  | .invokeTyped =>
    typed byte ⟨10, [(1, .register), (3, .register), (5, .string), (7, .registers (byte 9))]⟩
  | .super => ⟨10, [(1, .register), (5, .string), (7, .registers (byte 9))]⟩
  | .getIvar => ⟨7, [(1, .register), (3, .register)]⟩
  | .setIvar => ⟨7, [(1, .register), (5, .register)]⟩
  | .getIvarName => ⟨7, [(1, .register), (3, .register), (5, .string)]⟩
  | .setIvarName => ⟨7, [(1, .register), (3, .string), (5, .register)]⟩
  | .getNamespaceConstant => ⟨5, [(1, .register)]⟩
  | .setNamespaceConstant => ⟨5, [(3, .register)]⟩
  | .getCvar => ⟨7, [(1, .register)]⟩
  | .setCvar => ⟨7, [(5, .register)]⟩
  | .checkDestructureCount => ⟨5, [(1, .register)]⟩
  | .timeNow => ⟨4, [(1, .register)]⟩
  | .debugger => ⟨4 + 4 * byte 3, (1, .register) :: named 4 (byte 3)⟩
  | .breakpointCheck => ⟨12 + 4 * byte 3, (1, .register) :: named 12 (byte 3)⟩
  | .caseArrayShape | .arrayRest | .arrayMiddle | .arraySuffix =>
    ⟨7, [(1, .register), (3, .register)]⟩
  | .checkType => ⟨5, [(1, .register), (3, .typeSet)]⟩
  | .checkSelfReturn => ⟨7, [(1, .register), (3, .optionalTypeSet), (5, .register)]⟩
  | .isType => ⟨7, [(1, .register), (3, .register)]⟩
  | .array => ⟨7, [(1, .register), (3, .registers (byte 5 <<< 8 ||| byte 6))]⟩
  | .hash => ⟨7, [(1, .register), (3, .registers ((byte 5 <<< 8 ||| byte 6) * 2))]⟩
  | .pushRescue => ⟨14, [(1, .register), (12, .target)]⟩
  | .popRescue | .endEnsure => ⟨1, []⟩
  | .pushEnsure | .runEnsure => ⟨3, [(1, .target)]⟩
  | .unwindJump => ⟨4, [(2, .target)]⟩
where
  /-- A call of a function with an array of arguments and keywords for parameter slots. -/
  keywordSpread (byte : ℕ → ℕ) : Format :=
    ⟨8 + 3 * byte 7, [(1, .register), (3, .function), (5, .register)] ++
      (List.range (byte 7)).map fun i => (8 + 3 * i + 1, .register)⟩
  invokeKeywords (byte : ℕ → ℕ) : Format :=
    ⟨10 + trailerLength (byte 9),
      [(1, .register), (3, .register), (5, .string), (7, .register)] ++ trailer 10 (byte 9)⟩
  singletonKeywords (byte : ℕ → ℕ) : Format :=
    ⟨11 + trailerLength (byte 10),
      [(1, .register), (3, .function), (5, .register)] ++ trailer 11 (byte 10)⟩

namespace DiamondChunk

variable (c : DiamondChunk)

def formatAt (offset : ℕ) (op : DiamondOpCode) : Format := op.format fun i => c.byte (offset + i)

/-- The operand is in range; `starts` are the offsets a jump may go to. -/
def InRange (starts : List ℕ) (offset : ℕ) : ℕ × Role → Prop
  | (position, .register) => c.readOperand (offset + position) < c.registerWidth
  | (position, .registers count) => c.readOperand (offset + position) + count ≤ c.registerWidth
  | (position, .constant) => c.readOperand (offset + position) < c.constantCount
  | (position, .string) => c.readOperand (offset + position) < c.stringCount
  | (position, .function) => c.readOperand (offset + position) < c.functionCount
  | (position, .typeSet) => c.readOperand (offset + position) < c.typeSetCount
  | (position, .optionalTypeSet) =>
    c.readOperand (offset + position) = noTypeSet ∨ c.readOperand (offset + position) < c.typeSetCount
  | (position, .target) =>
    c.readOperand (offset + position) ∈ starts ∨ c.readOperand (offset + position) = c.codeCount

/-- The first `stop` bytes of the code split into complete instructions, which begin at `starts`. -/
inductive Splits : List ℕ → ℕ → Prop
  | nothing : Splits [] 0
  | next {starts offset op} (h : Splits starts offset) (hop : c.opcode offset = some op)
      (hend : offset + (c.formatAt offset op).length ≤ c.codeCount) :
      Splits (starts ++ [offset]) (offset + (c.formatAt offset op).length)

/-- The code splits into complete instructions with no tail left over, and every operand of every
instruction is in range. -/
def WellFormed : Prop :=
  ∃ starts, c.Splits starts c.codeCount ∧ ∀ offset ∈ starts, ∀ op, c.opcode offset = some op →
    ∀ operand ∈ (c.formatAt offset op).operands, c.InRange starts offset operand

end DiamondChunk

end Diamond.Bytecode
