/-!
# Opcodes

Each instruction of a script begins with a byte. Bytes up to 0x4e push data that follows them in the
script; the bytes above name an `Operation`, or nothing. Operations with a common shape share a
constructor, so that what they have in common is said once.
-/

namespace UtxoConsensus

/-! ## Operations -/

/-- Rearrangements of the stack. -/
inductive StackOp where
  | toAltStack
  | fromAltStack
  | drop2
  | dup2
  | dup3
  | over2
  | rot2
  | swap2
  | ifDup
  | depth
  | drop
  | dup
  | nip
  | over
  | pick
  | roll
  | rot
  | swap
  | tuck
deriving DecidableEq

/-- Operations on elements as byte strings. -/
inductive SpliceOp where
  | cat
  | split
  | numToBin
  | binToNum
  | size
  | reverseBytes
deriving DecidableEq

/-- Operations on the bits of two elements of equal length. -/
inductive BitwiseOp where
  | and
  | or
  | xor
deriving DecidableEq

inductive UnaryOp where
  | addOne
  | subOne
  | negate
  | abs
  | not
  | notZero
deriving DecidableEq

inductive BinaryOp where
  | add
  | sub
  | mul
  | div
  | mod
  | boolAnd
  | boolOr
  | numEqual
  | numNotEqual
  | lessThan
  | greaterThan
  | lessOrEqual
  | greaterOrEqual
  | min
  | max
deriving DecidableEq

inductive HashOp where
  | ripemd160
  | sha1
  | sha256
  | hash160
  | hash256
deriving DecidableEq

/-- The opcodes that are looked at in branches that are not taken, too. -/
inductive BranchOp where
  | ifTrue
  | ifFalse
  | otherwise
  | endIf
  /-- Two opcodes that must not stand in a script at all. -/
  | forbidden
deriving DecidableEq

inductive TransactionField where
  | inputIndex
  | activeBytecode
  | version
  | inputCount
  | outputCount
  | lockTime
deriving DecidableEq

/-- What can be read of an input, and of the coin that it spends. -/
inductive InputField where
  | coinValue
  | coinBytecode
  | outpointHash
  | outpointIndex
  | bytecode
  | sequence
deriving DecidableEq

inductive OutputField where
  | value
  | bytecode
deriving DecidableEq

/-- Whether tokens are read from a coin that is spent or from an output that is created. -/
inductive TokenSide where
  | coin
  | output
deriving DecidableEq

inductive TokenField where
  | category
  | commitment
  | amount
deriving DecidableEq

/-- What an opcode above the pushes asks for. Those with `verify` come in two forms, which leave
their result on the stack or fail without it. -/
inductive Operation where
  | number (n : Int)
  | nop
  | upgradableNop
  | checkLockTime
  | checkSequence
  | branch (op : BranchOp)
  | verify
  | fail
  | stack (op : StackOp)
  | splice (op : SpliceOp)
  | bitwise (op : BitwiseOp)
  | equal (verify : Bool)
  | unary (op : UnaryOp)
  | binary (op : BinaryOp)
  | numEqualVerify
  | within
  | hash (op : HashOp)
  | codeSeparator
  | checkSig (verify : Bool)
  | checkMultisig (verify : Bool)
  | checkDataSig (verify : Bool)
  | transactionField (field : TransactionField)
  | inputField (field : InputField)
  | outputField (field : OutputField)
  | tokenField (side : TokenSide) (field : TokenField)
  | invalid
deriving DecidableEq

/-! ## Bytes -/

namespace Opcode

def pushData1 : UInt8 := 0x4c
def pushData2 : UInt8 := 0x4d
def pushData4 : UInt8 := 0x4e
def negativeOne : UInt8 := 0x4f
def one : UInt8 := 0x51
def sixteen : UInt8 := 0x60
def ret : UInt8 := 0x6a
def dup : UInt8 := 0x76
def equal : UInt8 := 0x87
def equalVerify : UInt8 := 0x88
def mul : UInt8 := 0x95
def hash160 : UInt8 := 0xa9
def hash256 : UInt8 := 0xaa
def codeSeparator : UInt8 := 0xab
def checkSig : UInt8 := 0xac

/-- The opcodes that were switched off for good: the complement of bits, doubling, halving, and the
two shifts. -/
def switchedOff : List UInt8 := [0x83, 0x8d, 0x8e, 0x98, 0x99]

/-- The highest opcode that is not open for later use. -/
def max : UInt8 := 0xd5

def isPositiveNumber (opcode : UInt8) : Bool :=
  decide (one ≤ opcode) && decide (opcode ≤ sixteen)

/-- The number that one of the opcodes for 0 to 16 pushes. -/
def smallNumber (opcode : UInt8) : UInt8 :=
  if opcode = 0 then 0 else opcode - 0x50

def ofSmallNumber (n : UInt8) : UInt8 :=
  if n = 0 then 0 else 0x50 + n

/-- The bytes that have a name, with their names. -/
def names : List (UInt8 × String) :=
  [(0x00, "0"), (0x4c, "OP_PUSHDATA1"), (0x4d, "OP_PUSHDATA2"), (0x4e, "OP_PUSHDATA4"),
    (0x4f, "-1"), (0x50, "OP_RESERVED"), (0x51, "1"), (0x52, "2"), (0x53, "3"), (0x54, "4"),
    (0x55, "5"), (0x56, "6"), (0x57, "7"), (0x58, "8"), (0x59, "9"), (0x5a, "10"), (0x5b, "11"),
    (0x5c, "12"), (0x5d, "13"), (0x5e, "14"), (0x5f, "15"), (0x60, "16"), (0x61, "OP_NOP"),
    (0x62, "OP_VER"), (0x63, "OP_IF"), (0x64, "OP_NOTIF"), (0x65, "OP_VERIF"),
    (0x66, "OP_VERNOTIF"), (0x67, "OP_ELSE"), (0x68, "OP_ENDIF"), (0x69, "OP_VERIFY"),
    (0x6a, "OP_RETURN"), (0x6b, "OP_TOALTSTACK"), (0x6c, "OP_FROMALTSTACK"), (0x6d, "OP_2DROP"),
    (0x6e, "OP_2DUP"), (0x6f, "OP_3DUP"), (0x70, "OP_2OVER"), (0x71, "OP_2ROT"),
    (0x72, "OP_2SWAP"), (0x73, "OP_IFDUP"), (0x74, "OP_DEPTH"), (0x75, "OP_DROP"),
    (0x76, "OP_DUP"), (0x77, "OP_NIP"), (0x78, "OP_OVER"), (0x79, "OP_PICK"), (0x7a, "OP_ROLL"),
    (0x7b, "OP_ROT"), (0x7c, "OP_SWAP"), (0x7d, "OP_TUCK"), (0x7e, "OP_CAT"), (0x7f, "OP_SPLIT"),
    (0x80, "OP_NUM2BIN"), (0x81, "OP_BIN2NUM"), (0x82, "OP_SIZE"), (0x83, "OP_INVERT"),
    (0x84, "OP_AND"), (0x85, "OP_OR"), (0x86, "OP_XOR"), (0x87, "OP_EQUAL"),
    (0x88, "OP_EQUALVERIFY"), (0x89, "OP_RESERVED1"), (0x8a, "OP_RESERVED2"), (0x8b, "OP_1ADD"),
    (0x8c, "OP_1SUB"), (0x8d, "OP_2MUL"), (0x8e, "OP_2DIV"), (0x8f, "OP_NEGATE"),
    (0x90, "OP_ABS"), (0x91, "OP_NOT"), (0x92, "OP_0NOTEQUAL"), (0x93, "OP_ADD"),
    (0x94, "OP_SUB"), (0x95, "OP_MUL"), (0x96, "OP_DIV"), (0x97, "OP_MOD"), (0x98, "OP_LSHIFT"),
    (0x99, "OP_RSHIFT"), (0x9a, "OP_BOOLAND"), (0x9b, "OP_BOOLOR"), (0x9c, "OP_NUMEQUAL"),
    (0x9d, "OP_NUMEQUALVERIFY"), (0x9e, "OP_NUMNOTEQUAL"), (0x9f, "OP_LESSTHAN"),
    (0xa0, "OP_GREATERTHAN"), (0xa1, "OP_LESSTHANOREQUAL"), (0xa2, "OP_GREATERTHANOREQUAL"),
    (0xa3, "OP_MIN"), (0xa4, "OP_MAX"), (0xa5, "OP_WITHIN"), (0xa6, "OP_RIPEMD160"),
    (0xa7, "OP_SHA1"), (0xa8, "OP_SHA256"), (0xa9, "OP_HASH160"), (0xaa, "OP_HASH256"),
    (0xab, "OP_CODESEPARATOR"), (0xac, "OP_CHECKSIG"), (0xad, "OP_CHECKSIGVERIFY"),
    (0xae, "OP_CHECKMULTISIG"), (0xaf, "OP_CHECKMULTISIGVERIFY"), (0xb0, "OP_NOP1"),
    (0xb1, "OP_CHECKLOCKTIMEVERIFY"), (0xb2, "OP_CHECKSEQUENCEVERIFY"), (0xb3, "OP_NOP4"),
    (0xb4, "OP_NOP5"), (0xb5, "OP_NOP6"), (0xb6, "OP_NOP7"), (0xb7, "OP_NOP8"), (0xb8, "OP_NOP9"),
    (0xb9, "OP_NOP10"), (0xba, "OP_CHECKDATASIG"), (0xbb, "OP_CHECKDATASIGVERIFY"),
    (0xbc, "OP_REVERSEBYTES"), (0xc0, "OP_INPUTINDEX"), (0xc1, "OP_ACTIVEBYTECODE"),
    (0xc2, "OP_TXVERSION"), (0xc3, "OP_TXINPUTCOUNT"), (0xc4, "OP_TXOUTPUTCOUNT"),
    (0xc5, "OP_TXLOCKTIME"), (0xc6, "OP_UTXOVALUE"), (0xc7, "OP_UTXOBYTECODE"),
    (0xc8, "OP_OUTPOINTTXHASH"), (0xc9, "OP_OUTPOINTINDEX"), (0xca, "OP_INPUTBYTECODE"),
    (0xcb, "OP_INPUTSEQUENCENUMBER"), (0xcc, "OP_OUTPUTVALUE"), (0xcd, "OP_OUTPUTBYTECODE"),
    (0xce, "OP_UTXOTOKENCATEGORY"), (0xcf, "OP_UTXOTOKENCOMMITMENT"),
    (0xd0, "OP_UTXOTOKENAMOUNT"), (0xd1, "OP_OUTPUTTOKENCATEGORY"),
    (0xd2, "OP_OUTPUTTOKENCOMMITMENT"), (0xd3, "OP_OUTPUTTOKENAMOUNT"), (0xd4, "OP_RESERVED3"),
    (0xd5, "OP_RESERVED4"), (0xef, "SPECIAL_TOKEN_PREFIX")]

def name (opcode : UInt8) : String :=
  (names.lookup opcode).getD "OP_UNKNOWN"

end Opcode

/-- The operation that an opcode names. -/
def Operation.ofOpcode (opcode : UInt8) : Operation :=
  if Opcode.isPositiveNumber opcode then .number (Opcode.smallNumber opcode).toNat
  else match opcode.toNat with
  | 0x4f => .number (-1)
  | 0x61 => .nop
  | 0x63 => .branch .ifTrue
  | 0x64 => .branch .ifFalse
  | 0x65 => .branch .forbidden
  | 0x66 => .branch .forbidden
  | 0x67 => .branch .otherwise
  | 0x68 => .branch .endIf
  | 0x69 => .verify
  | 0x6a => .fail
  | 0x6b => .stack .toAltStack
  | 0x6c => .stack .fromAltStack
  | 0x6d => .stack .drop2
  | 0x6e => .stack .dup2
  | 0x6f => .stack .dup3
  | 0x70 => .stack .over2
  | 0x71 => .stack .rot2
  | 0x72 => .stack .swap2
  | 0x73 => .stack .ifDup
  | 0x74 => .stack .depth
  | 0x75 => .stack .drop
  | 0x76 => .stack .dup
  | 0x77 => .stack .nip
  | 0x78 => .stack .over
  | 0x79 => .stack .pick
  | 0x7a => .stack .roll
  | 0x7b => .stack .rot
  | 0x7c => .stack .swap
  | 0x7d => .stack .tuck
  | 0x7e => .splice .cat
  | 0x7f => .splice .split
  | 0x80 => .splice .numToBin
  | 0x81 => .splice .binToNum
  | 0x82 => .splice .size
  | 0x84 => .bitwise .and
  | 0x85 => .bitwise .or
  | 0x86 => .bitwise .xor
  | 0x87 => .equal false
  | 0x88 => .equal true
  | 0x8b => .unary .addOne
  | 0x8c => .unary .subOne
  | 0x8f => .unary .negate
  | 0x90 => .unary .abs
  | 0x91 => .unary .not
  | 0x92 => .unary .notZero
  | 0x93 => .binary .add
  | 0x94 => .binary .sub
  | 0x95 => .binary .mul
  | 0x96 => .binary .div
  | 0x97 => .binary .mod
  | 0x9a => .binary .boolAnd
  | 0x9b => .binary .boolOr
  | 0x9c => .binary .numEqual
  | 0x9d => .numEqualVerify
  | 0x9e => .binary .numNotEqual
  | 0x9f => .binary .lessThan
  | 0xa0 => .binary .greaterThan
  | 0xa1 => .binary .lessOrEqual
  | 0xa2 => .binary .greaterOrEqual
  | 0xa3 => .binary .min
  | 0xa4 => .binary .max
  | 0xa5 => .within
  | 0xa6 => .hash .ripemd160
  | 0xa7 => .hash .sha1
  | 0xa8 => .hash .sha256
  | 0xa9 => .hash .hash160
  | 0xaa => .hash .hash256
  | 0xab => .codeSeparator
  | 0xac => .checkSig false
  | 0xad => .checkSig true
  | 0xae => .checkMultisig false
  | 0xaf => .checkMultisig true
  | 0xb0 => .upgradableNop
  | 0xb1 => .checkLockTime
  | 0xb2 => .checkSequence
  | 0xb3 => .upgradableNop
  | 0xb4 => .upgradableNop
  | 0xb5 => .upgradableNop
  | 0xb6 => .upgradableNop
  | 0xb7 => .upgradableNop
  | 0xb8 => .upgradableNop
  | 0xb9 => .upgradableNop
  | 0xba => .checkDataSig false
  | 0xbb => .checkDataSig true
  | 0xbc => .splice .reverseBytes
  | 0xc0 => .transactionField .inputIndex
  | 0xc1 => .transactionField .activeBytecode
  | 0xc2 => .transactionField .version
  | 0xc3 => .transactionField .inputCount
  | 0xc4 => .transactionField .outputCount
  | 0xc5 => .transactionField .lockTime
  | 0xc6 => .inputField .coinValue
  | 0xc7 => .inputField .coinBytecode
  | 0xc8 => .inputField .outpointHash
  | 0xc9 => .inputField .outpointIndex
  | 0xca => .inputField .bytecode
  | 0xcb => .inputField .sequence
  | 0xcc => .outputField .value
  | 0xcd => .outputField .bytecode
  | 0xce => .tokenField .coin .category
  | 0xcf => .tokenField .coin .commitment
  | 0xd0 => .tokenField .coin .amount
  | 0xd1 => .tokenField .output .category
  | 0xd2 => .tokenField .output .commitment
  | 0xd3 => .tokenField .output .amount
  | _ => .invalid

end UtxoConsensus
