/-!
# Why a script fails

Every way in which the evaluation of a script can end without success, and what is told about it: a
label, a sentence, and a number that other programs rely on. The numbers follow the order of the
list, and `none`, the number 0, stands for success where a number is needed for that too.
-/

namespace UtxoConsensus

inductive ScriptError where
  | none
  | unknown
  | evalFalse
  | opReturn
  | scriptSize
  | pushSize
  | opCount
  | stackSize
  | sigCount
  | pubkeyCount
  | inputSigChecks
  | invalidOperandSize
  | invalidNumberRange
  | impossibleEncoding
  | invalidSplitRange
  | invalidBitCount
  | verify
  | equalVerify
  | checkMultisigVerify
  | checkSigVerify
  | checkDataSigVerify
  | numEqualVerify
  | badOpcode
  | disabledOpcode
  | invalidStackOperation
  | invalidAltstackOperation
  | unbalancedConditional
  | divByZero
  | modByZero
  | invalidBitfieldSize
  | invalidBitRange
  | negativeLocktime
  | unsatisfiedLocktime
  | sigHashType
  | sigDer
  | minimalData
  | sigPushOnly
  | sigHighS
  | pubkeyType
  | cleanStack
  | minimalIf
  | sigNullFail
  | minimalNum
  | sigBadLength
  | sigNonSchnorr
  | discourageUpgradableNops
  | illegalForkId
  | mustUseForkId
  | sigChecksLimitExceeded
  | invalidNumberRange64Bit
  | contextNotPresent
  | limitedContextNoSiblingInfo
  | invalidTxInputIndex
  | invalidTxOutputIndex
deriving DecidableEq, Repr, Inhabited

namespace ScriptError

/-- The number that stands for an error outside the library. -/
def code (e : ScriptError) : Nat := e.ctorIdx

/-- The number of errors, success included. -/
def count : Nat := 54

def label : ScriptError → String
  | .none => "Ok"
  | .unknown => "Unknown"
  | .evalFalse => "EvalFalse"
  | .opReturn => "OpReturn"
  | .scriptSize => "ScriptSize"
  | .pushSize => "PushSize"
  | .opCount => "OpCount"
  | .stackSize => "StackSize"
  | .sigCount => "SigCount"
  | .pubkeyCount => "PubkeyCount"
  | .inputSigChecks => "InputSigChecks"
  | .invalidOperandSize => "InvalidOperandSize"
  | .invalidNumberRange => "InvalidNumberRange"
  | .impossibleEncoding => "ImpossibleEncoding"
  | .invalidSplitRange => "InvalidSplitRange"
  | .invalidBitCount => "InvalidBitCount"
  | .verify => "Verify"
  | .equalVerify => "EqualVerify"
  | .checkMultisigVerify => "CheckMultisigVerify"
  | .checkSigVerify => "CheckSigVerify"
  | .checkDataSigVerify => "CheckDataSigVerify"
  | .numEqualVerify => "NumEqualVerify"
  | .badOpcode => "BadOpcode"
  | .disabledOpcode => "DisabledOpcode"
  | .invalidStackOperation => "InvalidStackOperation"
  | .invalidAltstackOperation => "InvalidAltstackOperation"
  | .unbalancedConditional => "UnbalancedConditional"
  | .divByZero => "DivByZero"
  | .modByZero => "ModByZero"
  | .invalidBitfieldSize => "InvalidBitfieldSize"
  | .invalidBitRange => "InvalidBitRange"
  | .negativeLocktime => "NegativeLocktime"
  | .unsatisfiedLocktime => "UnsatisfiedLocktime"
  | .sigHashType => "SigHashType"
  | .sigDer => "SigDer"
  | .minimalData => "MinimalData"
  | .sigPushOnly => "SigPushOnly"
  | .sigHighS => "SigHighS"
  | .pubkeyType => "PubkeyType"
  | .cleanStack => "CleanStack"
  | .minimalIf => "MinimalIf"
  | .sigNullFail => "SigNullFail"
  | .minimalNum => "MinimalNum"
  | .sigBadLength => "SigBadLength"
  | .sigNonSchnorr => "SigNonSchnorr"
  | .discourageUpgradableNops => "DiscourageUpgradableNops"
  | .illegalForkId => "IllegalForkId"
  | .mustUseForkId => "MustUseForkId"
  | .sigChecksLimitExceeded => "SigChecksLimitExceeded"
  | .invalidNumberRange64Bit => "InvalidNumberRange64Bit"
  | .contextNotPresent => "ContextNotPresent"
  | .limitedContextNoSiblingInfo => "LimitedContextNoSiblingInfo"
  | .invalidTxInputIndex => "InvalidTxInputIndex"
  | .invalidTxOutputIndex => "InvalidTxOutputIndex"

def message : ScriptError → String
  | .none => "No error"
  | .unknown => "unknown error"
  | .evalFalse =>
    "Script evaluated without error but finished with a false/empty top stack element"
  | .opReturn => "OP_RETURN was encountered"
  | .scriptSize => "Script is too big"
  | .pushSize => "Push value size limit exceeded"
  | .opCount => "Operation limit exceeded"
  | .stackSize => "Stack size limit exceeded"
  | .sigCount => "Signature count negative or greater than pubkey count"
  | .pubkeyCount => "Pubkey count negative or limit exceeded"
  | .inputSigChecks => "Input SigChecks limit exceeded"
  | .invalidOperandSize => "Invalid operand size"
  | .invalidNumberRange =>
    "Given operand is not a number within the valid range [-2^31 + 1, 2^31 - 1]"
  | .impossibleEncoding => "The requested encoding is impossible to satisfy"
  | .invalidSplitRange => "Invalid OP_SPLIT range"
  | .invalidBitCount => "Invalid number of bit set in OP_CHECKMULTISIG"
  | .verify => "Script failed an OP_VERIFY operation"
  | .equalVerify => "Script failed an OP_EQUALVERIFY operation"
  | .checkMultisigVerify => "Script failed an OP_CHECKMULTISIGVERIFY operation"
  | .checkSigVerify => "Script failed an OP_CHECKSIGVERIFY operation"
  | .checkDataSigVerify => "Script failed an OP_CHECKDATASIGVERIFY operation"
  | .numEqualVerify => "Script failed an OP_NUMEQUALVERIFY operation"
  | .badOpcode => "Opcode missing or not understood"
  | .disabledOpcode => "Attempted to use a disabled opcode"
  | .invalidStackOperation => "Operation not valid with the current stack size"
  | .invalidAltstackOperation => "Operation not valid with the current altstack size"
  | .unbalancedConditional => "Invalid OP_IF construction"
  | .divByZero => "Division by zero error"
  | .modByZero => "Modulo by zero error"
  | .invalidBitfieldSize => "Bitfield of unexpected size error"
  | .invalidBitRange => "Bitfield's bit out of the expected range"
  | .negativeLocktime => "Negative locktime"
  | .unsatisfiedLocktime => "Locktime requirement not satisfied"
  | .sigHashType => "Signature hash type missing or not understood"
  | .sigDer => "Non-canonical DER signature"
  | .minimalData => "Data push larger than necessary"
  | .sigPushOnly => "Only push operators allowed in signatures"
  | .sigHighS => "Non-canonical signature: S value is unnecessarily high"
  | .pubkeyType => "Public key is neither compressed or uncompressed"
  | .cleanStack => "Script did not clean its stack"
  | .minimalIf => "OP_IF/NOTIF argument must be minimal"
  | .sigNullFail => "Signature must be zero for failed CHECK(MULTI)SIG operation"
  | .minimalNum => "Numbers on the stack must be minimally encoded"
  | .sigBadLength => "Signature has an invalid length"
  | .sigNonSchnorr => "Only Schnorr signatures allowed in this operation"
  | .discourageUpgradableNops => "NOPx reserved for soft-fork upgrades"
  | .illegalForkId => "Illegal use of SIGHASH_FORKID"
  | .mustUseForkId => "Signature must use SIGHASH_FORKID"
  | .sigChecksLimitExceeded => "Validation resources exceeded (SigChecks)"
  | .invalidNumberRange64Bit =>
    "Given operand is not a number within the valid range [-2^63 + 1, 2^63 - 1]"
  | .contextNotPresent => "Introspection opcode used without a script execution context"
  | .limitedContextNoSiblingInfo =>
    "Introspection of sibling inputs is not available in this context"
  | .invalidTxInputIndex => "Transaction input index out of range"
  | .invalidTxOutputIndex => "Transaction output index out of range"

/-- The error that a result amounts to. -/
def ofResult : Except ScriptError Unit → ScriptError
  | .ok () => .none
  | .error e => e

end ScriptError

end UtxoConsensus
