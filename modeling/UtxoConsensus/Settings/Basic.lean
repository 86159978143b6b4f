import UtxoConsensus.Script.Flags
import UtxoConsensus.Spend.Cache

/-!
# Settings

What the owner of a node may choose: how large the signature cache is, which script flags hold, and
whether inputs are verified in parallel.
-/

namespace UtxoConsensus

structure Settings where
  /-- The size of the signature cache in MiB, as it was asked for. -/
  cacheMiB : Nat
  /-- The flags that hold instead of the standard ones. -/
  flagOverride : Option ScriptFlags
  /-- Are the inputs of a transaction verified in parallel? The answers do not depend on it. -/
  parallel : Bool
deriving DecidableEq

inductive SettingsError where
  | unreadable
  | missingFile (path : String)
  | unknownFlags (bits : UInt32)
  | cleanStackWithoutP2sh
deriving DecidableEq

def SettingsError.message : SettingsError → String
  | .unreadable => "invalid consensus configuration"
  | .missingFile path => "failed to read configuration from " ++ path
  | .unknownFlags bits => "unknown script flag bits " ++ ScriptFlags.hexText bits
  | .cleanStackWithoutP2sh => "CLEANSTACK requires P2SH"

namespace Settings

/-- The settings where nothing is chosen. -/
def standard : Settings :=
  ⟨SignatureCache.defaultMiB, none, true⟩

/-- The size of the signature cache in MiB, within its bound. -/
def boundedCacheMiB (s : Settings) : Nat :=
  Nat.min s.cacheMiB SignatureCache.maxMiB

def flags (s : Settings) : ScriptFlags :=
  s.flagOverride.getD .standard

/-- Flags without a meaning are refused, and so is the demand for a clean stack where the script
behind a script hash does not run. -/
def validate (s : Settings) : Except SettingsError Settings :=
  match s.flagOverride with
  | none => .ok s
  | some flags =>
    if (ScriptFlags.ofBits? flags.bits).isNone then .error (.unknownFlags flags.bits)
    else if flags.contains .cleanStack && !flags.contains .p2sh then
      .error .cleanStackWithoutP2sh
    else .ok s

end Settings

end UtxoConsensus
