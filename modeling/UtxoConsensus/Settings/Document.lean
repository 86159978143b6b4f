import UtxoConsensus.Settings.Basic
import UtxoConsensus.Text.JsonValue

/-!
# Settings as JSON text

The text is an object with a member for each choice, or an array of the choices in a fixed order.
Choices that are left out have their standard values. Members with other names are ignored.
-/

namespace UtxoConsensus.Settings

open Text

inductive Field where
  | cacheSize
  | scriptFlags
  | parallelChecks
deriving DecidableEq

def Field.all : List Field :=
  [.cacheSize, .scriptFlags, .parallelChecks]

def Field.name : Field → String
  | .cacheSize => "max_sig_cache_size"
  | .scriptFlags => "script_flags"
  | .parallelChecks => "parallel_script_checks"

/-- Puts a choice into settings; the value has to be of the right kind. -/
def choose? (s : Settings) : Field → JsonValue → Option Settings
  | .cacheSize, .natural n => if n < UInt64.size then some { s with cacheMiB := n } else none
  | .scriptFlags, .null => some { s with flagOverride := none }
  | .scriptFlags, .natural n =>
    if n < UInt32.size then some { s with flagOverride := some ⟨UInt32.ofNat n⟩ } else none
  | .parallelChecks, .bool b => some { s with parallel := b }
  | _, _ => none

/-- Puts the members of an object into settings. No choice may be made twice. -/
def chooseMembers? (s : Settings) (made : List Field) :
    List (List JsonStringPart × JsonValue) → Option Settings
  | [] => some s
  | (key, value) :: rest => do
    let name := String.ofList (← JsonToken.characters? key)
    match Field.all.find? (·.name == name) with
    | none => chooseMembers? s made rest
    | some field =>
      if made.contains field then none
      else chooseMembers? (← s.choose? field value) (field :: made) rest

/-- The settings that a value describes. -/
def ofJson? : JsonValue → Option Settings
  | .object members => chooseMembers? standard [] members
  | .array items =>
    if items.length ≤ Field.all.length then
      (Field.all.zip items).foldlM (fun s (field, value) ↦ s.choose? field value) standard
    else none
  | _ => none

def parse (text : String) : Except SettingsError Settings :=
  match (JsonValue.parse? text).bind ofJson? with
  | none => .error .unreadable
  | some s => s.validate

end UtxoConsensus.Settings
