import UtxoConsensus.Text.JsonToken

/-!
# Values of JSON text

The tokens are read one after the other. What has been read so far is a value that is complete, or a
list of containers that are open, the innermost first, each with the members it has. Containers may
be nested only so far.
-/

namespace UtxoConsensus.Text

/-- A value. Its keys and strings are kept as they are written. -/
inductive JsonValue where
  | null
  | bool (b : Bool)
  | natural (n : Nat)
  | otherNumber
  | string (parts : List JsonStringPart)
  | array (items : List JsonValue)
  | object (members : List (List JsonStringPart × JsonValue))

namespace JsonValue

/-- How many containers may be open at a time. -/
def maxNesting : Nat := 127

/-- A container that is open, with the members that it has, the latest first. -/
inductive Frame where
  | array (items : List JsonValue)
  | object (members : List (List JsonStringPart × JsonValue))
  /-- An object whose last key has no value yet. -/
  | member (members : List (List JsonStringPart × JsonValue)) (key : List JsonStringPart)

/-- What has been read, and what may come next. -/
inductive Progress where
  /-- A value comes next. -/
  | value (frames : List Frame)
  /-- An array was opened: its first item or its end comes next. -/
  | firstItem (frames : List Frame)
  /-- An object was opened: its first key or its end comes next. -/
  | firstKey (frames : List Frame)
  /-- Another key comes next. -/
  | key (members : List (List JsonStringPart × JsonValue)) (frames : List Frame)
  /-- A colon comes next. -/
  | colon (members : List (List JsonStringPart × JsonValue)) (key : List JsonStringPart)
    (frames : List Frame)
  /-- A container has just got a member: a comma or its end comes next. -/
  | separator (frame : Frame) (frames : List Frame)
  /-- Nothing may follow. -/
  | complete (v : JsonValue)

/-- A value is complete: it is all there is, or the next member of the innermost container. -/
def deliver (v : JsonValue) : List Frame → Option Progress
  | [] => some (.complete v)
  | .array items :: frames => some (.separator (.array (v :: items)) frames)
  | .member members key :: frames => some (.separator (.object ((key, v) :: members)) frames)
  | .object _ :: _ => none

/-- Opens a container, if the nesting allows for it. -/
def enter (frames : List Frame) (opened : List Frame → Progress) : Option Progress :=
  if frames.length < maxNesting then some (opened frames) else none

/-- Begins a value, or completes one that is a single token. -/
def begin (frames : List Frame) : JsonToken → Option Progress
  | .null => deliver .null frames
  | .bool b => deliver (.bool b) frames
  | .natural n => deliver (.natural n) frames
  | .otherNumber => deliver .otherNumber frames
  | .string parts => deliver (.string parts) frames
  | .openArray => enter frames .firstItem
  | .openObject => enter frames .firstKey
  | _ => none

def Progress.step : Progress → JsonToken → Option Progress
  | .value frames, token => begin frames token
  | .firstItem frames, .closeArray => deliver (.array []) frames
  | .firstItem frames, token => begin (.array [] :: frames) token
  | .firstKey frames, .closeObject => deliver (.object []) frames
  | .firstKey frames, .string parts => some (.colon [] parts frames)
  | .key members frames, .string parts => some (.colon members parts frames)
  | .colon members name frames, .colon => some (.value (.member members name :: frames))
  | .separator (.array items) frames, .comma => some (.value (.array items :: frames))
  | .separator (.array items) frames, .closeArray => deliver (.array items.reverse) frames
  | .separator (.object members) frames, .comma => some (.key members frames)
  | .separator (.object members) frames, .closeObject => deliver (.object members.reverse) frames
  | _, _ => none

def ofTokens? (tokens : List JsonToken) : Option JsonValue :=
  match tokens.foldlM Progress.step (.value []) with
  | some (.complete v) => some v
  | _ => none

def parse? (text : String) : Option JsonValue := do
  ofTokens? (← JsonToken.ofChars? text.toList)

end JsonValue

end UtxoConsensus.Text
