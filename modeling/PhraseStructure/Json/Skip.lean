import PhraseStructure.Json.Reader

/-!
# Values read past

A value that nobody wants is read past: it may nest to any depth, but must be JSON. The brackets
that are open around a place are kept as a stack. Numbers may be of any size, and surrogate escapes
need no partner.
-/

namespace PhraseStructure.Json

/-- A bracket that is still open. -/
inductive Frame
  | array
  | object
  deriving DecidableEq, Repr

def Frame.closer : Frame → Char
  | .array => ']'
  | .object => '\x7d'

def Frame.opened? (c : Char) : Option Frame :=
  if c = '[' then some .array else if c = '\x7b' then some .object else none

/-- A number without its sign, read past. Even one that ends too early is malformed. -/
def skipNumber : Reader Unit := fun text => do
  let (_, rest) ← number .malformed text
  return ((), rest)

/-- What stands in front of a value inside an open bracket: nothing in an array, and in an object a
key with its colon. -/
def skipKey (frame : Frame) (text : List Char) : Except Fault (Suffix text) :=
  match frame with
  | .array => .ok (Suffix.all text)
  | .object => do
    let (_, rest₁) ← spaced (expectChar '"') text
    let (_, rest₂) ← skipString rest₁.1
    let (_, rest₃) ← colon rest₂.1
    return (rest₁.next (rest₂.next rest₃)).toSuffix

def skipScalar (c : Char) (rest : List Char) : Except Fault (Suffix rest) :=
  let behind (reader : Reader Unit) : Except Fault (Suffix rest) := do
    let (_, last) ← reader rest
    return last.toSuffix
  if c = 'n' then behind (expectWord 'u' ['l', 'l'])
  else if c = 't' then behind (expectWord 'r' ['u', 'e'])
  else if c = 'f' then behind (expectWord 'a' ['l', 's', 'e'])
  else if c = '"' then behind skipString
  else if c = '-' then behind skipNumber
  else if c.isDigit then do
    let (_, last) ← skipNumber (c :: rest)
    return ⟨last.1, Nat.le_of_lt_succ last.2⟩
  else .error .malformed

mutual

/-- Reads past a value inside the open brackets, and past all that they still need. -/
def skipIn (frames : List Frame) (text : List Char) : Except Fault (Rest text) :=
  match firstChar text with
  | none => .error .truncated
  | some (c, rest) =>
    match Frame.opened? c with
    | none => do
      let value := rest.nextMaybe (← skipScalar c rest.1)
      return value.nextMaybe (← skipAfter frames value.1)
    | some frame =>
      match firstChar rest.1 with
      | none => .error .truncated
      | some (d, inner) =>
        if d = frame.closer then do
          let value := rest.next inner
          return value.nextMaybe (← skipAfter frames value.1)
        else do
          let value := rest.nextMaybe (← skipKey frame rest.1)
          return value.next (← skipIn (frame :: frames) value.1)
termination_by text.length
decreasing_by
  · exact value.2
  · exact value.2
  · exact value.2

/-- Reads past what the open brackets still need behind a value. -/
def skipAfter (frames : List Frame) (text : List Char) : Except Fault (Suffix text) :=
  match frames with
  | [] => .ok (Suffix.all text)
  | frame :: outer =>
    match firstChar text with
    | none => .error .truncated
    | some (c, rest) =>
      if c = frame.closer then do
        return (rest.nextMaybe (← skipAfter outer rest.1)).toSuffix
      else if c = ',' then do
        let value := rest.nextMaybe (← skipKey frame rest.1)
        return (value.next (← skipIn (frame :: outer) value.1)).toSuffix
      else .error .malformed
termination_by text.length
decreasing_by
  · exact rest.2
  · exact value.2

end

def skipValue : Reader Unit := fun text => do
  let rest ← skipIn [] text
  return ((), rest)

end PhraseStructure.Json
