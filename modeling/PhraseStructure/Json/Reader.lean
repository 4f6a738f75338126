/-!
# Reading JSON

Typed reading of JSON from the left. A reader takes what it reads from the front of the text and
gives the shorter text behind it, or the first fault it meets: the text ends too early, it is not
JSON at some place, or it is JSON of the wrong shape. A value of the wrong type is found out as soon
as it begins, or, if it is a scalar, when it has been read to its end.
-/

namespace PhraseStructure.Json

inductive Fault
  | truncated
  | malformed
  | mistyped
  deriving DecidableEq, Repr

def Fault.message : Fault → String
  | .truncated => "the text ends too early"
  | .malformed => "the text is not JSON"
  | .mistyped => "the document does not have the shape of a grammar"

/-- The text behind something that was read from the front of `text`. -/
abbrev Rest (text : List Char) := { rest : List Char // rest.length < text.length }

/-- The text behind something, or nothing, that was read from the front of `text`. -/
abbrev Suffix (text : List Char) := { rest : List Char // rest.length ≤ text.length }

abbrev Reader (α : Type) := (text : List Char) → Except Fault (α × Rest text)

variable {text : List Char}

namespace Rest

def tail (c : Char) (rest : List Char) : Rest (c :: rest) := ⟨rest, Nat.lt_succ_self _⟩

def afterFirst {c : Char} {rest : List Char} (r : Rest rest) : Rest (c :: rest) :=
  ⟨r.1, Nat.lt_succ_of_lt r.2⟩

def next (r : Rest text) (s : Rest r.1) : Rest text := ⟨s.1, Nat.lt_trans s.2 r.2⟩

/-- The text behind a second thing that may be missing. -/
def nextMaybe (r : Rest text) (s : Suffix r.1) : Rest text := ⟨s.1, Nat.lt_of_le_of_lt s.2 r.2⟩

def toSuffix (r : Rest text) : Suffix text := ⟨r.1, Nat.le_of_lt r.2⟩

end Rest

namespace Suffix

def all (text : List Char) : Suffix text := ⟨text, Nat.le_refl _⟩

/-- The text behind a first character and what may be after it. -/
def afterFirst {c : Char} {rest : List Char} (r : Suffix rest) : Rest (c :: rest) :=
  ⟨r.1, Nat.lt_succ_of_le r.2⟩

def next (r : Suffix text) (s : Rest r.1) : Rest text := ⟨s.1, Nat.lt_of_lt_of_le s.2 r.2⟩

def nextMaybe (r : Suffix text) (s : Suffix r.1) : Suffix text := ⟨s.1, Nat.le_trans s.2 r.2⟩

end Suffix

def isSpace (c : Char) : Bool := c == ' ' || c == '\n' || c == '\t' || c == '\r'

def skipSpace (text : List Char) : Suffix text :=
  ⟨text.dropWhile isSpace, (List.dropWhile_sublist isSpace).length_le⟩

/-- The first character that is no white space, with the text behind it. -/
def firstChar (text : List Char) : Option (Char × Rest text) :=
  match skipSpace text with
  | ⟨[], _⟩ => none
  | ⟨c :: rest, h⟩ => some (c, ⟨rest, h⟩)

def spaced {α : Type} (reader : Reader α) : Reader α := fun text => do
  let (value, rest) ← reader (skipSpace text).1
  return (value, (skipSpace text).next rest)

def expectChar (c : Char) : Reader Unit
  | [] => .error .truncated
  | d :: rest => if d = c then .ok ((), Rest.tail d rest) else .error .malformed

/-- Reads the characters of a keyword, `c` first. -/
def expectWord (c : Char) : List Char → Reader Unit
  | [] => expectChar c
  | d :: more => fun text => do
    let (_, rest) ← expectChar c text
    let (_, last) ← expectWord d more rest.1
    return ((), rest.next last)

/-- The parts of a number: its digits, and the power of ten that scales them. -/
structure Scaled where
  digits : List Char
  exponent : Int
  deriving DecidableEq, Repr

def digitValue (c : Char) : Nat := c.toNat - '0'.toNat

def digitsValue (digits : List Char) : Nat :=
  digits.foldl (fun n c => 10 * n + digitValue c) 0

/-- Reads digits, up to the last one at which the value still fits a word of 64 bits. Gives the
value and the number of digits left over. -/
def leadingWord (value : Nat) : List Char → Nat × Nat
  | [] => (value, 0)
  | c :: rest =>
    let next := 10 * value + digitValue c
    if next < Nat.pow 2 64 then leadingWord next rest else (value, rest.length + 1)

/-- Whether a number has no finite approximation by a float. -/
def Scaled.isHuge (n : Scaled) : Bool :=
  let (value, left) := leadingWord 0 n.digits
  let exponent := n.exponent + left
  value != 0 && exponent ≥ 0 &&
    (exponent > 308 || (Float.ofNat value * Float.ofScientific 1 false exponent.toNat).isInf)

def splitDigits (text : List Char) : List Char × Suffix text :=
  (text.takeWhile Char.isDigit,
    ⟨text.dropWhile Char.isDigit, (List.dropWhile_sublist Char.isDigit).length_le⟩)

/-- One digit at least. The fault of a text that ends before it is `atEnd`. -/
def someDigits (atEnd : Fault) : Reader (List Char)
  | [] => .error atEnd
  | c :: rest =>
    if c.isDigit then
      let (digits, last) := splitDigits rest
      .ok (c :: digits, last.afterFirst)
    else .error .malformed

/-- The digits of an integer, in which a leading zero stands alone. -/
def integerDigits (atEnd : Fault) : Reader (List Char)
  | '0' :: rest =>
    if rest.head?.any Char.isDigit then .error .malformed else .ok (['0'], Rest.tail '0' rest)
  | text => someDigits atEnd text

/-- The digits behind a decimal point, if there is one. -/
def fractionDigits (atEnd : Fault) (text : List Char) :
    Except Fault (List Char × Suffix text) :=
  match text with
  | '.' :: rest => do
    let (digits, last) ← someDigits atEnd rest
    return (digits, last.afterFirst.toSuffix)
  | text => .ok ([], Suffix.all text)

def isExponentMark (c : Char) : Bool := c == 'e' || c == 'E'

def exponentSign (text : List Char) : Int × Suffix text :=
  match text with
  | '-' :: rest => (-1, (Rest.tail '-' rest).toSuffix)
  | '+' :: rest => (1, (Rest.tail '+' rest).toSuffix)
  | text => (1, Suffix.all text)

/-- The exponent behind its mark, if there is one. -/
def exponentValue (atEnd : Fault) (text : List Char) : Except Fault (Int × Suffix text) :=
  match text with
  | [] => .ok (0, Suffix.all [])
  | c :: rest =>
    if isExponentMark c then do
      let (sign, unsigned) := exponentSign rest
      let (digits, last) ← someDigits atEnd unsigned.1
      return (sign * digitsValue digits, (unsigned.next last).afterFirst.toSuffix)
    else .ok (0, Suffix.all (c :: rest))

def number (atEnd : Fault) : Reader Scaled := fun text => do
  let (whole, rest₁) ← integerDigits atEnd text
  let (fraction, rest₂) ← fractionDigits atEnd rest₁.1
  let (exponent, rest₃) ← exponentValue atEnd rest₂.1
  return (⟨whole ++ fraction, exponent - fraction.length⟩,
    rest₁.nextMaybe (rest₂.nextMaybe rest₃))

def hexDigit? (c : Char) : Option Nat :=
  if c.isDigit then some (digitValue c)
  else if 'a' ≤ c && c ≤ 'f' then some (c.toNat - 'a'.toNat + 10)
  else if 'A' ≤ c && c ≤ 'F' then some (c.toNat - 'A'.toNat + 10)
  else none

/-- The number that four hexadecimal digits spell. A text of fewer than four bytes ends too
early. -/
def hexWord : Reader Nat
  | a :: b :: c :: d :: rest =>
    match hexDigit? a, hexDigit? b, hexDigit? c, hexDigit? d with
    | some k, some l, some m, some n =>
      .ok (((k * 16 + l) * 16 + m) * 16 + n,
        (Rest.tail d rest).afterFirst.afterFirst.afterFirst)
    | _, _, _, _ => .error .malformed
  | text => .error (if (String.ofList text).utf8ByteSize < 4 then .truncated else .malformed)

def isLeadingSurrogate (n : Nat) : Bool := 0xD800 ≤ n && n < 0xDC00

def isTrailingSurrogate (n : Nat) : Bool := 0xDC00 ≤ n && n < 0xE000

/-- The character of a `\u` escape, read behind the `u`. A leading surrogate needs a second escape
with a trailing one, and neither may come without the other. -/
def unicodeEscape : Reader Char := fun text => do
  let (n, rest₁) ← hexWord text
  if isTrailingSurrogate n then .error .malformed
  else if isLeadingSurrogate n then do
    let (_, rest₂) ← expectWord '\\' ['u'] rest₁.1
    let (m, rest₃) ← hexWord rest₂.1
    if isTrailingSurrogate m then
      return (Char.ofNat (0x10000 + (n - 0xD800) * 0x400 + (m - 0xDC00)),
        rest₁.next (rest₂.next rest₃))
    else .error .malformed
  else return (Char.ofNat n, rest₁)

/-- The character that a one-letter escape stands for. -/
def simpleEscape? : Char → Option Char
  | '"' => some '"'
  | '\\' => some '\\'
  | '/' => some '/'
  | 'b' => some '\x08'
  | 'f' => some '\x0c'
  | 'n' => some '\n'
  | 'r' => some '\r'
  | 't' => some '\t'
  | _ => none

/-- An escape, read behind the backslash. `unicode` reads what comes behind a `u`, and `simple` says
what an escape of one letter is. -/
def escapeWith {α : Type} (unicode : Reader α) (simple : Char → α) : Reader α
  | [] => .error .truncated
  | c :: rest =>
    if c = 'u' then do
      let (a, last) ← unicode rest
      return (a, last.afterFirst)
    else match simpleEscape? c with
      | some d => .ok (simple d, Rest.tail c rest)
      | none => .error .malformed

/-- The characters of a string, read behind its first quote. `escape` reads the escapes, and `plain`
says what any other character is. -/
def stringBody {α : Type} (escape : Reader α) (plain : Char → α) (text : List Char) :
    Except Fault (List α × Rest text) :=
  match text with
  | [] => .error .truncated
  | c :: rest =>
    if c = '"' then .ok ([], Rest.tail c rest)
    else if c = '\\' then do
      let (a, rest₁) ← escape rest
      let (more, rest₂) ← stringBody escape plain rest₁.1
      return (a :: more, (rest₁.next rest₂).afterFirst)
    else if c.toNat < 0x20 then .error .malformed
    else do
      let (more, rest₁) ← stringBody escape plain rest
      return (plain c :: more, rest₁.afterFirst)
termination_by text.length
decreasing_by
  · exact Nat.lt_succ_of_lt rest₁.2
  · exact Nat.lt_succ_self _

def stringText : Reader String := fun text => do
  let (chars, rest) ← stringBody (escapeWith unicodeEscape id) id text
  return (String.ofList chars, rest)

/-- A string of which only the form counts: surrogates need no partner. -/
def skipString : Reader Unit := fun text => do
  let unicode : Reader Unit := fun text => do
    let (_, rest) ← hexWord text
    return ((), rest)
  let (_, rest) ← stringBody (escapeWith unicode fun _ => ()) (fun _ => ()) text
  return ((), rest)

/-- The fault of a value that is not of the type wanted. Scalars are read to their end first, and
must be JSON; of arrays and objects the bracket is enough. -/
def wrongType : List Char → Fault
  | [] => .truncated
  | c :: rest =>
    let scalar : Except Fault Unit :=
      if c = 'n' then (expectWord 'u' ['l', 'l'] rest).map fun _ => ()
      else if c = 't' then (expectWord 'r' ['u', 'e'] rest).map fun _ => ()
      else if c = 'f' then (expectWord 'a' ['l', 's', 'e'] rest).map fun _ => ()
      else if c = '"' then (stringText rest).map fun _ => ()
      else if c = '[' || c = '\x7b' then .ok ()
      else if c = '-' || c.isDigit then do
        let (n, _) ← number .truncated (if c = '-' then rest else c :: rest)
        if n.isHuge then .error .malformed
      else .error .malformed
    match scalar with
    | .ok () => .mistyped
    | .error fault => fault

def string : Reader String := spaced fun
  | '"' :: rest => do
    let (value, last) ← stringText rest
    return (value, last.afterFirst)
  | text => .error (wrongType text)

def string? : Reader (Option String) := spaced fun
  | 'n' :: rest => do
    let (_, last) ← expectWord 'u' ['l', 'l'] rest
    return (none, last.afterFirst)
  | text => do
    let (value, rest) ← string text
    return (some value, rest)

/-- The next element of an array, if there is one. `first` says whether none has been read; behind
another element a comma has to come first. The bracket that ends the array is not read. -/
def nextElement {α : Type} (element : Reader α) (first : Bool) (text : List Char) :
    Except Fault (Option (α × Rest text)) :=
  match firstChar text with
  | none => .error .truncated
  | some (c, rest) =>
    if c = ']' then .ok none
    else if first then do
      let (a, last) ← element text
      return some (a, last)
    else if c = ',' then
      if (skipSpace rest.1).1.head? == some ']' then .error .malformed
      else do
        let (a, last) ← element rest.1
        return some (a, rest.next last)
    else .error .malformed

/-- The elements of an array, read behind its first bracket or behind another element. -/
def elements {α : Type} (element : Reader α) (first : Bool) (text : List Char) :
    Except Fault (List α × Suffix text) := do
  match ← nextElement element first text with
  | none => return ([], Suffix.all text)
  | some (a, rest) =>
    let (more, last) ← elements element false rest.1
    return (a :: more, (rest.nextMaybe last).toSuffix)
termination_by text.length
decreasing_by exact rest.2

def arrayEnd : Reader Unit := spaced (expectChar ']')

def array {α : Type} (element : Reader α) : Reader (List α) := spaced fun
  | '[' :: text => do
    let (as, rest) ← elements element true text
    let (_, last) ← arrayEnd rest.1
    return (as, (rest.next last).afterFirst)
  | text => .error (wrongType text)

/-- The key of the next member of an object, if there is one. `first` says whether none has been
read; behind another member a comma has to come first. The bracket that ends the object is not
read. -/
def nextKey (first : Bool) (text : List Char) : Except Fault (Option (String × Rest text)) :=
  match firstChar text with
  | none => .error .truncated
  | some (c, rest) =>
    if c = '\x7d' then .ok none
    else if first then
      if c = '"' then do
        let (key, last) ← stringText rest.1
        return some (key, rest.next last)
      else .error .malformed
    else if c = ',' then do
      let (_, rest₁) ← spaced (expectChar '"') rest.1
      let (key, rest₂) ← stringText rest₁.1
      return some (key, rest.next (rest₁.next rest₂))
    else .error .malformed

/-- The members of an object, read behind its first bracket or behind another member. `member` is
given what has been gathered so far and the key, and reads the colon and the value. -/
def members {σ : Type} (member : σ → String → Reader σ) (s : σ) (first : Bool)
    (text : List Char) : Except Fault (σ × Suffix text) := do
  match ← nextKey first text with
  | none => return (s, Suffix.all text)
  | some (key, rest₁) =>
    let (s, rest₂) ← member s key rest₁.1
    let (s, rest₃) ← members member s false rest₂.1
    return (s, (rest₁.next (rest₂.nextMaybe rest₃)).toSuffix)
termination_by text.length
decreasing_by exact Nat.lt_trans rest₂.2 rest₁.2

def objectEnd : Reader Unit := spaced (expectChar '\x7d')

/-- An object, of which the members are gathered from the left. -/
def object {σ : Type} (member : σ → String → Reader σ) (s : σ) : Reader σ := spaced fun
  | '\x7b' :: text => do
    let (s, rest) ← members member s true text
    let (_, last) ← objectEnd rest.1
    return (s, (rest.next last).afterFirst)
  | text => .error (wrongType text)

def colon : Reader Unit := spaced (expectChar ':')

def behindColon {α : Type} (value : Reader α) : Reader α := fun text => do
  let (_, rest) ← colon text
  let (a, last) ← value rest.1
  return (a, rest.next last)

end PhraseStructure.Json
