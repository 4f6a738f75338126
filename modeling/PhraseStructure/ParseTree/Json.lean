import PhraseStructure.ParseTree.Basic

/-!
# Trees as JSON

A string stands between quotes. Quotes, backslashes and the characters below U+0020 are escaped,
with one letter where JSON has a letter for them, and all others stand for themselves.

A tree is written as an object with its label and its content, and the content as an object with a
word or with the list of children: `{"label":"N","content":{"word":"door"}}`.
-/

namespace PhraseStructure

namespace Json

/-- The hexadecimal digit of a number below sixteen, in lower case. -/
def hexDigit (n : Nat) : Char := Char.ofNat (if n < 10 then '0'.toNat + n else 'a'.toNat + n - 10)

/-- The characters that stand for one character between quotes. -/
def escaped (c : Char) : List Char :=
  if c = '"' then ['\\', '"']
  else if c = '\\' then ['\\', '\\']
  else if c = '\x08' then ['\\', 'b']
  else if c = '\t' then ['\\', 't']
  else if c = '\n' then ['\\', 'n']
  else if c = '\x0c' then ['\\', 'f']
  else if c = '\r' then ['\\', 'r']
  else if c.toNat < 0x20 then ['\\', 'u', '0', '0', hexDigit (c.toNat / 16), hexDigit (c.toNat % 16)]
  else [c]

def quoted (s : String) : String := String.ofList ('"' :: s.toList.flatMap escaped ++ ['"'])

def arrayOf (values : List String) : String := "[" ++ ",".intercalate values ++ "]"

end Json

namespace ParseTree

open Json

/-- An object with a label and a content, of which the one member is `kind`. -/
def jsonNode (label kind content : String) : String :=
  "\x7b\"label\":" ++ quoted label ++ ",\"content\":\x7b\"" ++ kind ++ "\":" ++ content ++
    "\x7d\x7d"

mutual

/-- The JSON text of a tree, without white space. -/
def json : ParseTree → String
  | .leaf label word => jsonNode label "word" (quoted word)
  | .node label children => jsonNode label "children" (arrayOf (jsonAll children))

def jsonAll : List ParseTree → List String
  | [] => []
  | t :: ts => t.json :: jsonAll ts

end

theorem jsonAll_eq_map (ts : List ParseTree) : jsonAll ts = ts.map json := by
  induction ts <;> simp_all [jsonAll]

end ParseTree

end PhraseStructure
