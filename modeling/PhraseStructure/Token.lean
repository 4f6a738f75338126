import PhraseStructure.Text.Alphabetic
import PhraseStructure.Text.Basic
import PhraseStructure.Text.Lowercase
import PhraseStructure.Text.WordChar

/-!
# Tokens

A raw token is, at the first place where one fits, a word or several words joined by hyphens, an
apostrophe with the word after it, or a run of characters that are neither blank nor characters of
words. Each takes as many characters as it can. A sentence is read as its raw tokens in lower case,
of which only those with an alphabetic character are kept.
-/

namespace PhraseStructure.Token

open Text

/-- Whether a character can stand in a run of punctuation. -/
def isMark (c : Char) : Bool := !isWordChar c && !isBlank c

def startsWord : List Char → Bool
  | [] => false
  | c :: _ => isWordChar c

/-- What `p` holds of at the start of the text, and the text after it. -/
def split (p : Char → Bool) (text : List Char) : List Char × List Char :=
  (text.takeWhile p, text.dropWhile p)

@[simp] theorem split_append (p : Char → Bool) (text : List Char) :
    (split p text).1 ++ (split p text).2 = text := List.takeWhile_append_dropWhile

theorem length_split_le (p : Char → Bool) (text : List Char) :
    (split p text).2.length ≤ text.length := (List.dropWhile_sublist p).length_le

/-- The words that hyphens join to the word before the text, and the text after them. -/
def compound (text : List Char) : List Char × List Char :=
  match text with
  | '-' :: rest =>
    if startsWord rest then
      let word := split isWordChar rest
      let more := compound word.2
      ('-' :: word.1 ++ more.1, more.2)
    else ([], text)
  | _ => ([], text)
termination_by text.length
decreasing_by
  have := length_split_le isWordChar rest
  simp only [List.length_cons]
  omega

@[simp] theorem compound_append (text : List Char) :
    (compound text).1 ++ (compound text).2 = text := by
  fun_induction compound text with
  | case1 rest h word more ih =>
    rw [List.append_assoc, ih]
    simp [word]
  | case2 => rfl
  | case3 => rfl

/-- What follows `c` in the raw token that starts with `c`, and the text after the token. -/
def tail (c : Char) (rest : List Char) : List Char × List Char :=
  if isWordChar c then
    let word := split isWordChar rest
    let more := compound word.2
    (word.1 ++ more.1, more.2)
  else if c = '\'' && startsWord rest then split isWordChar rest
  else split isMark rest

@[simp] theorem tail_append (c : Char) (rest : List Char) :
    (tail c rest).1 ++ (tail c rest).2 = rest := by
  unfold tail
  split
  · simp [List.append_assoc]
  · split <;> simp

theorem length_tail_le (c : Char) (rest : List Char) :
    (tail c rest).2.length ≤ rest.length := by
  have := congrArg List.length (tail_append c rest)
  rw [List.length_append] at this
  omega

/-- The raw tokens of a text, from left to right. -/
def raw : List Char → List (List Char)
  | [] => []
  | c :: rest =>
    if isBlank c then raw rest
    else (c :: (tail c rest).1) :: raw (tail c rest).2
termination_by text => text.length
decreasing_by
  · simp
  · have := length_tail_le c rest
    simp only [List.length_cons]
    omega

end Token

/-- The tokens of a sentence: its raw tokens in lower case that hold an alphabetic character. -/
def tokenize (sentence : String) : List String :=
  (((Token.raw sentence.toList).map Text.lowercase).filter (·.any Text.isAlphabetic)).map
    String.ofList

end PhraseStructure
