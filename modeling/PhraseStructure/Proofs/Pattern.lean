import Mathlib.Tactic
import PhraseStructure.Proofs.Lowercase
import PhraseStructure.Token

/-!
# The pattern of raw tokens

A pattern can match at the start of a text in several ways, and the preferred one counts: a left
alternative is preferred to a right one, and more repetitions are preferred to fewer. Raw tokens are
the matches of the pattern `\w+(?:-\w+)*|'\w+|[^\w\s]+`, found from left to right, each behind the
one before it. No way that is preferred fails late, so that raw tokens can be read without going
back.
-/

namespace PhraseStructure

inductive Pattern
  | char (p : Char → Bool)
  | seq (a b : Pattern)
  | alt (a b : Pattern)
  | many (a : Pattern)

namespace Pattern

/-- What repetitions of a match can leave of a text, the most repetitions first. A match of nothing
is not repeated. -/
def repeats (rests : List Char → List (List Char)) : (limit : Nat) → List Char → List (List Char)
  | 0, text => [text]
  | limit + 1, text =>
    ((rests text).filter (·.length < text.length)).flatMap (repeats rests limit) ++ [text]

/-- What the matches at the start of a text can leave of it, the preferred match first. -/
def rests : Pattern → List Char → List (List Char)
  | char _, [] => []
  | char p, c :: rest => if p c then [rest] else []
  | seq a b, text => (rests a text).flatMap (rests b)
  | alt a b, text => rests a text ++ rests b text
  | many a, text => repeats (rests a) text.length text

/-- The matches in a text from left to right, each the preferred one at the first place behind the
one before it where there is any. -/
def findAll (pattern : Pattern) : List Char → List (List Char)
  | [] => []
  | c :: text =>
    match (pattern.rests (c :: text)).head? with
    | none => findAll pattern text
    | some rest =>
      if rest.length ≤ text.length then
        (c :: text).take (text.length + 1 - rest.length) :: findAll pattern rest
      else findAll pattern text
termination_by text => text.length

def oneOrMore (p : Char → Bool) : Pattern := seq (char p) (many (char p))

/-- A word that a hyphen joins to the one before it. -/
def hyphenated : Pattern := seq (char (· == '-')) (oneOrMore Text.isWordChar)

def token : Pattern :=
  alt (seq (oneOrMore Text.isWordChar) (many hyphenated))
    (alt (seq (char (· == '\'')) (oneOrMore Text.isWordChar)) (oneOrMore Token.isMark))

theorem head?_flatMap {f : List Char → List (List Char)} (hf : ∀ text, f text ≠ [])
    (texts : List (List Char)) :
    (texts.flatMap f).head? = texts.head?.bind fun text => (f text).head? := by
  cases texts with
  | nil => rfl
  | cons text texts => exact List.head?_append_of_ne_nil _ (hf text)

theorem repeats_ne_nil (rests : List Char → List (List Char)) (limit : Nat) (text : List Char) :
    repeats rests limit text ≠ [] := by
  cases limit <;> simp [repeats]

theorem head?_repeats_succ {rests : List Char → List (List Char)} (limit : Nat)
    {text rest : List Char} (h : (rests text).head? = some rest) (hlt : rest.length < text.length) :
    (repeats rests (limit + 1) text).head? = (repeats rests limit rest).head? := by
  obtain ⟨more, hmore⟩ := List.head?_eq_some_iff.mp h
  rw [repeats, hmore, List.filter_cons_of_pos (by simpa using hlt), List.flatMap_cons,
    List.append_assoc]
  exact List.head?_append_of_ne_nil _ (repeats_ne_nil rests limit rest)

theorem repeats_of_head?_eq_none {rests : List Char → List (List Char)} (limit : Nat)
    {text : List Char} (h : (rests text).head? = none) : repeats rests limit text = [text] := by
  cases limit with
  | zero => rfl
  | succ limit =>
    rw [repeats, List.head?_eq_none_iff.mp h]
    rfl

theorem head?_repeats_char (p : Char → Bool) {text : List Char} {limit : Nat}
    (h : text.length ≤ limit) :
    (repeats (char p).rests limit text).head? = some (text.dropWhile p) := by
  induction text generalizing limit with
  | nil => rw [repeats_of_head?_eq_none limit rfl]; rfl
  | cons c rest ih =>
    obtain ⟨limit, rfl⟩ := Nat.exists_eq_add_one_of_ne_zero (Nat.ne_zero_of_lt h)
    by_cases hc : p c = true
    · have hhead : ((char p).rests (c :: rest)).head? = some rest := by simp [rests, hc]
      rw [head?_repeats_succ limit hhead (Nat.lt_succ_self _), ih (Nat.le_of_succ_le_succ h),
        List.dropWhile_cons_of_pos hc]
    · have hhead : ((char p).rests (c :: rest)).head? = none := by simp [rests, hc]
      rw [repeats_of_head?_eq_none _ hhead, List.dropWhile_cons_of_neg hc]
      rfl

theorem head?_oneOrMore (p : Char → Bool) (c : Char) (rest : List Char) :
    ((oneOrMore p).rests (c :: rest)).head? = if p c then some (rest.dropWhile p) else none := by
  rw [oneOrMore, rests, rests]
  split_ifs
  · simpa [rests] using head?_repeats_char p le_rfl
  · rfl

theorem head?_oneOrMore_word (text : List Char) :
    ((oneOrMore Text.isWordChar).rests text).head? =
      if Token.startsWord text then some (text.dropWhile Text.isWordChar) else none := by
  cases text with
  | nil => rfl
  | cons c rest =>
    rw [head?_oneOrMore, Token.startsWord]
    split_ifs with hc
    · rw [List.dropWhile_cons_of_pos hc]
    · rfl

theorem head?_hyphenated (rest : List Char) :
    (hyphenated.rests ('-' :: rest)).head? =
      if Token.startsWord rest then some (rest.dropWhile Text.isWordChar) else none := by
  rw [← head?_oneOrMore_word]
  simp [hyphenated, rests]

theorem head?_repeats_hyphenated {text : List Char} {limit : Nat} (h : text.length ≤ limit) :
    (repeats hyphenated.rests limit text).head? = some (Token.compound text).2 := by
  induction text using Token.compound.induct generalizing limit with
  | case1 rest hword word =>
    rename_i ih
    obtain ⟨limit, rfl⟩ := Nat.exists_eq_add_one_of_ne_zero (Nat.ne_zero_of_lt h)
    have hle := Token.length_split_le Text.isWordChar rest
    have hhead : (hyphenated.rests ('-' :: rest)).head? =
        some (Token.split Text.isWordChar rest).2 := by
      rw [head?_hyphenated, if_pos hword]
      rfl
    rw [head?_repeats_succ limit hhead (Nat.lt_succ_of_le hle),
      ih (hle.trans (Nat.le_of_succ_le_succ h)), Token.compound, if_pos hword]
  | case2 rest hword =>
    have hhead : (hyphenated.rests ('-' :: rest)).head? = none := by
      rw [head?_hyphenated, if_neg hword]
    rw [repeats_of_head?_eq_none limit hhead, Token.compound, if_neg hword]
    rfl
  | case3 text hhyphen =>
    have hhead : (hyphenated.rests text).head? = none := by
      cases text with
      | nil => rfl
      | cons c rest =>
        have hc : c ≠ '-' := fun hc => hhyphen rest (hc ▸ rfl)
        simp [hyphenated, rests, hc]
    rw [repeats_of_head?_eq_none limit hhead, Token.compound]
    · rfl
    · exact hhyphen

/-- The preferred match of a raw token is what reading without going back takes. -/
theorem head?_token (c : Char) (rest : List Char) :
    (token.rests (c :: rest)).head? =
      if Text.isBlank c then none else some (Token.tail c rest).2 := by
  have hcompound : ∀ text, (many hyphenated).rests text ≠ [] := fun text =>
    repeats_ne_nil hyphenated.rests text.length text
  have hword : ((seq (oneOrMore Text.isWordChar) (many hyphenated)).rests (c :: rest)).head? =
      if Text.isWordChar c then some (Token.compound (rest.dropWhile Text.isWordChar)).2
      else none := by
    rw [rests, head?_flatMap hcompound, head?_oneOrMore]
    split_ifs
    · exact head?_repeats_hyphenated le_rfl
    · rfl
  have hclitic : ((seq (char (· == '\'')) (oneOrMore Text.isWordChar)).rests (c :: rest)).head? =
      if c = '\'' ∧ Token.startsWord rest then some (rest.dropWhile Text.isWordChar) else none := by
    have hrest := head?_oneOrMore_word rest
    by_cases hc : c = '\''
    · simpa [rests, hc] using hrest
    · simp [rests, hc]
  have hmarks := head?_oneOrMore Token.isMark c rest
  rw [token, rests, List.head?_append, hword, rests, List.head?_append, hclitic, hmarks,
    Token.tail]
  cases hc : Text.isWordChar c with
  | true =>
    rw [Text.isBlank_of_isWordChar hc]
    rfl
  | false =>
    by_cases hclitic : c = '\'' ∧ Token.startsWord rest = true
    · have hblank : Text.isBlank '\'' = false := by decide
      simp [hclitic, hblank, Token.split]
    · cases hblank : Text.isBlank c <;> simp [hclitic, hblank, hc, Token.isMark, Token.split]

theorem take_cons_append (c : Char) (a b : List Char) :
    (c :: (a ++ b)).take ((a ++ b).length + 1 - b.length) = c :: a := by
  rw [← List.cons_append]
  apply List.take_left'
  rw [List.length_cons, List.length_append]
  omega

/-- The raw tokens of a text are the matches of the pattern. -/
theorem findAll_token (text : List Char) : token.findAll text = Token.raw text := by
  fun_induction Token.raw text with
  | case1 => rw [findAll]
  | case2 c rest hblank ih =>
    rw [findAll, head?_token, if_pos hblank]
    exact ih
  | case3 c rest hblank ih =>
    have hle := Token.length_tail_le c rest
    have htake := take_cons_append c (Token.tail c rest).1 (Token.tail c rest).2
    rw [Token.tail_append] at htake
    rw [findAll, head?_token, if_neg hblank]
    dsimp only
    rw [if_pos hle, htake, ih]

end Pattern

end PhraseStructure
