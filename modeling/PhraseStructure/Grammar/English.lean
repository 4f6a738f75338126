import PhraseStructure.Grammar.RuleText

/-!
# A small English grammar

The grammar that is used when no other is given: simple and coordinated sentences over a small
lexicon, with the start symbol `S`.
-/

namespace PhraseStructure

namespace English

/-- The phrases. -/
def phraseRules : String :=
  r#"
S -> NP VP | NP VP Conj VP | NP VP Conj S | NP Adv VP
NP -> N | Det NP | N PP | Det NP PP | Adj NP
VP -> V | V Adv | V PP | V NP | V NP Adv | V NP PP
PP -> P NP | Conj S
"#

/-- The lexicon. -/
def wordRules : String :=
  r#"
Adj -> "country" | "dreadful" | "enigmatical" | "little" | "moist" | "red"
Adv -> "down" | "here" | "never"
Conj -> "and" | "until"
Det -> "a" | "an" | "his" | "my" | "the"
N -> "armchair" | "companion" | "day" | "door" | "hand" | "he" | "himself"
N -> "holmes" | "home" | "i" | "mess" | "paint" | "palm" | "pipe" | "she"
N -> "smile" | "thursday" | "walk" | "we" | "word"
P -> "at" | "before" | "in" | "of" | "on" | "to"
V -> "arrived" | "came" | "chuckled" | "had" | "lit" | "said" | "sat"
V -> "smiled" | "tell" | "were"
"#

end English

/-- The English grammar. -/
def Grammar.english : Except GrammarError Grammar :=
  (Grammar.ofRuleText (English.phraseRules ++ English.wordRules)).map
    fun g => { g with name := "english" }

end PhraseStructure
