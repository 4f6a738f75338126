import PhraseStructure.Chart.Derivations
import PhraseStructure.CommandLine.Options
import PhraseStructure.Decimal.Fixed
import PhraseStructure.Grammar.RuleText

/-!
# The benchmark

A sentence with prepositional phrases is ambiguous, because each phrase may belong to any noun
phrase or verb phrase before it that is still open. The benchmark parses one sentence with ever
more phrases. It writes its measurements to a table with comma separated columns, in which times
have two decimal places, and prints how far it has come. A run is given here without the measured
columns.
-/

namespace PhraseStructure.Benchmark

def rules : String :=
  r#"
S -> NP VP
NP -> N | Det N | NP PP
VP -> V NP | VP PP
PP -> P NP
N -> "i" | "man" | "park" | "telescope" | "hill"
Det -> "the" | "a"
V -> "saw"
P -> "in" | "with" | "on"
"#

def grammar : Except GrammarError Grammar := Grammar.ofRuleText rules

def baseSentence : List String := ["i", "saw", "the", "man"]

/-- The phrase with number `n`: three phrases take turns. -/
def phrase (n : Nat) : List String :=
  match n % 3 with
  | 0 => ["on", "the", "hill"]
  | 1 => ["in", "the", "park"]
  | _ => ["with", "a", "telescope"]

/-- The sentence with `n` phrases. -/
def sentence (n : Nat) : List String := baseSentence ++ (List.range n).flatMap phrase

theorem length_phrase (n : Nat) : (phrase n).length = 3 := by
  unfold phrase
  split <;> rfl

theorem length_sentence (n : Nat) : (sentence n).length = 4 + 3 * n := by
  induction n with
  | zero => rfl
  | succ n ih =>
    simp only [sentence, List.range_succ, List.flatMap_append, List.length_append] at ih ⊢
    simp only [List.flatMap_cons, List.flatMap_nil, List.append_nil, length_phrase]
    omega

/-- The stages that are measured: building the chart, and also pulling trees from it. -/
inductive Stage
  | chart
  | enumerate
  deriving DecidableEq, Repr

def Stage.name : Stage → String
  | chart => "chart"
  | enumerate => "enumerate"

structure Measurement where
  phrases : Nat
  tokens : Nat
  derivations : Nat
  stage : Stage
  /-- The median of the times, in nanoseconds. -/
  median : Float
  /-- The median of their distances from it. -/
  deviation : Float
  /-- The peak of the memory in use, in bytes. -/
  memory : Nat
  iterations : Nat

def timePlaces : Nat := 2

def header : String :=
  "phrases,tokens,derivations,stage,median_time_ns,mad_ns,peak_memory_bytes,iterations"

/-- The columns that do not depend on the time and the memory that were needed. -/
def fixedColumns (phrases tokens derivations : Nat) (stage : Stage) : List String :=
  [phrases.repr, tokens.repr, derivations.repr, stage.name]

def Measurement.row (m : Measurement) : String :=
  ",".intercalate
    (fixedColumns m.phrases m.tokens m.derivations m.stage ++
      [Decimal.fixed timePlaces m.median, Decimal.fixed timePlaces m.deviation, m.memory.repr,
        m.iterations.repr])

/-- The median of times in ascending order: the middle one, or the mean of the two in the middle. -/
def median (sorted : Array Float) : Float :=
  let half := sorted.size / 2
  if sorted.size % 2 = 0 then (sorted.getD (half - 1) 0 + sorted.getD half 0) / 2
  else sorted.getD half 0

def directory : String := "results"

def table : String := directory ++ "/ambiguity.csv"

/-- The failure to prepare the table, if there is one: its directory is a file, or it is a directory
itself. A table that is there already is replaced. -/
def prepare (files : FileTree) : Except FileError Unit :=
  if (files.file? (Path.parts directory)).isSome then .error .alreadyExists
  else if files.isDirectory (Path.parts table) then .error .isDirectory
  else .ok ()

def derivations (g : Grammar) (n : Nat) : Except UnknownWord Nat :=
  (Chart.ofTokens g (sentence n)).map (·.derivationCount g.start)

/-- What is printed before a sentence is measured. -/
def announcement (phrases tokens derivations : Nat) : List String :=
  ["", "  " ++ phrases.repr ++ " phrases: " ++ tokens.repr ++ " tokens, " ++ derivations.repr ++
    " derivations"]

/-- The lines that are printed, and the rows of the table up to the measured columns. -/
structure Progress where
  printed : List String
  rows : List String

/-- The measured sentences, in order of their numbers of phrases, together with what comes after
them. -/
def measured (counts : List (Nat × Nat)) : Progress :=
  { printed :=
      ("✓ Writing results to: " ++ table) ::
        (counts.flatMap fun (n, count) => announcement n (sentence n).length count) ++ [""]
    rows := counts.flatMap fun (n, count) =>
      [Stage.chart, Stage.enumerate].map fun stage =>
        ",".intercalate (fixedColumns n (sentence n).length count stage) }

/-- The benchmark up to the sentence with `n` phrases, that one excluded. -/
def run (files : FileTree) (n : Nat) : Except Failure Progress := do
  let g ← grammar.mapError fun e => { message := e.message }
  (prepare files).mapError fun e => { message := e.message }
  let counts ← ((List.range n).mapM fun m => (derivations g m).map (m, ·)).mapError
    fun u => { message := u.message }
  return measured counts

end PhraseStructure.Benchmark
