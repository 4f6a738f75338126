import Mathlib.Tactic
import PhraseStructure.CommandLine.Session
import PhraseStructure.Proofs.Count
import PhraseStructure.Proofs.Drawing
import PhraseStructure.Proofs.English
import PhraseStructure.Proofs.Json
import PhraseStructure.Proofs.Options
import PhraseStructure.Proofs.Recognition

/-!
# What a session prints

A session on a sentence of known words succeeds. It prints the derivations that are pulled from the
chart, up to its limit, and what a session with a lower limit prints is where it begins. As JSON,
each derivation is a single line. A sentence without a line feed may as well come from the input:
only the prompt is printed in addition.

A limit is a number of 64 bits, and there is one even if none is given: the largest such number.
-/

namespace PhraseStructure

theorem toList_loop (bytes : ByteArray) (i : Nat) (taken : List UInt8) :
    ByteArray.toList.loop bytes i taken = taken.reverse ++ bytes.data.toList.drop i := by
  fun_induction ByteArray.toList.loop bytes i taken with
  | case1 i taken h ih =>
    have hi : i < bytes.data.toList.length := h
    have hbyte : bytes.get! i = bytes.data.toList[i] := by simp [ByteArray.get!, h]
    rw [ih, List.drop_eq_getElem_cons hi, List.reverse_cons, hbyte, List.append_assoc]
    rfl
  | case2 i taken h =>
    have hi : bytes.data.toList.length ≤ i := Nat.not_lt.mp h
    rw [List.drop_eq_nil_of_le hi, List.append_nil]

theorem toList_bytes (bytes : ByteArray) : bytes.toList = bytes.data.toList :=
  toList_loop bytes 0 []

theorem toList_toUTF8 (s : String) : s.toUTF8.toList = s.toList.flatMap String.utf8EncodeChar := by
  have hbytes : s.toUTF8 = (s.toList.flatMap String.utf8EncodeChar).toByteArray := by
    conv_lhs => rw [← String.ofList_toList (s := s)]
    rfl
  rw [toList_bytes, hbytes, List.data_toByteArray]

theorem feed_notMem_utf8EncodeChar {c : Char} (hc : c ≠ '\n') : 10 ∉ String.utf8EncodeChar c := by
  have hbyte : ∀ m < 256, m ≠ 10 → (10 : UInt8) ≠ UInt8.ofNat m := by
    intro m hm hne heq
    have hnat := congrArg UInt8.toNat heq
    rw [UInt8.toNat_ofNat_of_lt' hm] at hnat
    exact hne hnat.symm
  have hval : c.val.toNat ≠ 10 := fun hval => hc (Char.ext (UInt32.toNat_inj.mp hval))
  have hlt : c.val.toNat < 0x110000 := c.valid.elim (by omega) (by omega)
  unfold String.utf8EncodeChar
  dsimp only
  split_ifs
  all_goals simp only [List.mem_cons, List.not_mem_nil, or_false, not_or]
  · exact hbyte _ (by omega) hval
  · exact ⟨hbyte _ (by omega) (by omega), hbyte _ (by omega) (by omega)⟩
  · exact ⟨hbyte _ (by omega) (by omega), hbyte _ (by omega) (by omega),
      hbyte _ (by omega) (by omega)⟩
  · exact ⟨hbyte _ (by omega) (by omega), hbyte _ (by omega) (by omega),
      hbyte _ (by omega) (by omega), hbyte _ (by omega) (by omega)⟩

theorem feed_notMem_toUTF8 {s : String} (h : OneLine s) : 10 ∉ s.toUTF8.toList := by
  rw [toList_toUTF8]
  intro hfeed
  obtain ⟨c, hc, hbyte⟩ := List.mem_flatMap.mp hfeed
  exact feed_notMem_utf8EncodeChar (ne_of_mem_of_not_mem hc h) hbyte

/-- A text is read as it has been written. -/
theorem fromUTF8?_toUTF8 (s : String) : String.fromUTF8? s.toUTF8 = some s := by
  unfold String.fromUTF8?
  rw [String.toUTF8_eq_toByteArray, dif_pos s.isValidUTF8]
  rfl

namespace CommandLine

/-- The greatest number of derivations that are printed. -/
def Options.limit (o : Options) : Nat := o.maxTrees.getD Session.unlimited

namespace Session

def sentence (read : Reading) (input : ByteArray) (o : Options) : Except Failure String :=
  match o.file with
  | some path => readSentence read path
  | none => readInput input

def promptFor (o : Options) : String := if o.file.isSome then "" else prompt

/-- The line of JSON for a derivation: its tree, and the texts of its chunks. -/
def jsonLine (t : ParseTree) : String :=
  "\x7b\"tree\":" ++ t.json ++ ",\"chunks\":" ++
    Json.arrayOf (t.nounPhrases.map fun chunk => Json.quoted chunk.text) ++ "\x7d"

variable {read : Reading} {input : ByteArray} {o o' : Options} {g : Grammar} {s : String}

theorem loaded_ofFile {path : String} (h : Grammar.ofFile read path = .ok g) : g.Loaded := by
  unfold Grammar.ofFile at h
  cases htext : read.text path with
  | error e => simp [htext] at h
  | ok text =>
    simp only [htext] at h
    obtain ⟨unnamed, hread, rfl⟩ := Except.map_eq_ok.mp h
    have hloaded : unnamed.Loaded := by
      split_ifs at hread
      · exact .ofJson hread
      · exact .ofRuleText hread
    unfold Grammar.namedAfter
    split_ifs
    · exact hloaded.named _
    · exact hloaded

theorem loaded_of_loadGrammar (h : loadGrammar read o = .ok g) : g.Loaded := by
  unfold loadGrammar at h
  cases hpath : o.grammar with
  | none =>
    rw [hpath] at h
    obtain ⟨unstarted, hgrammar, hstart⟩ := Except.bind_eq_ok.mp h
    have hloaded := English.loaded (Except.mapError_eq_ok.mp hgrammar)
    cases hsymbol : o.start with
    | none =>
      rw [hsymbol] at hstart
      exact Except.ok.inj hstart ▸ hloaded
    | some start =>
      rw [hsymbol] at hstart
      exact hloaded.withStart (Except.mapError_eq_ok.mp hstart)
  | some path =>
    rw [hpath] at h
    obtain ⟨unstarted, hgrammar, hstart⟩ := Except.bind_eq_ok.mp h
    have hloaded := loaded_ofFile (Except.mapError_eq_ok.mp hgrammar)
    cases hsymbol : o.start with
    | none =>
      rw [hsymbol] at hstart
      exact Except.ok.inj hstart ▸ hloaded
    | some start =>
      rw [hsymbol] at hstart
      exact hloaded.withStart (Except.mapError_eq_ok.mp hstart)

theorem firstLine_eq_self {bytes : List UInt8} (h : 10 ∉ bytes) : firstLine bytes = bytes := by
  have hall : ∀ b ∈ bytes, (b != 10) = true := by
    intro b hb
    exact bne_iff_ne.mpr (ne_of_mem_of_not_mem hb h)
  rw [firstLine, List.takeWhile_eq_self_iff.mpr hall, List.dropWhile_eq_nil_iff.mpr hall]
  exact List.append_nil _

theorem readInput_toUTF8 (h : OneLine s) : readInput s.toUTF8 = .ok s := by
  have hline : ByteArray.mk (firstLine s.toUTF8.toList).toArray = s.toUTF8 := by
    rw [firstLine_eq_self (feed_notMem_toUTF8 h), toList_bytes, Array.toArray_toList]
  unfold readInput
  dsimp only
  rw [hline, fromUTF8?_toUTF8]

theorem run_eq (hgrammar : loadGrammar read o = .ok g) (hsentence : sentence read input o = .ok s) :
    run read input o = { code := 0, output := promptFor o ++ answer g o s, complaint := "" } := by
  unfold run
  unfold sentence at hsentence
  rw [hgrammar]
  cases hfile : o.file with
  | some path =>
    rw [hfile] at hsentence
    simp only at hsentence
    simp only [hsentence, promptFor, hfile, Option.isSome_some, if_true, String.empty_append]
  | none =>
    rw [hfile] at hsentence
    simp only at hsentence
    simp [hsentence, promptFor, hfile]

theorem asJson_eq (t : ParseTree) : asJson t = jsonLine t ++ "\n" := by
  simp only [asJson, jsonLine, String.append_assoc]
  rfl

open Json in
theorem oneLine_jsonLine (t : ParseTree) : OneLine (jsonLine t) := by
  have hfixed : Printable "\x7b\"tree\":".toList ∧ Printable ",\"chunks\":".toList ∧
      Printable "\x7d".toList := by decide +kernel
  obtain ⟨hopen, hmiddle, hclose⟩ := hfixed
  have hchunks : Printable (arrayOf (t.nounPhrases.map fun chunk => quoted chunk.text)).toList := by
    refine printable_arrayOf fun v hv => ?_
    obtain ⟨chunk, -, rfl⟩ := List.mem_map.mp hv
    exact printable_quoted chunk.text
  have hline : Printable (jsonLine t).toList := by
    simp only [jsonLine, String.toList_append, printable_append]
    exact ⟨⟨⟨⟨hopen, t.printable_json⟩, hmiddle⟩, hchunks⟩, hclose⟩
  intro hfeed
  exact absurd (hline _ hfeed) (by decide)

/-- The answer to a sentence of known words, whatever the options. -/
theorem exists_answer (hloaded : g.Loaded) (hknown : ∀ word ∈ tokenize s, g.knowsWord word = true) :
    ∃ c trees, Chart.ofTokens g (tokenize s) = .ok c ∧ (c.derivations g.start).Yields trees ∧
      c.derivationCount g.start = min trees.length countLimit ∧
      (trees = [] ↔ ¬g.Generates g.start (tokenize s)) ∧
      ∀ o, answer g o s =
        if trees = [] then "Could not parse sentence.\n"
        else String.join ((trees.take o.limit).map (write (o.format.getD .text))) := by
  have hg := hloaded.wellFormed
  have hno : ¬∃ u, Chart.ofTokens g (tokenize s) = .error u := by
    rw [Chart.exists_error_iff hg.toCoherent]
    rintro ⟨word, hword, hunknown⟩
    rw [hknown word hword] at hunknown
    cases hunknown
  obtain ⟨c, hc⟩ : ∃ c, Chart.ofTokens g (tokenize s) = .ok c := by
    cases hchart : Chart.ofTokens g (tokenize s) with
    | error u => exact absurd ⟨u, hchart⟩ hno
    | ok c => exact ⟨c, rfl⟩
  obtain ⟨tokens, hids, rfl⟩ := Chart.ofTokens_eq_ok.mp hc
  obtain ⟨rank, hranked⟩ := Chart.exists_ranked hg tokens
  have hyields := hranked.yields_derivations g.start
  have hnone : (Chart.ofTerminals g tokens).trees ⟨0, tokens.length, g.start⟩ = [] ↔
      (Chart.ofTerminals g tokens).waysOf ⟨0, tokens.length, g.start⟩ = [] :=
    not_iff_not.mp hranked.trees_ne_nil_iff
  refine ⟨_, _, hc, hyields, hranked.derivationCount_eq_length g.start, ?_, fun o => ?_⟩
  · rw [Chart.generates_iff hg hids, not_not]
    exact hnone
  · have hempty : ((Chart.ofTerminals g tokens).derivations g.start).isEmpty = true ↔
        (Chart.ofTerminals g tokens).trees ⟨0, tokens.length, g.start⟩ = [] := by
      rw [hnone, ← not_iff_not, Bool.not_eq_true]
      exact Chart.isEmpty_derivations_iff
    unfold answer
    rw [hc]
    dsimp only
    rw [hyields.take]
    simp only [hempty]
    rfl

theorem answer_prefix (hloaded : g.Loaded)
    (hknown : ∀ word ∈ tokenize s, g.knowsWord word = true) (hformat : o.format = o'.format)
    (hlimit : o.limit ≤ o'.limit) : ∃ more, answer g o' s = answer g o s ++ more := by
  obtain ⟨c, trees, -, -, -, -, hanswer⟩ := exists_answer hloaded hknown
  rw [hanswer, hanswer, hformat]
  split_ifs with htrees
  · exact ⟨"", (String.append_empty).symm⟩
  · obtain ⟨more, hmore⟩ := List.take_prefix_take_left (l := trees) hlimit
    rw [← hmore, List.map_append, String.join_append]
    exact ⟨_, rfl⟩

theorem join_asJson (trees : List ParseTree) :
    String.join (trees.map asJson) = String.join ((trees.map jsonLine).map (· ++ "\n")) := by
  rw [List.map_map]
  exact congrArg String.join (List.map_congr_left fun t _ => asJson_eq t)

theorem exists_lines (trees : List ParseTree) (o : Options) :
    ∃ lines : List String,
      String.join ((trees.take o.limit).map asJson) = String.join (lines.map (· ++ "\n")) ∧
      (∀ line ∈ lines, OneLine line) ∧ lines.length = min o.limit trees.length ∧
      (o.maxTrees = none → trees.length < wordLimit → lines.length = trees.length) ∧
      ∀ k < lines.length, lines[k]? = trees[k]?.map jsonLine := by
  refine ⟨(trees.take o.limit).map jsonLine, join_asJson _, ?_, ?_, ?_, ?_⟩
  · intro line hline
    obtain ⟨t, -, rfl⟩ := List.mem_map.mp hline
    exact oneLine_jsonLine t
  · rw [List.length_map, List.length_take]
  · intro hmax hfew
    have hlimit : o.limit = wordLimit - 1 := by
      rw [Options.limit, hmax]
      rfl
    rw [List.length_map, List.length_take, hlimit]
    omega
  · intro k hk
    rw [List.length_map, List.length_take] at hk
    rw [List.getElem?_map, List.getElem?_take_of_lt (lt_min_iff.mp hk).1]

end Session

open Session

variable {read : Reading} {input : ByteArray} {arguments : List String} {o o' : Options}
  {g : Grammar} {s : String}

theorem outcome_eq (harguments : Request.ofArguments arguments = .ok (.parse o))
    (hgrammar : loadGrammar read o = .ok g) (hsentence : sentence read input o = .ok s) :
    outcome read input arguments =
      { code := 0, output := promptFor o ++ answer g o s, complaint := "" } := by
  unfold outcome
  rw [harguments]
  exact run_eq hgrammar hsentence

theorem limit_le_unlimited (harguments : Request.ofArguments arguments = .ok (.parse o)) :
    o.limit ≤ unlimited := by
  unfold Options.limit
  cases hmax : o.maxTrees with
  | none => exact Nat.le_refl _
  | some n => exact Nat.le_sub_one_of_lt (bounded_of_ofArguments harguments n hmax)

theorem outcome_prefix {arguments' : List String} (hgrammar : loadGrammar read o = .ok g)
    (hsentence : sentence read input o = .ok s)
    (hknown : ∀ word ∈ tokenize s, g.knowsWord word = true)
    (harguments : Request.ofArguments arguments = .ok (.parse o))
    (harguments' : Request.ofArguments arguments' = .ok (.parse o'))
    (ho' : o' = { o with maxTrees := o'.maxTrees })
    (hlimit : o'.maxTrees = none ∨ o.limit ≤ o'.limit) :
    ∃ more, (outcome read input arguments').output =
      (outcome read input arguments).output ++ more := by
  have hle : o.limit ≤ o'.limit := by
    rcases hlimit with hnone | hle
    · have hlast : o'.limit = unlimited := by rw [Options.limit, hnone, Option.getD_none]
      rw [hlast]
      exact limit_le_unlimited harguments
    · exact hle
  have hgrammar' : loadGrammar read o' = .ok g := by
    rw [ho']
    exact hgrammar
  have hsentence' : sentence read input o' = .ok s := by
    rw [ho']
    exact hsentence
  have hprompt : promptFor o' = promptFor o := by
    rw [ho']
    rfl
  have hformat : o.format = o'.format := by rw [ho']
  obtain ⟨more, hmore⟩ := answer_prefix (loaded_of_loadGrammar hgrammar) hknown hformat hle
  rw [outcome_eq harguments hgrammar hsentence, outcome_eq harguments' hgrammar' hsentence']
  exact ⟨more, by rw [hmore, hprompt, String.append_assoc]⟩

theorem outcome_toUTF8 {arguments' : List String} {path : String} (hfile : o.file = some path)
    (hgrammar : loadGrammar read o = .ok g) (hsentence : sentence read input o = .ok s)
    (harguments : Request.ofArguments arguments = .ok (.parse o))
    (harguments' : Request.ofArguments arguments' = .ok (.parse { o with file := none }))
    (hs : OneLine s) :
    outcome read s.toUTF8 arguments' =
      { code := 0
        output := "Sentence: " ++ (outcome read input arguments).output
        complaint := "" } := by
  have hprompt : promptFor o = "" := by
    unfold promptFor
    rw [hfile]
    rfl
  rw [outcome_eq harguments hgrammar hsentence,
    outcome_eq harguments' hgrammar (readInput_toUTF8 hs), hprompt, String.empty_append]
  rfl

theorem outcome_of_wordLimit_le {n : Nat} (hn : wordLimit ≤ n) (arguments : List String) :
    outcome read input ("--max-trees" :: n.repr :: arguments) =
      { code := 2
        output := ""
        complaint :=
          "error: " ++ (UsageError.invalidValue .maxTrees n.repr).message ++ "\n\n" ++ usage } := by
  unfold outcome
  rw [ofArguments_of_wordLimit_le hn]

/-- A session with a grammar that loads and a sentence of known words succeeds. It says so if the
sentence has no derivation, and otherwise it prints as many derivations as its limit allows, each as
one line if they are printed as JSON. What it prints is where the output begins if the limit is
higher or if none is given. A sentence without a line feed may come from the input instead of a
file. Each number below 2^64 can be given as the limit, and any other number is refused. -/
theorem outcome_exact (harguments : Request.ofArguments arguments = .ok (.parse o))
    (hgrammar : loadGrammar read o = .ok g) (hsentence : sentence read input o = .ok s)
    (hknown : ∀ word ∈ tokenize s, g.knowsWord word = true) :
    (∃ c trees body, Chart.ofTokens g (tokenize s) = .ok c ∧
        (c.derivations g.start).Yields trees ∧
        c.derivationCount g.start = min trees.length countLimit ∧
        (trees = [] ↔ ¬g.Generates g.start (tokenize s)) ∧
        outcome read input arguments =
          { code := 0, output := promptFor o ++ body, complaint := "" } ∧
        (trees = [] → body = "Could not parse sentence.\n") ∧
        (trees ≠ [] → o.format = some .json → ∃ lines : List String,
          body = String.join (lines.map (· ++ "\n")) ∧ (∀ line ∈ lines, OneLine line) ∧
          lines.length = min o.limit trees.length ∧
          (o.maxTrees = none → trees.length < wordLimit → lines.length = trees.length) ∧
          ∀ k < lines.length, lines[k]? = trees[k]?.map jsonLine)) ∧
      (∀ arguments' o', Request.ofArguments arguments' = .ok (.parse o') →
        o' = { o with maxTrees := o'.maxTrees } → (o'.maxTrees = none ∨ o.limit ≤ o'.limit) →
          ∃ more, (outcome read input arguments').output =
            (outcome read input arguments).output ++ more) ∧
      (∀ path arguments', o.file = some path →
        Request.ofArguments arguments' = .ok (.parse { o with file := none }) → OneLine s →
          outcome read s.toUTF8 arguments' =
            { code := 0
              output := "Sentence: " ++ (outcome read input arguments).output
              complaint := "" }) ∧
      (o.maxTrees = none → ∀ n < wordLimit,
        Request.ofArguments ("--max-trees" :: n.repr :: arguments) =
          .ok (.parse { o with maxTrees := some n })) ∧
      (∀ n ≥ wordLimit, ∀ arguments' : List String, ∃ complaint,
        outcome read input ("--max-trees" :: n.repr :: arguments') =
          { code := 2, output := "", complaint }) := by
  refine ⟨?_, ?_, ?_, ?_, ?_⟩
  · obtain ⟨c, trees, hc, hyields, hcount, hnone, hanswer⟩ :=
      exists_answer (loaded_of_loadGrammar hgrammar) hknown
    refine ⟨c, trees, _, hc, hyields, hcount, hnone, outcome_eq harguments hgrammar hsentence,
      ?_, ?_⟩
    · intro htrees
      rw [hanswer, if_pos htrees]
    · intro htrees hjson
      rw [hanswer, if_neg htrees, hjson]
      exact exists_lines trees o
  · intro arguments' o' harguments' ho' hlimit
    exact outcome_prefix hgrammar hsentence hknown harguments harguments' ho' hlimit
  · intro path arguments' hfile harguments' hs
    exact outcome_toUTF8 hfile hgrammar hsentence harguments harguments' hs
  · intro hnone n hn
    exact ofArguments_limited harguments hnone hn
  · intro n hn arguments'
    exact ⟨_, outcome_of_wordLimit_le hn arguments'⟩

def twoFiles (rules words : String) : Reading := fun path =>
  if path = "rules" then .ok rules.toUTF8
  else if path = "sentence" then .ok words.toUTF8
  else .error .notFound

def bothFiles : List String := ["--format", "json", "--grammar", "rules", "sentence"]

def bothFilesOptions : Options where
  file := some "sentence"
  grammar := some "rules"
  format := some .json

theorem ofArguments_bothFiles :
    Request.ofArguments bothFiles = .ok (.parse bothFilesOptions) := by rfl

section

variable {rules : String} (words : String)

theorem text_twoFiles_rules : (twoFiles rules words).text "rules" = .ok rules := by
  have hread : twoFiles rules words "rules" = .ok rules.toUTF8 := if_pos rfl
  rw [Reading.text, hread]
  simp only [fromUTF8?_toUTF8]

theorem text_twoFiles_sentence : (twoFiles rules words).text "sentence" = .ok words := by
  have hread : twoFiles rules words "sentence" = .ok words.toUTF8 := by
    rw [twoFiles, if_neg (by decide), if_pos rfl]
  rw [Reading.text, hread]
  simp only [fromUTF8?_toUTF8]

theorem loadGrammar_twoFiles (n? : Option Nat) (hg : Grammar.ofRuleText rules = .ok g) :
    loadGrammar (twoFiles rules words) { bothFilesOptions with maxTrees := n? } =
      .ok (g.namedAfter "rules") := by
  have hending : Path.extension? "rules" ≠ some "json" := by decide +kernel
  have hfile : Grammar.ofFile (twoFiles rules words) "rules" = .ok (g.namedAfter "rules") := by
    rw [Grammar.ofFile, text_twoFiles_rules words]
    simp only [Grammar.ofFileText, if_neg hending, hg, Except.map]
  simp only [loadGrammar, bothFilesOptions, hfile]
  rfl

theorem sentence_twoFiles (input : ByteArray) (n? : Option Nat) :
    sentence (twoFiles rules words) input { bothFilesOptions with maxTrees := n? } = .ok words := by
  simp only [sentence, bothFilesOptions, readSentence, text_twoFiles_sentence, Except.mapError]

end

theorem length_of_derivationCount {c : Chart} {trees : List ParseTree} {words : List String}
    {n : Nat} (hc : Chart.ofTokens g words = .ok c)
    (hlength : c.derivationCount g.start = min trees.length countLimit)
    (hcount : ((Chart.ofTokens g words).toOption.map (·.derivationCount g.start)) = some n)
    (hn : n < countLimit) : trees.length = n := by
  rw [hc] at hcount
  have hmin : min trees.length countLimit = n := hlength.symm.trans (Option.some.inj hcount)
  omega

/-- Three words have two derivations. With a limit of one, a single line is printed, and without it
the output goes on behind this line. If the words come from the input, the prompt is in front. -/
theorem outcome_bracketings :
    ∃ line more, OneLine line ∧
      outcome (twoFiles Grammar.bracketingRules "a a a") .empty
          ("--max-trees" :: "1" :: bothFiles) =
        { code := 0, output := line ++ "\n", complaint := "" } ∧
      (outcome (twoFiles Grammar.bracketingRules "a a a") .empty bothFiles).output =
        line ++ "\n" ++ more ∧
      outcome (twoFiles Grammar.bracketingRules "a a a") "a a a".toUTF8
          ["--max-trees", "1", "--format", "json", "--grammar", "rules"] =
        { code := 0, output := "Sentence: " ++ (line ++ "\n"), complaint := "" } := by
  have hrules : Grammar.ofRuleText Grammar.bracketingRules = .ok Grammar.bracketings :=
    Except.eq_ok_get _
  have hknown : ∀ word ∈ tokenize "a a a",
      (Grammar.bracketings.namedAfter "rules").knowsWord word = true := by decide +kernel
  have hall := outcome_exact ofArguments_bothFiles (loadGrammar_twoFiles "a a a" none hrules)
    (sentence_twoFiles "a a a" .empty none) hknown
  have hone := hall.2.2.2.1 rfl 1 (by decide)
  have hlimited := outcome_exact hone (loadGrammar_twoFiles "a a a" (some 1) hrules)
    (sentence_twoFiles "a a a" .empty (some 1)) hknown
  obtain ⟨⟨c, trees, body, hc, -, hlength, -, houtcome, -, hlines⟩, hprefix, hinput, -⟩ := hlimited
  have htwo : trees.length = 2 :=
    length_of_derivationCount hc hlength (by decide +kernel) (by decide)
  obtain ⟨lines, rfl, honeLine, hsingle, -, -⟩ :=
    hlines (List.ne_nil_of_length_eq_add_one htwo) rfl
  obtain ⟨line, rfl⟩ : ∃ line, lines = [line] := by
    rw [htwo] at hsingle
    exact List.length_eq_one_iff.mp hsingle
  have hprinted : outcome (twoFiles Grammar.bracketingRules "a a a") .empty
      ("--max-trees" :: "1" :: bothFiles) =
        { code := 0, output := line ++ "\n", complaint := "" } := by
    rw [show "1" = Nat.repr 1 from rfl, houtcome]
    simp [promptFor, bothFilesOptions, String.join_cons]
  obtain ⟨more, hmore⟩ := hprefix bothFiles bothFilesOptions ofArguments_bothFiles rfl (Or.inl rfl)
  have hread := hinput "sentence" ["--max-trees", "1", "--format", "json", "--grammar", "rules"] rfl
    rfl (by decide +kernel)
  rw [show Nat.repr 1 = "1" from rfl, hprinted] at hmore hread
  exact ⟨line, more, List.forall_mem_singleton.mp honeLine, hprinted, hmore, hread⟩

/-- Sixteen words, each of which is a phrase in sixteen ways. -/
def manyRules : String :=
  "S -> A A A A A A A A A A A A A A A A\n" ++
  "A -> N | N | N | N | N | N | N | N | N | N | N | N | N | N | N | N\n" ++
  "N -> \"a\""

def many : Grammar := (Grammar.ofRuleText manyRules).toOption.get (by decide +kernel)

def manyWords : String := "a a a a a a a a a a a a a a a a"

theorem join_take_ne {trees : List ParseTree} {n : Nat} (h : n < trees.length) :
    String.join ((trees.take n).map asJson) ≠ String.join (trees.map asJson) := by
  have hsplit : String.join (trees.map asJson) =
      String.join ((trees.take n).map asJson) ++ String.join ((trees.drop n).map asJson) := by
    rw [← String.join_append, ← List.map_append, List.take_append_drop]
  have hmissing : trees.drop n ≠ [] := by
    rw [Ne, List.drop_eq_nil_iff]
    omega
  obtain ⟨t, more, hmore⟩ := List.exists_cons_of_ne_nil hmissing
  intro hsame
  have htexts := congrArg String.toList (hsame.trans hsplit)
  rw [String.toList_append, List.self_eq_append_right, hmore, List.map_cons, String.join_cons,
    asJson_eq] at htexts
  simp at htexts

/-- The number 2^64 is refused as a limit, and no more than 2^64 - 1 derivations are printed even if
no limit is given. -/
theorem not_every_derivation :
    (∃ g, loadGrammar (twoFiles Grammar.bracketingRules "a a a") bothFilesOptions = .ok g ∧
        (∀ word ∈ tokenize "a a a", g.knowsWord word = true) ∧
        (outcome (twoFiles Grammar.bracketingRules "a a a") .empty
          ("--max-trees" :: "18446744073709551616" :: bothFiles)).code = 2) ∧
      ∃ g c trees, loadGrammar (twoFiles manyRules manyWords) bothFilesOptions = .ok g ∧
        (∀ word ∈ tokenize manyWords, g.knowsWord word = true) ∧
        Chart.ofTokens g (tokenize manyWords) = .ok c ∧ (c.derivations g.start).Yields trees ∧
        trees.length = 18446744073709551616 ∧
        (outcome (twoFiles manyRules manyWords) .empty bothFiles).output ≠
          String.join (trees.map asJson) := by
  constructor
  · have hrules : Grammar.ofRuleText Grammar.bracketingRules = .ok Grammar.bracketings :=
      Except.eq_ok_get _
    refine ⟨_, loadGrammar_twoFiles "a a a" none hrules, by decide +kernel, ?_⟩
    rfl
  · have hrules : Grammar.ofRuleText manyRules = .ok many := Except.eq_ok_get _
    have hgrammar := loadGrammar_twoFiles manyWords none hrules
    have hknown : ∀ word ∈ tokenize manyWords, (many.namedAfter "rules").knowsWord word = true := by
      decide +kernel
    obtain ⟨c, trees, hc, hyields, hlength, -, hanswer⟩ :=
      exists_answer (loaded_of_loadGrammar hgrammar) hknown
    have hmany : trees.length = 18446744073709551616 :=
      length_of_derivationCount hc hlength (by decide +kernel) (by decide)
    refine ⟨_, c, trees, hgrammar, hknown, hc, hyields, hmany, ?_⟩
    have hlimit : bothFilesOptions.limit < trees.length := by
      rw [hmany]
      decide
    rw [outcome_eq ofArguments_bothFiles hgrammar (sentence_twoFiles manyWords .empty none),
      hanswer,
      if_neg (List.ne_nil_of_length_eq_add_one hmany)]
    exact join_take_ne hlimit

end CommandLine

end PhraseStructure
