import Mathlib.Tactic
import PhraseStructure.Grammar.English
import PhraseStructure.Proofs.Chunk
import PhraseStructure.Proofs.Reordering

/-!
# Noun phrases of the English grammar

A noun phrase of the English grammar is a noun, or it has a noun phrase or a prepositional phrase in
it. Sentences and prepositional phrases have noun phrases in them as well, if not at once then by
way of each other. So the smallest noun phrases of a sentence are nouns, and there is always one.
-/

namespace PhraseStructure

namespace Grammar

/-- Each rule for one of the names has one of the names again, unless it is for the label. -/
def Unavoidable (g : Grammar) (label : String) (names : List String) : Prop :=
  ∀ name ∈ names, name ≠ label → ∀ a ∈ g.writtenNamed name, ∃ child ∈ names, .name child ∈ a

variable {g : Grammar}

theorem name_mem_writtenLabels {label : String} {ts : List ParseTree} :
    .name label ∈ writtenLabels ts ↔ ∃ t ∈ ts, t.label = label := by
  simp [writtenLabels]

namespace Derives

theorem word_rule (hg : g.Coherent) {label word : String} (h : g.Derives (.leaf label word)) :
    [.word word] ∈ g.writtenNamed label := (mem_wordsNamed hg).mp (derives_leaf.mp h)

theorem rule (hg : g.Coherent) (hsmall : g.Small) {label : String} {ts : List ParseTree}
    (h : g.Derives (.node label ts)) : writtenLabels ts ∈ g.writtenNamed label :=
  (allows_node hg hsmall).mp (derives_node.mp h).1

end Derives

/-- A derivation from one of the names comes to the label, since it could end nowhere else. -/
theorem Unavoidable.exists_label (hg : g.Coherent) (hsmall : g.Small) {label : String}
    {names : List String} (h : g.Unavoidable label names) {t : ParseTree} (ht : g.Derives t)
    (hroot : t.label ∈ names) : ∃ s ∈ t.subtrees, s.label = label := by
  induction t with
  | leaf l word =>
    refine ⟨_, ParseTree.self_mem_subtrees _, ?_⟩
    by_contra hne
    obtain ⟨child, -, hchild⟩ := h l hroot hne _ (ht.word_rule hg)
    simp at hchild
  | node l ts ih =>
    by_cases hl : l = label
    · exact ⟨_, ParseTree.self_mem_subtrees _, hl⟩
    obtain ⟨child, hchild, hmem⟩ := h l hroot hl _ (ht.rule hg hsmall)
    obtain ⟨t, hts, rfl⟩ := name_mem_writtenLabels.mp hmem
    obtain ⟨s, hs, hlabel⟩ := ih t hts ((derives_node.mp ht).2 t hts) hchild
    exact ⟨s, ParseTree.mem_subtrees_node.mpr (Or.inr ⟨t, hts, hs⟩), hlabel⟩

end Grammar

namespace English

open Grammar RuleText

def phrase (lhs : String) (alternatives : List (List String)) : Entry :=
  ⟨lhs, alternatives.map fun names => names.map .name⟩

def lexical (lhs : String) (words : List String) : Entry :=
  ⟨lhs, words.map fun word => [.word word]⟩

def entries : List Entry :=
  [phrase "S" [["NP", "VP"], ["NP", "VP", "Conj", "VP"], ["NP", "VP", "Conj", "S"],
      ["NP", "Adv", "VP"]],
    phrase "NP" [["N"], ["Det", "NP"], ["N", "PP"], ["Det", "NP", "PP"], ["Adj", "NP"]],
    phrase "VP" [["V"], ["V", "Adv"], ["V", "PP"], ["V", "NP"], ["V", "NP", "Adv"],
      ["V", "NP", "PP"]],
    phrase "PP" [["P", "NP"], ["Conj", "S"]],
    lexical "Adj" ["country", "dreadful", "enigmatical", "little", "moist", "red"],
    lexical "Adv" ["down", "here", "never"],
    lexical "Conj" ["and", "until"],
    lexical "Det" ["a", "an", "his", "my", "the"],
    lexical "N" ["armchair", "companion", "day", "door", "hand", "he", "himself"],
    lexical "N" ["holmes", "home", "i", "mess", "paint", "palm", "pipe", "she"],
    lexical "N" ["smile", "thursday", "walk", "we", "word"],
    lexical "P" ["at", "before", "in", "of", "on", "to"],
    lexical "V" ["arrived", "came", "chuckled", "had", "lit", "said", "sat"],
    lexical "V" ["smiled", "tell", "were"]]

/-- The names of the phrases that always have a noun phrase in them. -/
def nominal : List String := ["S", "NP", "PP"]

theorem toList_of_eq_ofList {s : String} {text : List Char} (h : s = String.ofList text) :
    s.toList = text := by
  rw [h, String.toList_ofList]

set_option maxRecDepth 8000 in
theorem readEntries_rules : readEntries (phraseRules ++ wordRules) = .ok entries := by
  -- A literal is a list of characters by definition, but `toList` decodes its bytes.
  rw [readEntries, String.toList_append, toList_of_eq_ofList (s := phraseRules) rfl,
    toList_of_eq_ofList (s := wordRules) rfl]
  decide +kernel

theorem english_eq_ok {g : Grammar} : Grammar.english = .ok g ↔
    ∃ unnamed, ofEntries "grammar" none entries = .ok unnamed ∧
      { unnamed with name := "english" } = g := by
  rw [Grammar.english, ofRuleText, readEntries_rules]
  simp only [bind, Except.bind, Except.map_eq_ok]

theorem fewSymbols_entries : FewSymbols entries := ⟨by decide +kernel, by decide +kernel⟩

theorem exists_english : ∃ g, Grammar.english = .ok g := by
  have hsome : (ofEntries "grammar" none entries).toOption.isSome := by decide +kernel
  obtain ⟨unnamed, hunnamed⟩ := Option.isSome_iff_exists.mp hsome
  exact ⟨_, english_eq_ok.mpr ⟨unnamed, Except.toOption_eq_some.mp hunnamed, rfl⟩⟩

section

variable {g : Grammar} (hg : Grammar.english = .ok g)
include hg

theorem loaded : g.Loaded := by
  obtain ⟨unnamed, hread, rfl⟩ := Except.map_eq_ok.mp hg
  exact (Loaded.ofRuleText hread).named "english"

theorem wellFormed : g.WellFormed := (loaded hg).wellFormed

theorem small : g.Small := by
  obtain ⟨unnamed, hentries, rfl⟩ := english_eq_ok.mp hg
  have hsmall := small_of_tables fewSymbols_entries (tables_ofEntries hentries)
  exact ⟨hsmall.nonTerminals, hsmall.terminals⟩

theorem mem_writtenNamed {name : String} {a : WrittenAlternative} :
    a ∈ g.writtenNamed name ↔ ⟨name, a⟩ ∈ rulesOf entries := by
  obtain ⟨unnamed, hentries, rfl⟩ := english_eq_ok.mp hg
  have hsmall := small_of_tables fewSymbols_entries (tables_ofEntries hentries)
  have hholds := holds_ofEntries (by decide +kernel) hentries hsmall.nonTerminals
  have hsame := hholds.writtenNamed hsmall name
  rw [← mem_alternativesOf, ← hsame]
  rfl

theorem unavoidable_nounPhrase : g.Unavoidable "NP" nominal := by
  have hrules : ∀ r ∈ rulesOf entries, r.lhs ∈ nominal → r.lhs ≠ "NP" →
      ∃ child ∈ nominal, .name child ∈ r.alternative := by decide +kernel
  intro name hname hne a ha
  exact hrules ⟨name, a⟩ ((mem_writtenNamed hg).mp ha) hname hne

theorem nounPhrase_rule {a : WrittenAlternative} (ha : a ∈ g.writtenNamed "NP") :
    a = [.name "N"] ∨ ∃ child ∈ nominal, .name child ∈ a := by
  have hrules : ∀ r ∈ rulesOf entries, r.lhs = "NP" →
      r.alternative = [.name "N"] ∨ ∃ child ∈ nominal, .name child ∈ r.alternative := by
    decide +kernel
  exact hrules ⟨"NP", a⟩ ((mem_writtenNamed hg).mp ha) rfl

theorem noun_rule {a : WrittenAlternative} (ha : a ∈ g.writtenNamed "N") :
    ∃ word, a = [.word word] := by
  have hrules : ∀ r ∈ rulesOf entries, r.lhs = "N" → r.word?.isSome := by decide +kernel
  obtain ⟨word, hword⟩ :=
    Option.isSome_iff_exists.mp (hrules ⟨"N", a⟩ ((mem_writtenNamed hg).mp ha) rfl)
  exact ⟨word, WrittenRule.word?_eq_some.mp hword⟩

theorem exists_nounPhrase {t : ParseTree} (ht : g.Derives t) (hroot : t.label ∈ nominal) :
    ∃ s ∈ t.subtrees, s.label = "NP" := by
  have hunavoidable := unavoidable_nounPhrase hg
  exact hunavoidable.exists_label (wellFormed hg).toCoherent (small hg) ht hroot

theorem noun_eq_leaf {t : ParseTree} (ht : g.Derives t) (hlabel : t.label = "N") :
    ∃ word, t = .leaf "N" word := by
  cases t with
  | leaf label word =>
    obtain rfl : label = "N" := hlabel
    exact ⟨word, rfl⟩
  | node label ts =>
    obtain rfl : label = "N" := hlabel
    obtain ⟨word, hword⟩ := noun_rule hg (ht.rule (wellFormed hg).toCoherent (small hg))
    obtain ⟨t, -, ht⟩ := List.map_eq_singleton_iff.mp hword
    cases ht

theorem minimal_nounPhrase {t : ParseTree} (ht : g.Derives t) (hmin : t.IsMinimal "NP") :
    ∃ word, t = .node "NP" [.leaf "N" word] := by
  have hcoherent := (wellFormed hg).toCoherent
  obtain ⟨hlabel, hbelow⟩ := hmin
  cases t with
  | leaf label word =>
    obtain rfl : label = "NP" := hlabel
    have hno := nounPhrase_rule hg (ht.word_rule hcoherent)
    simp at hno
  | node label ts =>
    obtain rfl : label = "NP" := hlabel
    have hchildren : ∀ s ∈ ts, g.Derives s := (derives_node.mp ht).2
    rcases nounPhrase_rule hg (ht.rule hcoherent (small hg)) with hnoun | ⟨child, hchild, hmem⟩
    · obtain ⟨s, rfl, hs⟩ := List.map_eq_singleton_iff.mp hnoun
      have hderives := hchildren s List.mem_cons_self
      obtain ⟨word, rfl⟩ := noun_eq_leaf hg hderives (WrittenSymbol.name.inj hs)
      exact ⟨word, rfl⟩
    · obtain ⟨s, hs, rfl⟩ := name_mem_writtenLabels.mp hmem
      obtain ⟨r, hr, hnp⟩ := exists_nounPhrase hg (hchildren s hs) hchild
      exact absurd hnp (hbelow r (List.mem_flatMap.mpr ⟨s, hs, hr⟩))

end

/-- Each noun phrase chunk of a parse by the English grammar is a noun, one word of the sentence.
Parses of sentences, noun phrases and prepositional phrases have one at least. -/
theorem nounPhrases_english : ∃ g, Grammar.english = .ok g ∧
    ∀ start words d, g.parse start words = .ok d → ∀ n t, (d.after n).next.1 = some t →
      (∀ c ∈ t.nounPhrases,
        ∃ word ∈ words, c = .node "NP" [.leaf "N" word] ∧ c.text = word) ∧
      (start ∈ ["S", "NP", "PP"] → t.nounPhrases ≠ []) := by
  obtain ⟨g, hg⟩ := exists_english
  refine ⟨g, hg, ?_⟩
  intro start words d hparse n t ht
  obtain ⟨hstart, hwords, hderives⟩ := derives_of_parse (wellFormed hg) (small hg) hparse ht
  constructor
  · intro c hc
    obtain ⟨hsub, hmin⟩ := ParseTree.mem_chunks.mp hc
    obtain ⟨word, rfl⟩ := minimal_nounPhrase hg (hderives.subtree hsub) hmin
    have hword : word ∈ t.words := ParseTree.words_subset hsub (by simp)
    exact ⟨word, hwords ▸ hword, rfl, by simp [ParseTree.text]⟩
  · intro hnominal hnil
    obtain ⟨s, hs, hlabel⟩ := exists_nounPhrase hg hderives (hstart ▸ hnominal)
    exact ParseTree.chunks_eq_nil_iff.mp hnil s hs hlabel

/-- A sentence with an article: the noun phrases of its first parse are the bare nouns. -/
theorem nounPhrases_holmes : ∃ g d t, Grammar.english = .ok g ∧
    g.parse "S" ["holmes", "lit", "a", "pipe"] = .ok d ∧ (d.after 0).next.1 = some t ∧
      t.nounPhrases ≠ [] ∧ ∀ c ∈ t.nounPhrases, ∃ word ∈ ["holmes", "lit", "a", "pipe"],
        c = .node "NP" [.leaf "N" word] ∧ c.text = word := by
  obtain ⟨g, hg, h⟩ := nounPhrases_english
  obtain ⟨unnamed, hentries, rfl⟩ := english_eq_ok.mp hg
  have hsome : ((ofEntries "grammar" none entries).toOption.bind fun g =>
      (parse { g with name := "english" } "S" ["holmes", "lit", "a", "pipe"]).toOption.bind
        fun d => (d.after 0).next.1).isSome := by decide +kernel
  obtain ⟨t, hrun⟩ := Option.isSome_iff_exists.mp hsome
  rw [hentries, Except.toOption, Option.bind_some] at hrun
  obtain ⟨d, hparse, ht⟩ := Option.bind_eq_some_iff.mp hrun
  have hparse := Except.toOption_eq_some.mp hparse
  obtain ⟨hnouns, hne⟩ := h "S" _ d hparse 0 t ht
  exact ⟨_, d, t, hg, hparse, ht, hne List.mem_cons_self, hnouns⟩

end English

end PhraseStructure
