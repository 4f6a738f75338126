import Mathlib.Tactic
import PhraseStructure.Proofs.Definedness
import PhraseStructure.Proofs.DerivationTree

/-!
# A loaded grammar is what was written

The grammar that entries are read to says the same as the entries, in the same order. Non-terminals
are numbered as their left-hand sides first come, and terminals as the words do. A left-hand side
that is repeated gathers the alternatives of all its entries, the repeated ones included. The
lexicon lists the left-hand sides of a word as they first come with it, though they were added one
rule at a time among those of other words.
-/

namespace PhraseStructure

def WrittenSymbol.word? : WrittenSymbol → Option String
  | .word text => some text
  | .name _ => none

def writtenWords (entries : List Entry) : List String :=
  (entries.flatMap Entry.alternatives).flatten.filterMap WrittenSymbol.word?

def oneWord? : WrittenAlternative → Option String
  | [.word word] => some word
  | _ => none

/-- The alternatives of all entries for a left-hand side, in reading order. -/
def gathered (entries : List Entry) (name : String) : List WrittenAlternative :=
  (entries.filter fun e => e.lhs = name).flatMap Entry.alternatives

/-- The left-hand sides of the rules that are one word, each where it first comes with the word. -/
def categoriesOf (rules : List WrittenRule) (word : String) : List String :=
  ((rules.filter fun r => r.alternative = [.word word]).map WrittenRule.lhs).eraseDups

theorem alternativesOf_rulesOf (entries : List Entry) (name : String) :
    alternativesOf (rulesOf entries) name = gathered entries name := by
  induction entries with
  | nil => rfl
  | cons e entries ih =>
    have hsplit : rulesOf (e :: entries) = e.rules ++ rulesOf entries := List.flatMap_cons
    rw [hsplit, alternativesOf_append, alternativesOf_rules, ih, gathered, gathered,
      List.filter_cons]
    split_ifs with h <;> simp_all

theorem map_alternative_rulesOf (entries : List Entry) :
    (rulesOf entries).map WrittenRule.alternative = entries.flatMap Entry.alternatives := by
  simp [rulesOf, Entry.rules, List.map_flatMap, Function.comp_def]

theorem WrittenRule.Fits.filterMap_word? {names : List String} {r : WrittenRule}
    (h : r.Fits names) : r.alternative.filterMap WrittenSymbol.word? = r.word?.toList := by
  cases hword : r.word? with
  | some word =>
    rw [WrittenRule.word?_eq_some.mp hword]
    rfl
  | none =>
    rcases h with ⟨word, hw⟩ | hnames
    · rw [WrittenRule.word?_eq_some.mpr hw] at hword
      cases hword
    · rw [Option.toList_none, List.filterMap_eq_nil_iff]
      intro s hs
      obtain ⟨name, -, rfl⟩ := hnames s hs
      rfl

theorem filterMap_word?_rulesOf {entries : List Entry} (h : firstError? entries = none) :
    (rulesOf entries).filterMap WrittenRule.word? = writtenWords entries := by
  have hword : ∀ r ∈ rulesOf entries,
      r.word?.toList = r.alternative.filterMap WrittenSymbol.word? := by
    intro r hr
    exact (firstError?_eq_none.mp h r hr).filterMap_word?.symm
  rw [writtenWords, ← map_alternative_rulesOf, List.filterMap_eq_flatMap_toList,
    List.flatMap_congr hword, ← List.flatMap_def, List.filterMap_flatMap]

theorem categoriesOf_concat (rules : List WrittenRule) (r : WrittenRule) (word : String) :
    categoriesOf (rules ++ [r]) word =
      if r.alternative = [.word word] ∧ r.lhs ∉ categoriesOf rules word then
        categoriesOf rules word ++ [r.lhs]
      else categoriesOf rules word := by
  unfold categoriesOf
  by_cases hword : r.alternative = [.word word]
  · rw [List.filter_append, List.map_append, List.filter_singleton, decide_eq_true hword]
    simp only [cond_true, List.map_singleton, List.eraseDups_concat, List.mem_eraseDups, hword,
      true_and, ite_not]
  · simp [hword]

namespace Grammar

variable {g g' : Grammar}

theorem categories_of_id? {word : String} {t : SymbolId} (h : g.terminals.id? word = some t) :
    g.categories word = g.lexicon.get t := by
  unfold categories
  rw [h]

theorem categories_of_id?_eq_none {word : String} (h : g.terminals.id? word = none) :
    g.categories word = [] := by
  unfold categories
  rw [h]

theorem get_lexicon_addWord (g : Grammar) (lhs : SymbolId) (word : String) (k : SymbolId) :
    (g.addWord lhs word).lexicon.get k =
      if (g.terminals.intern word).1 = k ∧ lhs ∉ g.lexicon.get (g.terminals.intern word).1 then
        g.lexicon.get (g.terminals.intern word).1 ++ [lhs]
      else g.lexicon.get k := by
  rw [addWord_eq]
  exact get_lexicon_addCategory ..

theorem get_lexicon_intern {word : String} (hsize : (g.terminals.intern word).2.size < UInt32.size)
    (hunused : ∀ {t : SymbolId}, g.terminals.size ≤ t.toNat → g.lexicon.get t = []) :
    g.lexicon.get (g.terminals.intern word).1 = g.categories word := by
  cases hid : g.terminals.id? word with
  | some t => rw [SymbolTable.intern_of_id? _ hid, categories_of_id? hid]
  | none =>
    have hlt : g.terminals.size < UInt32.size :=
      (g.terminals.size_le_size_intern word).trans_lt hsize
    rw [categories_of_id?_eq_none hid]
    apply hunused
    rw [SymbolTable.intern_fst_of_id? hid, UInt32.toNat_ofNat_of_lt' hlt]

/-- A rule that is one word adds its left-hand side to the categories of that word, unless it is one
of them. -/
theorem categories_addWord (ht : g.terminals.Lawful) (lhs : SymbolId) {word : String}
    (hsize : (g.terminals.intern word).2.size < UInt32.size)
    (hunused : ∀ {t : SymbolId}, g.terminals.size ≤ t.toNat → g.lexicon.get t = [])
    (other : String) :
    (g.addWord lhs word).categories other =
      if word = other ∧ lhs ∉ g.categories word then g.categories word ++ [lhs]
      else g.categories other := by
  have hid : (g.addWord lhs word).terminals.id? other =
      if word = other then some (g.terminals.intern word).1 else g.terminals.id? other := by
    rw [terminals_addWord, SymbolTable.id?_intern]
  by_cases hother : word = other
  · rw [if_pos hother] at hid
    subst hother
    rw [categories_of_id? hid, get_lexicon_addWord, get_lexicon_intern hsize hunused]
    simp only [true_and]
  · rw [if_neg hother] at hid
    rw [if_neg fun h => hother h.1]
    cases hold : g.terminals.id? other with
    | none => rw [categories_of_id?_eq_none (hid.trans hold), categories_of_id?_eq_none hold]
    | some k =>
      rw [categories_of_id? (hid.trans hold), categories_of_id? hold, get_lexicon_addWord, if_neg]
      rintro ⟨rfl, -⟩
      exact hother ((ht.intern word).eq_of_id? hsize.le (g.terminals.id?_intern_self word)
        (SymbolTable.id?_intern_of_id? hold))

/-- The lexicon lists the left-hand sides of the rules of each word, and nothing for ids that are in
no use. -/
structure Indexes (g : Grammar) (rules : List WrittenRule) : Prop where
  categories (word : String) :
    List.Forall₂ (fun name id => g.nonTerminals.id? name = some id) (categoriesOf rules word)
      (g.categories word)
  unused {t : SymbolId} : g.terminals.size ≤ t.toNat → g.lexicon.get t = []

theorem indexes_ofLeftHandSides (name : String) (entries : List Entry) :
    (ofLeftHandSides name entries).Indexes [] where
  categories _ := .nil
  unused _ := rfl

/-- Different left-hand sides have different ids, so both lists lack the same ones. -/
theorem Indexes.mem_categories {rules : List WrittenRule} (h : g.Indexes rules)
    (hg : g.Transcribes rules) {name : String} {id : SymbolId}
    (hid : g.nonTerminals.id? name = some id) (word : String) :
    name ∈ categoriesOf rules word ↔ id ∈ g.categories word := by
  constructor
  · intro hmem
    obtain ⟨nt, hnt, hname⟩ := (h.categories word).flip.exists_of_mem hmem
    obtain rfl := Option.some.inj (hid.symm.trans hname)
    exact hnt
  · intro hmem
    obtain ⟨other, hother, hname⟩ := (h.categories word).exists_of_mem hmem
    rwa [hg.nonTerminals.eq_of_id? hg.size_lt.le hid hname]

theorem Indexes.addWord {rules : List WrittenRule} (h : g.Indexes rules)
    (hg : g.Transcribes rules) {r : WrittenRule} {word : String} (hword : r.word? = some word)
    {id : SymbolId} (hid : g.nonTerminals.id? r.lhs = some id)
    (hsize : (g.terminals.intern word).2.size < UInt32.size) :
    (g.addWord id word).Indexes (rules ++ [r]) := by
  have halternative := WrittenRule.word?_eq_some.mp hword
  refine ⟨fun other => ?_, fun {t} ht => ?_⟩
  · rw [nonTerminals_addWord, categoriesOf_concat, halternative,
      categories_addWord hg.terminals id hsize h.unused]
    by_cases hother : word = other
    · subst hother
      simp only [true_and, h.mem_categories hg hid]
      split_ifs
      · exact h.categories word
      · exact List.rel_append (h.categories word) (.cons hid .nil)
    · simpa [hother] using h.categories other
  · rw [terminals_addWord] at ht
    have hlt : (g.terminals.intern word).1.toNat < (g.terminals.intern word).2.size :=
      (hg.terminals.intern word).toNat_lt (g.terminals.id?_intern_self word)
    rw [get_lexicon_addWord, if_neg]
    · exact h.unused ((g.terminals.size_le_size_intern word).trans ht)
    · rintro ⟨rfl, -⟩
      omega

theorem Indexes.addRule {rules : List WrittenRule} (h : g.Indexes rules)
    (hg : g.Transcribes rules) {r : WrittenRule} {id : SymbolId}
    (hid : g.nonTerminals.id? r.lhs = some id) (hrule : g.addRule r = .ok g')
    (hsize : g'.terminals.size < UInt32.size) : g'.Indexes (rules ++ [r]) := by
  cases hword : r.word? with
  | some word =>
    obtain rfl := Except.ok.inj ((addRule_of_word hword).symm.trans hrule)
    rw [hid, Option.getD_some] at hsize ⊢
    rw [terminals_addWord] at hsize
    exact h.addWord hg hword hid hsize
  | none =>
    obtain ⟨p, -, rfl⟩ := (addRule_eq_ok hword).mp hrule
    refine ⟨fun word => ?_, h.unused⟩
    have hne : r.alternative ≠ [.word word] := fun he => by
      simp [WrittenRule.word?_eq_some.mpr he] at hword
    rw [categoriesOf_concat, if_neg fun hr => hne hr.1]
    exact h.categories word

/-- The number of words only grows while rules are read, so it is small enough on the way if it is at
the end. -/
theorem indexes_of_foldlM {name : String} {entries : List Entry}
    (h : entries.foldlM addEntry (ofLeftHandSides name entries) = .ok g) (hsmall : g.Small) :
    g.Indexes (rulesOf entries) := by
  have hrun : g.Transcribes (rulesOf entries) ∧
      (g.terminals.size < UInt32.size → g.Indexes (rulesOf entries)) := by
    refine foldlM_addEntry_induction (P := fun g rules => g.Transcribes rules ∧
      (g.terminals.size < UInt32.size → g.Indexes rules)) ?_ ⟨?_, ?_⟩ h
    · intro g g' rules r id _ hg hid hrule
      refine ⟨hg.1.addRule hid hrule, fun hsize => ?_⟩
      have hle : g.terminals.size ≤ g'.terminals.size := by
        rw [(adds_of_addRule hrule).terminals]
        exact g.terminals.size_le_size_internAll _
      exact (hg.2 (hle.trans_lt hsize)).addRule hg.1 hid hrule hsize
    · exact transcribes_ofLeftHandSides (by
        have hsize := hsmall.nonTerminals
        rwa [(tables_of_foldlM h).1] at hsize)
    · exact fun _ => indexes_ofLeftHandSides name entries
  exact hrun.2 hsmall.terminals

/-- A grammar that says what entries say. An id is the place of its name among the left-hand sides
without the repeated ones, or of its word among the words, and productions have the ids of what they
are written as. -/
structure Transcript (g : Grammar) (start? : Option String) (entries : List Entry) : Prop where
  nonTerminals {name : String} {id : SymbolId} :
    g.nonTerminals.id? name = some id ↔ (entries.map Entry.lhs).eraseDups[id.toNat]? = some name
  terminals {word : String} {id : SymbolId} :
    g.terminals.id? word = some id ↔ (writtenWords entries).eraseDups[id.toNat]? = some word
  denotes {name : String} {id : SymbolId} : g.nonTerminals.id? name = some id →
    List.Forall₂ (List.Forall₂ g.Denotes) (gathered entries name) (g.alternatives id)
  alternatives (name : String) : g.writtenNamed name = gathered entries name
  words (name : String) : g.wordsNamed name = (gathered entries name).filterMap oneWord?
  categories (word : String) :
    (g.categories word).map g.nonTerminalText = categoriesOf (rulesOf entries) word
  startName : g.startName? = start?.or (entries.head?.map Entry.lhs)

theorem filterMap_oneWord? (ht : g.terminals.Lawful) (hsize : g.terminals.size < UInt32.size)
    {as : List WrittenAlternative} {ps : List Production}
    (h : List.Forall₂ (List.Forall₂ g.Denotes) as ps) :
    as.filterMap oneWord? = ps.filterMap fun
      | [.terminal t] => g.terminals.name? t
      | _ => none := by
  induction h with
  | nil => rfl
  | @cons a p as ps hap _ ih =>
    rw [List.filterMap_cons, List.filterMap_cons, ih]
    cases hap with
    | nil => rfl
    | @cons s sym _ _ hs hrest =>
      cases hrest with
      | nil =>
        cases s <;> cases sym <;> simp_all [Denotes, oneWord?, ht.id?_eq_some_iff hsize.le]
      | cons => simp [oneWord?]

theorem Transcribes.wordsNamed {rules : List WrittenRule} (hg : g.Transcribes rules)
    (hsmall : g.Small) (name : String) :
    g.wordsNamed name = (alternativesOf rules name).filterMap oneWord? := by
  cases hid : g.nonTerminals.id? name with
  | none =>
    rw [hg.alternativesOf_of_id?_eq_none hid]
    unfold Grammar.wordsNamed
    rw [hid]
    rfl
  | some nt =>
    rw [wordsNamed_of_id? hid]
    exact (filterMap_oneWord? hg.terminals hsmall.terminals (hg.alternatives hid)).symm

theorem id?_of_definedId {name : String} {id : SymbolId} (h : g.definedId name = .ok id) :
    g.nonTerminals.id? name = some id := by
  unfold definedId at h
  split at h
  · next hid =>
    split_ifs at h
    exact Except.ok.inj h ▸ hid
  · cases h

theorem startName_ofEntries {name : String} {start? : Option String} {entries : List Entry}
    (h : ofEntries name start? entries = .ok g) (hsmall : g.Small)
    (ht : g.nonTerminals.Lawful) :
    g.startName? = start?.or (entries.head?.map Entry.lhs) := by
  have hname {other : String} (hid : g.nonTerminals.id? other = some g.start) :
      g.startName? = some other := (ht.id?_eq_some_iff hsmall.nonTerminals.le).mp hid
  rcases start_ofEntries h with ⟨start, rfl, hid⟩ | ⟨rfl, e, he, hid⟩
  · exact hname (id?_of_definedId hid)
  · rw [hname hid, Option.mem_def.mp he]
    rfl

theorem indexes_ofEntries {name : String} {start? : Option String} {entries : List Entry}
    (hfew : FewSymbols entries) (h : ofEntries name start? entries = .ok g) :
    g.Indexes (rulesOf entries) := by
  obtain ⟨-, g₁, hrun, hstart, -⟩ := ofEntries_eq_ok.mp h
  obtain ⟨hnames, hwords, -⟩ := tables_of_foldlM hrun
  have hindexes := indexes_of_foldlM hrun (small_of_tables hfew ⟨hnames, hwords⟩)
  cases start? with
  | none => exact Except.ok.inj hstart ▸ hindexes
  | some start =>
    obtain ⟨id, -, rfl⟩ := g₁.withStart_eq_ok.mp hstart
    exact ⟨hindexes.categories, hindexes.unused⟩

/-- A grammar that is made of entries says what they say: ids are ranks of first appearance, and
alternatives, words, categories and the start symbol are read back as they were written. -/
theorem transcript_ofEntries {name : String} {start? : Option String} {entries : List Entry}
    (hfew : FewSymbols entries) (h : ofEntries name start? entries = .ok g) :
    g.Transcript start? entries := by
  obtain ⟨hunchecked, -⟩ := ofEntries_eq_ok_iff_unchecked.mp h
  obtain ⟨-, g₁, hrun, -⟩ := unchecked_eq_ok.mp hunchecked
  have hg := transcribes_unchecked hfew.names hunchecked
  have htables := tables_ofEntries h
  have hsmall := small_of_tables hfew htables
  rw [filterMap_word?_rulesOf (firstError?_of_foldlM hrun)] at htables
  refine ⟨?_, ?_, ?_, ?_, ?_, ?_, startName_ofEntries h hsmall hg.nonTerminals⟩
  · intro name id
    rw [htables.1]
    exact SymbolTable.id?_internAll_eq_some_iff (htables.1 ▸ hsmall.nonTerminals)
  · intro word id
    rw [htables.2]
    exact SymbolTable.id?_internAll_eq_some_iff (htables.2 ▸ hsmall.terminals)
  · intro name id hid
    rw [← alternativesOf_rulesOf]
    exact hg.alternatives hid
  · intro name
    rw [hg.writtenNamed hsmall, alternativesOf_rulesOf]
  · intro name
    rw [hg.wordsNamed hsmall, alternativesOf_rulesOf]
  · intro word
    symm
    rw [← List.forall₂_eq_eq_eq, List.forall₂_map_right_iff]
    exact ((indexes_ofEntries hfew h).categories word).imp fun _ _ hid =>
      (nonTerminalText_of_id? hg.nonTerminals hg.size_lt hid).symm

def interleavedEntries : List Entry :=
  [⟨"S", [[.name "N", .name "V"]]⟩, ⟨"V", [[.word "duck"], [.word "run"]]⟩,
    ⟨"N", [[.word "run"], [.word "duck"]]⟩, ⟨"S", [[.name "V"]]⟩, ⟨"V", [[.word "duck"]]⟩]

/-- The second entry of a left-hand side adds to the first, and a repeated word is kept as an
alternative but not as a category. -/
theorem transcript_interleaved : ∃ g, ofEntries "ducks" none interleavedEntries = .ok g ∧
    g.nonTerminals.id? "N" = some 2 ∧ g.terminals.id? "run" = some 1 ∧
      g.writtenNamed "S" = [[.name "N", .name "V"], [.name "V"]] ∧
        g.wordsNamed "V" = ["duck", "run", "duck"] ∧
          (g.categories "duck").map g.nonTerminalText = ["V", "N"] ∧ g.startName? = some "S" := by
  let g := (ofEntries "ducks" none interleavedEntries).toOption.get (by decide +kernel)
  have hload : ofEntries "ducks" none interleavedEntries = .ok g := Except.eq_ok_get _
  have hfew : FewSymbols interleavedEntries := ⟨by decide +kernel, by decide +kernel⟩
  have htranscript : g.Transcript none interleavedEntries := transcript_ofEntries hfew hload
  refine ⟨g, hload, htranscript.nonTerminals.mpr (by decide +kernel),
    htranscript.terminals.mpr (by decide +kernel), ?_, ?_, ?_, htranscript.startName⟩
  · rw [htranscript.alternatives]
    decide +kernel
  · rw [htranscript.words]
    decide +kernel
  · rw [htranscript.categories]
    decide +kernel

end Grammar

end PhraseStructure
