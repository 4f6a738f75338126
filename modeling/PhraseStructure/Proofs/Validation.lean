import Mathlib.Tactic
import PhraseStructure.Proofs.Names

/-!
# Which entries make a grammar

Entries make a grammar if there is one at all, each rule fits the left-hand sides, the start symbol
has alternatives and the one-name alternatives form no cycle. Of entries that do not, the fault that
is reported is the first of these, and among symbols that are out of place the first in reading
order. All conditions are on the entries alone, with names for non-terminals.
-/

namespace PhraseStructure

/-- What is wrong with a symbol of a rule where `names` are the non-terminals: it is a word but not
the whole alternative, or a name but not among them. -/
def WrittenRule.symbolError? (names : List String) (r : WrittenRule) :
    WrittenSymbol → Option GrammarError
  | .word word => if r.alternative = [.word word] then none else some (.mixedAlternative r.lhs)
  | .name name => if name ∈ names then none else some (.undefinedNonTerminal name)

/-- What is wrong with the first symbol of a rule that is out of place. -/
def WrittenRule.error? (names : List String) (r : WrittenRule) : Option GrammarError :=
  r.alternative.findSome? (r.symbolError? names)

/-- What is wrong with the first symbol that is out of place, in reading order. -/
def firstError? (entries : List Entry) : Option GrammarError :=
  (rulesOf entries).findSome? (WrittenRule.error? (entries.map Entry.lhs))

/-- Whether a name is the left-hand side of an entry that has alternatives. -/
def Produces (entries : List Entry) (name : String) : Prop :=
  ∃ e ∈ entries, e.lhs = name ∧ e.alternatives ≠ []

/-- An alternative that is one name leads from its left-hand side to that name. -/
def LeadsTo (entries : List Entry) (name child : String) : Prop :=
  ∃ e ∈ entries, e.lhs = name ∧ [.name child] ∈ e.alternatives

/-- The entries have few enough names and words for ids of 32 bits. -/
structure FewSymbols (entries : List Entry) : Prop where
  names : (entries.map Entry.lhs).dedup.length < UInt32.size
  words : ((rulesOf entries).filterMap WrittenRule.word?).dedup.length < UInt32.size

/-- What makes a grammar of entries and a start symbol, if one is chosen. -/
structure Acceptable (start? : Option String) (entries : List Entry) : Prop where
  ne_nil : entries ≠ []
  fits {r : WrittenRule} : r ∈ rulesOf entries → r.Fits (entries.map Entry.lhs)
  start {name : String} : start? = some name → Produces entries name
  acyclic (name : String) : ¬Relation.TransGen (LeadsTo entries) name name

/-- The fault that is reported of entries and a start symbol. -/
inductive Refused : Option String → List Entry → GrammarError → Prop
  | empty {start? : Option String} : Refused start? [] .empty
  | symbol {start? : Option String} {entries : List Entry} {e : GrammarError} :
      firstError? entries = some e → Refused start? entries e
  | start {entries : List Entry} {name : String} :
      entries ≠ [] → firstError? entries = none → ¬Produces entries name →
        Refused (some name) entries (.unknownStart name)
  | cycle {start? : Option String} {entries : List Entry} {name : String} :
      firstError? entries = none → (∀ start, start? = some start → Produces entries start) →
        Relation.TransGen (LeadsTo entries) name name →
          Refused start? entries (.unaryCycle name)

theorem WrittenRule.error?_eq_none {names : List String} {r : WrittenRule} :
    r.error? names = none ↔ r.Fits names := by
  unfold error? Fits
  rw [List.findSome?_eq_none_iff]
  constructor
  · intro h
    by_cases hword : ∃ word, r.alternative = [.word word]
    · exact Or.inl hword
    · refine Or.inr fun s hs => ?_
      have hnone := h s hs
      cases s with
      | word word =>
        have hne : r.alternative ≠ [.word word] := fun he => hword ⟨word, he⟩
        simp [symbolError?, hne] at hnone
      | name name => exact ⟨name, by simpa [symbolError?] using hnone, rfl⟩
  · rintro (⟨word, hword⟩ | h) s hs
    · rw [hword, List.mem_singleton] at hs
      simp [symbolError?, hs, hword]
    · obtain ⟨name, hname, rfl⟩ := h s hs
      simp [symbolError?, hname]

theorem firstError?_eq_none {entries : List Entry} :
    firstError? entries = none ↔ ∀ r ∈ rulesOf entries, r.Fits (entries.map Entry.lhs) := by
  unfold firstError?
  rw [List.findSome?_eq_none_iff]
  simp only [WrittenRule.error?_eq_none]

theorem produces_iff {entries : List Entry} {name : String} :
    Produces entries name ↔ alternativesOf (rulesOf entries) name ≠ [] := by
  simp only [Produces, Ne, List.eq_nil_iff_forall_not_mem, not_forall, not_not,
    mem_alternativesOf, mem_rulesOf]
  constructor
  · rintro ⟨e, he, rfl, a, ha⟩
    exact ⟨a, e, he, rfl, ha⟩
  · rintro ⟨a, e, he, hlhs, ha⟩
    exact ⟨e, he, hlhs.symm, a, ha⟩

theorem leadsTo_iff {entries : List Entry} {name child : String} :
    LeadsTo entries name child ↔ ⟨name, [.name child]⟩ ∈ rulesOf entries := by
  rw [mem_rulesOf]
  exact exists_congr fun e => and_congr_right fun _ => and_congr_left' eq_comm

theorem Refused.not_acceptable {start? : Option String} {entries : List Entry} {e : GrammarError}
    (h : Refused start? entries e) : ¬Acceptable start? entries := by
  intro ha
  cases h with
  | empty => exact ha.ne_nil rfl
  | symbol hfirst => simp [firstError?_eq_none.mpr fun _ hr => ha.fits hr] at hfirst
  | start _ _ hstart => exact hstart (ha.start rfl)
  | cycle _ _ hcycle => exact ha.acyclic _ hcycle

/-- A symbol that is out of place is reported whatever else is wrong with later ones, with the start
symbol or with the unary rules. -/
theorem Refused.eq_of_firstError? {start? : Option String} {entries : List Entry}
    {e first : GrammarError} (h : Refused start? entries e)
    (hfirst : firstError? entries = some first) : e = first := by
  cases h with
  | empty => cases hfirst
  | symbol he => exact Option.some.inj (he.symm.trans hfirst)
  | start _ hnone _ => simp [hnone] at hfirst
  | cycle hnone _ _ => simp [hnone] at hfirst

namespace Grammar

variable {g : Grammar}

theorem addRule_eq_error {names : List String}
    (hnames : ∀ name, name ∈ names ↔ ∃ id, g.nonTerminals.id? name = some id) {r : WrittenRule}
    {e : GrammarError} : g.addRule r = .error e ↔ r.error? names = some e := by
  cases hword : r.word? with
  | some word =>
    rw [addRule_of_word hword]
    simp [WrittenRule.error?, WrittenRule.symbolError?, WrittenRule.word?_eq_some.mp hword]
  | none =>
    rw [addRule_of_names hword, Except.map_eq_error]
    refine Except.mapM_eq_error fun s hs e => ?_
    cases s with
    | word word =>
      have hne : r.alternative ≠ [.word word] := fun he => by
        simp [WrittenRule.word?_eq_some.mpr he] at hword
      simp [resolve, WrittenRule.symbolError?, hne]
    | name name =>
      cases hid : g.nonTerminals.id? name <;>
        simp [resolve, WrittenRule.symbolError?, hnames, hid]

/-- The rules are not read to the end exactly if a symbol is out of place, and the first such symbol
decides what is reported. -/
theorem foldlM_addEntry_eq_error {name : String} {entries : List Entry} {e : GrammarError} :
    entries.foldlM addEntry (ofLeftHandSides name entries) = .error e ↔
      firstError? entries = some e := by
  rw [foldlM_addEntry]
  refine Except.foldlM_eq_error
    (P := fun g => g.nonTerminals = (∅ : SymbolTable).internAll (entries.map Entry.lhs)) ?_ ?_ rfl
  · intro s s' r hs h
    rw [(adds_of_addRule h).nonTerminals, hs]
  · intro s r hs e
    apply addRule_eq_error
    intro name
    have hlawful := SymbolTable.lawful_empty.internAll (entries.map Entry.lhs)
    rw [hs, ← hlawful.mem_names_iff, SymbolTable.mem_names_internAll_empty]

theorem firstError?_of_foldlM {name : String} {entries : List Entry}
    (h : entries.foldlM addEntry (ofLeftHandSides name entries) = .ok g) :
    firstError? entries = none := by
  rw [Option.eq_none_iff_forall_ne_some]
  intro e he
  simp [foldlM_addEntry_eq_error.mpr he] at h

theorem small_of_tables {entries : List Entry} (hfew : FewSymbols entries)
    (h : g.nonTerminals = (∅ : SymbolTable).internAll (entries.map Entry.lhs) ∧
      g.terminals =
        (∅ : SymbolTable).internAll ((rulesOf entries).filterMap WrittenRule.word?)) :
    g.Small := by
  constructor
  · rw [h.1]
    exact (SymbolTable.size_internAll _).trans_lt hfew.names
  · rw [h.2]
    exact (SymbolTable.size_internAll _).trans_lt hfew.words

theorem holds_and_small_of_foldlM {name : String} {entries : List Entry} (hentries : entries ≠ [])
    (hne : ∀ e ∈ entries, [] ∉ e.alternatives) (hfew : FewSymbols entries)
    (h : entries.foldlM addEntry (ofLeftHandSides name entries) = .ok g) :
    g.Holds (rulesOf entries) ∧ g.Small := by
  obtain ⟨hnames, hwords, -⟩ := tables_of_foldlM h
  have hsmall := small_of_tables hfew ⟨hnames, hwords⟩
  exact ⟨holds_of_foldlM hentries hne h hsmall.nonTerminals, hsmall⟩

theorem definedId_eq_error {name : String} {e : GrammarError} (h : g.definedId name = .error e) :
    e = .unknownStart name := by
  unfold definedId at h
  split at h
  · split_ifs at h
    exact (Except.error.inj h).symm
  · exact (Except.error.inj h).symm

theorem Holds.exists_definedId {rules : List WrittenRule} (hg : g.Holds rules) {name : String} :
    (∃ id, g.definedId name = .ok id) ↔ alternativesOf rules name ≠ [] := by
  unfold definedId
  cases hid : g.nonTerminals.id? name with
  | none => simp [hg.alternativesOf_of_id?_eq_none hid]
  | some id =>
    have hlength := (hg.alternatives hid).length_eq
    rw [← List.length_pos_iff, hlength, List.length_pos_iff]
    by_cases hnil : g.alternatives id = [] <;> simp [hnil]

section

variable {entries : List Entry} (hg : g.Transcribes (rulesOf entries))
include hg

theorem Transcribes.namedStep_eq : g.NamedStep = LeadsTo entries := by
  funext name child
  rw [hg.namedStep_iff, mem_alternativesOf, leadsTo_iff]

theorem Transcribes.checkUnaryCycles_eq_ok :
    g.checkUnaryCycles = .ok () ↔ ∀ name, ¬Relation.TransGen (LeadsTo entries) name name := by
  rw [← hg.namedStep_eq, hg.identified.checkUnaryCycles_eq_ok]

theorem Transcribes.exists_cycle_of_error {e : GrammarError} (h : g.checkUnaryCycles = .error e) :
    ∃ name, Relation.TransGen (LeadsTo entries) name name ∧ e = .unaryCycle name := by
  rw [← hg.namedStep_eq]
  exact hg.identified.exists_cycle_of_error h

end

/-- The stages in which entries are refused. -/
theorem ofEntries_eq_error {name : String} {start? : Option String} {entries : List Entry}
    {e : GrammarError} :
    ofEntries name start? entries = .error e ↔
      entries = [] ∧ e = .empty ∨
        entries ≠ [] ∧ (entries.foldlM addEntry (ofLeftHandSides name entries) = .error e ∨
          ∃ g₁, entries.foldlM addEntry (ofLeftHandSides name entries) = .ok g₁ ∧
            ((∃ start, start? = some start ∧ g₁.withStart start = .error e) ∨
              ∃ g : Grammar, (match start? with
                | some start => g₁.withStart start
                | none => .ok g₁) = .ok g ∧ g.checkUnaryCycles = .error e)) := by
  unfold ofEntries
  split_ifs with hempty
  · simp [List.isEmpty_iff.mp hempty, eq_comm]
  · have hne : entries ≠ [] := fun he => hempty (List.isEmpty_iff.mpr he)
    simp only [hne, false_and, false_or, ne_eq, not_false_eq_true, true_and, Except.bind_eq_error]
    refine or_congr_right (exists_congr fun g₁ => and_congr_right fun _ => ?_)
    cases start? <;> simp [Except.bind_eq_error, pure, Except.pure]

theorem Holds.of_chosen {g₁ : Grammar} {entries : List Entry} (hg : g₁.Holds (rulesOf entries))
    (hsmall : g₁.Small) {start? : Option String}
    (h : (match start? with
      | some start => g₁.withStart start
      | none => .ok g₁) = .ok g) :
    g.Holds (rulesOf entries) ∧ g.Small ∧
      ∀ start, start? = some start → Produces entries start := by
  cases start? with
  | none =>
    obtain rfl := Except.ok.inj h
    exact ⟨hg, hsmall, nofun⟩
  | some start =>
    refine ⟨hg.withStart h, ?_, ?_⟩
    · obtain ⟨id, -, rfl⟩ := g₁.withStart_eq_ok.mp h
      exact ⟨hsmall.nonTerminals, hsmall.terminals⟩
    · intro name hname
      obtain rfl := Option.some.inj hname
      obtain ⟨id, hid, -⟩ := g₁.withStart_eq_ok.mp h
      exact produces_iff.mpr (hg.exists_definedId.mp ⟨id, hid⟩)

theorem refused_of_ofEntries {name : String} {start? : Option String} {entries : List Entry}
    (hne : ∀ e ∈ entries, [] ∉ e.alternatives) (hfew : FewSymbols entries) {e : GrammarError}
    (h : ofEntries name start? entries = .error e) : Refused start? entries e := by
  rcases ofEntries_eq_error.mp h with ⟨rfl, rfl⟩ | ⟨hentries, hrules | ⟨g₁, hrun, hlater⟩⟩
  · exact .empty
  · exact .symbol (foldlM_addEntry_eq_error.mp hrules)
  · obtain ⟨hholds, hsmall⟩ := holds_and_small_of_foldlM hentries hne hfew hrun
    have hfirst := firstError?_of_foldlM hrun
    rcases hlater with ⟨start, rfl, hstart⟩ | ⟨g, hchosen, hcycle⟩
    · have hfail := Except.map_eq_error.mp hstart
      obtain rfl := definedId_eq_error hfail
      refine .start hentries hfirst fun hproduces => ?_
      obtain ⟨id, hid⟩ := hholds.exists_definedId.mpr (produces_iff.mp hproduces)
      simp [hid] at hfail
    · obtain ⟨hholds', hsmall', hstart⟩ := hholds.of_chosen hsmall hchosen
      obtain ⟨culprit, hculprit, rfl⟩ := hholds'.exists_cycle_of_error hcycle
      exact .cycle hfirst hstart hculprit

theorem acceptable_of_ofEntries {name : String} {start? : Option String} {entries : List Entry}
    (hne : ∀ e ∈ entries, [] ∉ e.alternatives) (hfew : FewSymbols entries)
    (h : ofEntries name start? entries = .ok g) : Acceptable start? entries := by
  obtain ⟨hentries, g₁, hrun, hchosen, hcycles⟩ := ofEntries_eq_ok.mp h
  obtain ⟨hholds, hsmall⟩ := holds_and_small_of_foldlM hentries hne hfew hrun
  obtain ⟨hholds', hsmall', hstart⟩ := hholds.of_chosen hsmall hchosen
  refine ⟨hentries, ?_, fun {start} => hstart start, ?_⟩
  · exact fun {r} => firstError?_eq_none.mp (firstError?_of_foldlM hrun) r
  · exact hholds'.checkUnaryCycles_eq_ok.mp hcycles

theorem exists_ofEntries_iff {name : String} {start? : Option String} {entries : List Entry}
    (hne : ∀ e ∈ entries, [] ∉ e.alternatives) (hfew : FewSymbols entries) :
    (∃ g, ofEntries name start? entries = .ok g) ↔ Acceptable start? entries := by
  constructor
  · rintro ⟨g, h⟩
    exact acceptable_of_ofEntries hne hfew h
  · intro hacceptable
    cases h : ofEntries name start? entries with
    | ok g => exact ⟨g, rfl⟩
    | error e => exact absurd hacceptable (refused_of_ofEntries hne hfew h).not_acceptable

/-- Entries without empty alternatives make a grammar exactly if they are acceptable. Others are
refused for the first of their faults. -/
theorem ofEntries_verdict (name : String) (start? : Option String) {entries : List Entry}
    (hne : ∀ e ∈ entries, [] ∉ e.alternatives) (hfew : FewSymbols entries) :
    ((∃ g, ofEntries name start? entries = .ok g) ↔ Acceptable start? entries) ∧
      ∀ e, ofEntries name start? entries = .error e → Refused start? entries e :=
  ⟨exists_ofEntries_iff hne hfew, fun _ => refused_of_ofEntries hne hfew⟩

/-- Entries with many faults: a cycle, a word among names, a name without a left-hand side. -/
def faultyEntries : List Entry :=
  [⟨"S", [[.name "N"], [.name "S"], [.name "N", .word "a"], [.name "V"]]⟩, ⟨"N", [[.word "a"]]⟩]

/-- The misplaced word comes before the undefined name, the start symbol and the cycle. -/
theorem refused_faultyEntries :
    ofEntries "faulty" (some "T") faultyEntries = .error (.mixedAlternative "S") := by
  have hfirst : firstError? faultyEntries = some (.mixedAlternative "S") := by decide +kernel
  have hfew : FewSymbols faultyEntries := ⟨by decide +kernel, by decide +kernel⟩
  obtain ⟨haccepted, hrefused⟩ := ofEntries_verdict "faulty" (some "T") (by decide +kernel) hfew
  cases h : ofEntries "faulty" (some "T") faultyEntries with
  | ok g => exact absurd (haccepted.mp ⟨g, h⟩) (Refused.symbol hfirst).not_acceptable
  | error e => rw [(hrefused e h).eq_of_firstError? hfirst]

end Grammar

end PhraseStructure
