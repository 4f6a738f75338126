import Mathlib.Tactic
import PhraseStructure.Proofs.Validation

/-!
# Symbols that have alternatives

A name is a non-terminal by being a left-hand side, but it derives nothing unless alternatives are
written for it. A line of rule text always has one, so a grammar that is read from rule text never
refers to a name without. A document may list none for a name. Such a name is refused as a start
symbol that is asked for, but neither in an alternative nor as the first left-hand side.
-/

namespace PhraseStructure

namespace Grammar

/-- The start symbol and the non-terminals in alternatives have alternatives themselves. -/
structure Defined (g : Grammar) : Prop where
  start : g.alternatives g.start ≠ []
  child {nt child : SymbolId} {p : Production} :
    p ∈ g.alternatives nt → .nonTerminal child ∈ p → g.alternatives child ≠ []

/-- The names in alternatives have alternatives, and so does the first left-hand side if no start
symbol is chosen. -/
structure AllProduce (start? : Option String) (entries : List Entry) : Prop where
  start : start? = none → ∀ e ∈ entries.head?, Produces entries e.lhs
  child {r : WrittenRule} {name : String} :
    r ∈ rulesOf entries → .name name ∈ r.alternative → Produces entries name

/-- What a grammar that is made of rules refers to: their left-hand sides have alternatives, and
each non-terminal in an alternative is named in a rule. Ids may have wrapped. -/
structure Refers (g : Grammar) (rules : List WrittenRule) : Prop extends g.Coherent where
  produces {r : WrittenRule} {id : SymbolId} :
    r ∈ rules → g.nonTerminals.id? r.lhs = some id → g.alternatives id ≠ []
  named {nt child : SymbolId} {p : Production} :
    p ∈ g.alternatives nt → .nonTerminal child ∈ p →
      ∃ r ∈ rules, ∃ name, .name name ∈ r.alternative ∧ g.nonTerminals.id? name = some child

variable {g g' : Grammar} {entries : List Entry} {name : String} {start? : Option String}

theorem refers_ofLeftHandSides (name : String) (hne : entries ≠ []) :
    (ofLeftHandSides name entries).Refers [] :=
  { coherent_ofLeftHandSides name hne with
    produces := by simp
    named := by simp }

theorem Refers.addRule {rules : List WrittenRule} (hg : g.Refers rules) {r : WrittenRule}
    (hne : r.alternative ≠ []) {id : SymbolId} (hid : g.nonTerminals.id? r.lhs = some id)
    (h : g.addRule r = .ok g') : g'.Refers (rules ++ [r]) := by
  have hadds := adds_of_addRule h
  obtain ⟨p, hp, hadded⟩ := hadds.alternatives hid (hg.size_rules ▸ hg.nonTerminals.toNat_lt hid)
  refine { hg.toCoherent.addRule hne h with produces := ?_, named := ?_ }
  · intro r' id' hr' hid'
    rw [hadds.nonTerminals] at hid'
    rw [hadded]
    split_ifs with hsame
    · exact List.append_ne_nil_of_right_ne_nil _ (List.cons_ne_nil _ _)
    · rcases List.mem_append.mp hr' with hr' | hr'
      · exact hg.produces hr' hid'
      · obtain rfl := List.mem_singleton.mp hr'
        exact absurd (Option.some.inj (hid.symm.trans hid')) hsame
  · intro nt child q hq hchild
    have hq' : q ∈ g.alternatives nt ∨ q = p := by
      rw [hadded] at hq
      split_ifs at hq
      · simpa using hq
      · exact Or.inl hq
    rw [hadds.nonTerminals]
    rcases hq' with hold | rfl
    · obtain ⟨r', hr', name, hname, hchildId⟩ := hg.named hold hchild
      exact ⟨r', List.mem_append_left _ hr', name, hname, hchildId⟩
    · obtain ⟨s, hs, hdenotes⟩ := hp.exists_of_mem hchild
      obtain ⟨name, rfl, hchildId⟩ := hdenotes.exists_name
      rw [hadds.nonTerminals] at hchildId
      exact ⟨r, List.mem_append_right _ List.mem_cons_self, name, hs, hchildId⟩

theorem Refers.withStart {rules : List WrittenRule} (hg : g.Refers rules)
    (h : g.withStart name = .ok g') : g'.Refers rules := by
  have hcoherent := hg.toCoherent.withStart h
  obtain ⟨id, -, rfl⟩ := g.withStart_eq_ok.mp h
  exact { hcoherent with
    produces := hg.produces
    named := hg.named }

theorem refers_ofEntries (hne : ∀ e ∈ entries, [] ∉ e.alternatives)
    (h : ofEntries name start? entries = .ok g) : g.Refers (rulesOf entries) := by
  obtain ⟨hentries, g₁, hrun, hstart, -⟩ := ofEntries_eq_ok.mp h
  have hrefers : g₁.Refers (rulesOf entries) :=
    foldlM_addEntry_induction (fun hr hg hid => hg.addRule (ne_nil_of_mem_rulesOf hne hr) hid)
      (refers_ofLeftHandSides name hentries) hrun
  cases start? with
  | none => exact Except.ok.inj hstart ▸ hrefers
  | some start => exact hrefers.withStart hstart

theorem start_ofEntries (h : ofEntries name start? entries = .ok g) :
    (∃ start, start? = some start ∧ g.definedId start = .ok g.start) ∨
      start? = none ∧ ∃ e ∈ entries.head?, g.nonTerminals.id? e.lhs = some g.start := by
  obtain ⟨hentries, g₁, hrun, hstart, -⟩ := ofEntries_eq_ok.mp h
  cases start? with
  | some start =>
    obtain ⟨id, hid, rfl⟩ := g₁.withStart_eq_ok.mp hstart
    exact Or.inl ⟨start, rfl, hid⟩
  | none =>
    obtain rfl := Except.ok.inj hstart
    obtain ⟨hnames, -, hzero⟩ := tables_of_foldlM hrun
    obtain ⟨e, rest, rfl⟩ := List.exists_cons_of_ne_nil hentries
    refine Or.inr ⟨rfl, e, rfl, ?_⟩
    rw [hnames, hzero]
    exact SymbolTable.id?_internAll_of_id? (SymbolTable.id?_intern_self ..) _

theorem Refers.alternatives_ne_nil (hg : g.Refers (rulesOf entries)) {child : String}
    (hchild : Produces entries child) {id : SymbolId} (hid : g.nonTerminals.id? child = some id) :
    g.alternatives id ≠ [] := by
  obtain ⟨e, he, rfl, halternatives⟩ := hchild
  obtain ⟨a, ha⟩ := List.exists_mem_of_ne_nil _ halternatives
  have hrule : (⟨e.lhs, a⟩ : WrittenRule) ∈ rulesOf entries := mem_rulesOf.mpr ⟨e, he, rfl, ha⟩
  exact hg.produces hrule hid

theorem defined_of_allProduce (hne : ∀ e ∈ entries, [] ∉ e.alternatives)
    (h : ofEntries name start? entries = .ok g) (hall : AllProduce start? entries) :
    g.Defined := by
  have hrefers := refers_ofEntries hne h
  constructor
  · rcases start_ofEntries h with ⟨start, -, hstart⟩ | ⟨hnone, e, he, hid⟩
    · exact alternatives_ne_nil_of_definedId hstart
    · exact hrefers.alternatives_ne_nil (hall.start hnone e he) hid
  · intro nt child p hp hchild
    obtain ⟨r, hr, name, hname, hid⟩ := hrefers.named hp hchild
    exact hrefers.alternatives_ne_nil (hall.child hr hname) hid

theorem Holds.produces (hg : g.Holds (rulesOf entries)) {child : String} {id : SymbolId}
    (hid : g.nonTerminals.id? child = some id) (hne : g.alternatives id ≠ []) :
    Produces entries child := by
  rw [produces_iff, ← List.length_pos_iff, (hg.alternatives hid).length_eq, List.length_pos_iff]
  exact hne

/-- Without wrapping, names are told apart, and each has to have alternatives of its own. -/
theorem allProduce_of_defined (hne : ∀ e ∈ entries, [] ∉ e.alternatives)
    (h : ofEntries name start? entries = .ok g) (hsmall : g.Small) (hdefined : g.Defined) :
    AllProduce start? entries := by
  have hholds := holds_ofEntries hne h hsmall.nonTerminals
  constructor
  · intro hnone e he
    rcases start_ofEntries h with ⟨start, hsome, -⟩ | ⟨-, e', he', hid⟩
    · cases hnone.symm.trans hsome
    · obtain rfl := Option.mem_unique he he'
      exact hholds.produces hid hdefined.start
  · intro r child hr hchild
    obtain ⟨id, hid⟩ := hholds.defined hr
    obtain ⟨p, hp, hdenotes⟩ :=
      (hholds.alternatives hid).flip.exists_of_mem (mem_alternativesOf.mpr hr)
    obtain ⟨s, hs, hchildId⟩ := hdenotes.flip.exists_of_mem hchild
    cases s with
    | terminal t => exact hchildId.elim
    | nonTerminal nt => exact hholds.produces hchildId (hdefined.child hp hs)

theorem allProduce_of_alternatives (hall : ∀ e ∈ entries, e.alternatives ≠ [])
    (h : ofEntries name start? entries = .ok g) : AllProduce start? entries := by
  obtain ⟨-, g₁, hrun, -, -⟩ := ofEntries_eq_ok.mp h
  have hfits := firstError?_eq_none.mp (firstError?_of_foldlM hrun)
  constructor
  · intro _ e he
    have hmem := List.mem_of_mem_head? he
    exact ⟨e, hmem, rfl, hall e hmem⟩
  · intro r child hr hchild
    rcases hfits r hr with ⟨word, hword⟩ | hnames
    · simp [hword] at hchild
    · obtain ⟨other, hother, heq⟩ := hnames _ hchild
      obtain rfl := WrittenSymbol.name.inj heq
      obtain ⟨e, he, rfl⟩ := List.mem_map.mp hother
      exact ⟨e, he, rfl, hall e he⟩

/-- All that a grammar from rule text refers to has alternatives. For a grammar from a document this
holds exactly if alternatives are listed for the names in question. -/
theorem defined_of_load (text : String) (g : Grammar) :
    (ofRuleText text = .ok g → g.Defined) ∧
      (ofJson text = .ok g → ∃ d entries, Document.ofText text = .ok d ∧
        d.entries = .ok entries ∧ (AllProduce d.start entries → g.Defined) ∧
          (g.Small → g.Defined → AllProduce d.start entries)) := by
  constructor
  · intro h
    obtain ⟨entries, hread, h⟩ := Except.bind_eq_ok.mp h
    have hreadable := RuleText.readable_of_readEntries hread
    refine defined_of_allProduce (fun e he => (hreadable e he).nil_notMem) h ?_
    exact allProduce_of_alternatives (fun e he => (hreadable e he).alternatives) h
  · intro h
    obtain ⟨d, hd, h⟩ := Except.bind_eq_ok.mp h
    obtain ⟨entries, hread, h⟩ := Except.bind_eq_ok.mp h
    have hvalid := Document.valid_of_entries hread
    have hne := fun e he => (hvalid e he).nil_notMem
    exact ⟨d, entries, Except.mapError_eq_ok.mp hd, hread, defined_of_allProduce hne h,
      allProduce_of_defined hne h⟩

def hollowDocument : String :=
  "\x7b\"start\":\"S\",\"rules\":\x7b\"S\":[[\"A\"]],\"A\":[]\x7d\x7d"

/-- The document is a grammar whose start symbol refers to a name without alternatives. -/
theorem not_defined_hollowDocument : ∃ g, ofJson hollowDocument = .ok g ∧ ¬g.Defined := by
  let hollow := (ofJson hollowDocument).toOption.get (by decide +kernel)
  have hload : ofJson hollowDocument = .ok hollow := Except.eq_ok_get _
  have hrule : [.nonTerminal 0] ∈ hollow.alternatives 1 := by decide +kernel
  have hnone : hollow.alternatives 0 = [] := by decide +kernel
  exact ⟨hollow, hload, fun hdefined => hdefined.child hrule List.mem_cons_self hnone⟩

end Grammar

end PhraseStructure
