import Mathlib.Tactic
import PhraseStructure.Proofs.Validation

/-!
# The check for unary cycles is exact

Entries that pass all checks before that of the unary rules are refused by it exactly if some name
leads back to itself by alternatives that are one name. The name that is reported leads back to
itself; names that only lead to a cycle are not reported. Alternatives may be empty or repeated, and
words may be any number. The search behind the check never gives up, and finishes no non-terminal
twice.
-/

namespace PhraseStructure.Grammar

variable {g : Grammar}

theorem Transcribes.unaryTargets_subset {rules : List WrittenRule} (hg : g.Transcribes rules)
    (nt : SymbolId) : g.unaryTargets nt ⊆ g.nonTerminalIds :=
  fun _ hchild => mem_nonTerminalIds (hg.identified.child_lt (g.mem_unaryTargets.mp hchild))

theorem unaryCycle?_eq_culprit? {o : UnaryCycle.Outcome}
    (h : UnaryCycle.visitAll g.unaryTargets g.nonTerminalIds = some o) :
    g.unaryCycle? = o.culprit? := by
  obtain ⟨culprit?, finished⟩ := o
  unfold unaryCycle?
  rw [UnaryCycle.searchAll_eq_verdict h]
  cases culprit? <;> rfl

theorem lhs_of_transGen {entries : List Entry} {name child : String}
    (h : Relation.TransGen (LeadsTo entries) name child) : name ∈ entries.map Entry.lhs := by
  obtain ⟨_, ⟨e, he, hlhs, -⟩, -⟩ := Relation.TransGen.head'_iff.mp h
  exact List.mem_map.mpr ⟨e, he, hlhs⟩

/-- The check fails exactly if a name leads back to itself, and then reports such a name. The search
ends, and has then finished each non-terminal at most once, and all of them unless the check
fails. -/
theorem checkUnaryCycles_exact {name : String} {start? : Option String} {entries : List Entry}
    (hfew : (entries.map Entry.lhs).dedup.length < UInt32.size)
    (h : unchecked name start? entries = .ok g) :
    ((∃ e, g.checkUnaryCycles = .error e) ↔
        ∃ culprit, Relation.TransGen (LeadsTo entries) culprit culprit) ∧
      (∀ e, g.checkUnaryCycles = .error e → ∃ culprit ∈ entries.map Entry.lhs,
        e = .unaryCycle culprit ∧ Relation.TransGen (LeadsTo entries) culprit culprit) ∧
      ∃ o, UnaryCycle.visitAll g.unaryTargets g.nonTerminalIds = some o ∧
        g.unaryCycle? = o.culprit? ∧ o.finished.Nodup ∧ o.finished ⊆ g.nonTerminalIds ∧
          (g.unaryCycle? = none → g.nonTerminalIds ⊆ o.finished) := by
  have hg := transcribes_unchecked hfew h
  refine ⟨?_, ?_, ?_⟩
  · have hok := hg.checkUnaryCycles_eq_ok
    rw [← not_iff_not, not_exists, not_exists, ← hok]
    cases g.checkUnaryCycles with
    | ok => simp
    | error e => simp
  · intro e he
    obtain ⟨culprit, hcycle, rfl⟩ := hg.exists_cycle_of_error he
    exact ⟨culprit, lhs_of_transGen hcycle, rfl, hcycle⟩
  · obtain ⟨o, ho, hsettled, hamong, hall⟩ :=
      UnaryCycle.exists_visitAll (fun nt _ => hg.unaryTargets_subset nt)
    have hculprit := unaryCycle?_eq_culprit? ho
    exact ⟨o, ho, hculprit, hsettled.nodup, hamong, fun hnone => hall (hculprit ▸ hnone)⟩

def detourEntries : List Entry :=
  [⟨"S", [[.name "VP"], [.name "C"], [.name "C"]]⟩, ⟨"C", [[.word "so"], [.name "P"]]⟩,
    ⟨"P", [[], [.name "C"]]⟩, ⟨"VP", [[.word "runs"]]⟩]

/-- The clause is reported and not the sentence, from which the search begins. -/
theorem checkUnaryCycles_detour : ∃ g, unchecked "detour" none detourEntries = .ok g ∧
    g.checkUnaryCycles = .error (.unaryCycle "C") ∧
      Relation.TransGen (LeadsTo detourEntries) "C" "C" := by
  let g := (unchecked "detour" none detourEntries).toOption.get (by decide +kernel)
  have hload : unchecked "detour" none detourEntries = .ok g := Except.eq_ok_get _
  have hcheck : g.checkUnaryCycles = .error (.unaryCycle "C") := by decide +kernel
  obtain ⟨-, hreported, -⟩ := checkUnaryCycles_exact (by decide +kernel) hload
  obtain ⟨culprit, -, he, hcycle⟩ := hreported _ hcheck
  obtain rfl := GrammarError.unaryCycle.inj he
  exact ⟨g, hload, hcheck, hcycle⟩

end PhraseStructure.Grammar
