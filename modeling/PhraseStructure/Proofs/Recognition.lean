import Mathlib.Tactic
import PhraseStructure.Proofs.Count

/-!
# Recognition

A sentence is charted unless one of its words is unknown. It is parseable from a non-terminal if and
only if the non-terminal can be rewritten to it, one non-terminal by one of its alternatives at a
time: a string of symbols that is rewritten to the sentence covers it, each non-terminal by a
stretch that it derives.
-/

namespace PhraseStructure

theorem Grammar.terminalsOf_eq_error {g : Grammar} {position : Nat} {words : List String}
    {u : UnknownWord} :
    g.terminalsOf position words = .error u ↔
      ∃ i, u.position = position + i ∧ words[i]? = some u.word ∧ g.terminals.id? u.word = none ∧
        ∀ j < i, ∀ word, words[j]? = some word → ∃ t, g.terminals.id? word = some t := by
  induction words generalizing position with
  | nil => simp [terminalsOf]
  | cons word words ih =>
    rw [terminalsOf]
    cases h : g.terminals.id? word with
    | none =>
      constructor
      · intro heq
        obtain rfl := Except.error.inj heq
        exact ⟨0, rfl, rfl, h, fun j hj => absurd hj (Nat.not_lt_zero j)⟩
      · rintro ⟨i, hposition, hword, -, hbefore⟩
        cases i with
        | zero =>
          obtain rfl := Option.some.inj hword
          rw [Nat.add_zero] at hposition
          rw [← hposition]
        | succ i =>
          obtain ⟨t, ht⟩ := hbefore 0 (Nat.succ_pos i) word rfl
          rw [h] at ht
          cases ht
    | some t =>
      rw [Except.bind_eq_error, ih]
      constructor
      · rintro (⟨i, hposition, hword, hnone, hbefore⟩ | ⟨tokens, -, heq⟩)
        · refine ⟨i + 1, by omega, hword, hnone, ?_⟩
          intro j hj v hv
          cases j with
          | zero =>
            obtain rfl := Option.some.inj hv
            exact ⟨t, h⟩
          | succ j => exact hbefore j (by omega) v hv
        · cases heq
      · rintro ⟨i, hposition, hword, hnone, hbefore⟩
        cases i with
        | zero =>
          obtain rfl := Option.some.inj hword
          rw [h] at hnone
          cases hnone
        | succ i =>
          refine Or.inl ⟨i, by omega, hword, hnone, ?_⟩
          intro j hj
          exact hbefore (j + 1) (by omega)

/-- One non-terminal in a string of symbols is rewritten by one of its alternatives. -/
inductive Grammar.Rewrites (g : Grammar) : List Symbol → List Symbol → Prop
  | intro (before after : List Symbol) {nt : SymbolId} {p : Production} :
      p ∈ g.alternatives nt → Rewrites g (before ++ .nonTerminal nt :: after) (before ++ p ++ after)

/-- The words can be obtained from a non-terminal by rewriting. -/
def Grammar.Generates (g : Grammar) (nt : SymbolId) (words : List String) : Prop :=
  ∃ tokens, g.Spells words tokens ∧
    Relation.ReflTransGen g.Rewrites [.nonTerminal nt] (tokens.map .terminal)

namespace Grammar

variable {g : Grammar} {u u' v v' : List Symbol}

theorem Rewrites.append_left (h : g.Rewrites u v) (w : List Symbol) :
    g.Rewrites (w ++ u) (w ++ v) := by
  cases h with
  | intro before after hp =>
    have hstep := Rewrites.intro (w ++ before) after hp
    simp only [List.append_assoc] at hstep ⊢
    exact hstep

theorem Rewrites.append_right (h : g.Rewrites u v) (w : List Symbol) :
    g.Rewrites (u ++ w) (v ++ w) := by
  cases h with
  | intro before after hp =>
    have hstep := Rewrites.intro before (after ++ w) hp
    simp only [List.append_assoc, List.cons_append] at hstep ⊢
    exact hstep

theorem rewrites_append (h : Relation.ReflTransGen g.Rewrites u u')
    (h' : Relation.ReflTransGen g.Rewrites v v') :
    Relation.ReflTransGen g.Rewrites (u ++ v) (u' ++ v') := by
  have hleft : Relation.ReflTransGen g.Rewrites (u ++ v) (u' ++ v) :=
    h.lift (· ++ v) fun _ _ hstep => hstep.append_right v
  have hright : Relation.ReflTransGen g.Rewrites (u' ++ v) (u' ++ v') :=
    h'.lift (u' ++ ·) fun _ _ hstep => hstep.append_left u'
  exact hleft.trans hright

theorem rewrites_of_mem_alternatives {nt : SymbolId} {p : Production} (h : p ∈ g.alternatives nt) :
    g.Rewrites [.nonTerminal nt] p := by
  have hstep := Rewrites.intro [] [] h
  simpa using hstep

end Grammar

namespace Chart

variable {c : Chart}

/-- A string of symbols stands for the tokens from `pos` to `stop`: a terminal for a token that it
is, a non-terminal for a stretch that it derives. -/
inductive Covers (c : Chart) : (pos stop : Nat) → List Symbol → Prop
  | nil (pos : Nat) : Covers c pos pos []
  | terminal {pos stop : Nat} {t : SymbolId} {rest : List Symbol} :
      c.tokens[pos]? = some t → Covers c (pos + 1) stop rest →
        Covers c pos stop (.terminal t :: rest)
  | nonTerminal {pos cut stop : Nat} {nt : SymbolId} {rest : List Symbol} :
      c.ways pos cut nt ≠ [] → Covers c cut stop rest → Covers c pos stop (.nonTerminal nt :: rest)

theorem covers_append {pos stop : Nat} {u v : List Symbol} :
    c.Covers pos stop (u ++ v) ↔ ∃ cut, c.Covers pos cut u ∧ c.Covers cut stop v := by
  constructor
  · intro h
    induction u generalizing pos with
    | nil => exact ⟨pos, .nil pos, h⟩
    | cons s u ih =>
      cases h with
      | terminal ht hrest =>
        obtain ⟨cut, hu, hv⟩ := ih hrest
        exact ⟨cut, .terminal ht hu, hv⟩
      | nonTerminal hways hrest =>
        obtain ⟨cut, hu, hv⟩ := ih hrest
        exact ⟨cut, .nonTerminal hways hu, hv⟩
  · rintro ⟨cut, hu, hv⟩
    induction hu with
    | nil => exact hv
    | terminal ht _ ih => exact .terminal ht (ih hv)
    | nonTerminal hways _ ih => exact .nonTerminal hways (ih hv)

theorem covers_singleton {pos stop : Nat} {nt : SymbolId} :
    c.Covers pos stop [.nonTerminal nt] ↔ c.ways pos stop nt ≠ [] := by
  constructor
  · intro h
    cases h with
    | nonTerminal hways hrest =>
      cases hrest
      exact hways
  · intro hways
    exact .nonTerminal hways (.nil stop)

theorem covers_tokens {pos : Nat} {tokens : List SymbolId} (h : c.tokens.drop pos = tokens)
    (hle : pos ≤ c.length) : c.Covers pos c.length (tokens.map .terminal) := by
  induction tokens generalizing pos with
  | nil =>
    have hlast : c.length ≤ pos := List.drop_eq_nil_iff.mp h
    rw [le_antisymm hlast hle]
    exact .nil pos
  | cons t tokens ih =>
    have ht : c.tokens[pos]? = some t := by rw [← List.head?_drop, h]; rfl
    have hrest : c.tokens.drop (pos + 1) = tokens := by rw [← List.tail_drop, h]; rfl
    have hlt : pos < c.length := (List.getElem?_eq_some_iff.mp ht).1
    exact .terminal ht (ih hrest hlt)

variable {g : Grammar} {tokens : List SymbolId}

theorem Covers.stop_le {pos stop : Nat} {u : List Symbol}
    (h : (ofTerminals g tokens).Covers pos stop u) (hpos : pos ≤ tokens.length) :
    stop ≤ tokens.length := by
  induction h with
  | nil => exact hpos
  | terminal ht _ ih => exact ih (List.getElem?_eq_some_iff.mp ht).1
  | nonTerminal hways _ ih => exact ih (bounds_of_ways_ne_nil hways).2

theorem Covers.exists_tiles {pos stop : Nat} {nts : List SymbolId}
    (h : (ofTerminals g tokens).Covers pos stop (nts.map .nonTerminal)) :
    ∃ cs, cs.map Edge.symbol = nts.map .nonTerminal ∧ Tiles pos stop cs ∧
      ∀ x ∈ cs, (ofTerminals g tokens).waysOf x ≠ [] := by
  induction nts generalizing pos with
  | nil =>
    cases h
    exact ⟨[], rfl, .nil _, by simp⟩
  | cons nt nts ih =>
    cases h with
    | @nonTerminal _ cut _ _ _ hways hrest =>
      obtain ⟨cs, hsymbols, htiles, hall⟩ := ih hrest
      refine ⟨⟨pos, cut, nt⟩ :: cs, ?_, .cons (bounds_of_ways_ne_nil hways).1 htiles, ?_⟩
      · rw [List.map_cons, List.map_cons, hsymbols]
        rfl
      · exact List.forall_mem_cons.mpr ⟨hways, hall⟩

/-- What an alternative covers, its non-terminal derives. -/
theorem ways_ne_nil_of_covers (hg : g.Coherent) {pos stop : Nat} {nt : SymbolId} {p : Production}
    (hp : p ∈ g.alternatives nt) (h : (ofTerminals g tokens).Covers pos stop p)
    (hpos : pos ≤ tokens.length) : (ofTerminals g tokens).ways pos stop nt ≠ [] := by
  rcases hg.admits hp with ⟨t, rfl, -⟩ | ⟨nts, hne, rfl, -⟩
  · cases h with
    | terminal ht hrest =>
      cases hrest
      exact List.ne_nil_of_mem ((word_mem_ways hg).mpr ⟨rfl, ht, hp⟩)
  · obtain ⟨i, hi⟩ := List.mem_iff_getElem?.mp hp
    obtain ⟨cs, hsymbols, htiles, hall⟩ := h.exists_tiles
    have hcs : cs ≠ [] := by
      rintro rfl
      exact hne (List.map_eq_nil_iff.mp hsymbols.symm)
    rw [← hsymbols] at hi
    exact List.ne_nil_of_mem
      ((split_mem_ways hg).mpr ⟨hi, hcs, htiles, h.stop_le hpos, hall⟩)

theorem covers_of_rewrites (hg : g.Coherent) {u v : List Symbol} (huv : g.Rewrites u v) {stop : Nat}
    (h : (ofTerminals g tokens).Covers 0 stop v) : (ofTerminals g tokens).Covers 0 stop u := by
  cases huv with
  | intro before after hp =>
    obtain ⟨cut', hfront, hafter⟩ := covers_append.mp h
    obtain ⟨cut, hbefore, halternative⟩ := covers_append.mp hfront
    have hways := ways_ne_nil_of_covers hg hp halternative (hbefore.stop_le (Nat.zero_le _))
    exact covers_append.mpr ⟨cut, hbefore, .nonTerminal hways hafter⟩

theorem covers_of_reflTransGen (hg : g.Coherent) {u : List Symbol}
    (h : Relation.ReflTransGen g.Rewrites u (tokens.map .terminal)) :
    (ofTerminals g tokens).Covers 0 tokens.length u := by
  induction h using Relation.ReflTransGen.head_induction_on with
  | refl => exact covers_tokens rfl (Nat.zero_le _)
  | head hstep _ ih => exact covers_of_rewrites hg hstep ih

theorem rewrites_edges {cs : List Edge}
    (h : ∀ x ∈ cs, Relation.ReflTransGen g.Rewrites [x.symbol]
      ((stretch tokens x.start x.stop).map .terminal)) :
    Relation.ReflTransGen g.Rewrites (cs.map Edge.symbol)
      ((cs.flatMap fun x => stretch tokens x.start x.stop).map .terminal) := by
  induction cs with
  | nil => exact .refl
  | cons x cs ih =>
    obtain ⟨hx, hcs⟩ := List.forall_mem_cons.mp h
    rw [List.flatMap_cons, List.map_append, List.map_cons]
    exact Grammar.rewrites_append hx (ih hcs)

theorem rewrites_of_ways_ne_nil (hg : g.WellFormed) {e : Edge}
    (he : (ofTerminals g tokens).waysOf e ≠ []) :
    Relation.ReflTransGen g.Rewrites [e.symbol]
      ((stretch tokens e.start e.stop).map .terminal) := by
  obtain ⟨rank, hranked⟩ := exists_ranked hg tokens
  induction e using hranked.induction with
  | _ e ih =>
    obtain ⟨way, hway⟩ := List.exists_mem_of_ne_nil _ he
    cases way with
    | word t =>
      obtain ⟨hone, ht, halternative⟩ := (word_mem_ways hg.toCoherent).mp hway
      rw [hone, stretch_succ ht]
      exact .single (Grammar.rewrites_of_mem_alternatives halternative)
    | split i cs =>
      obtain ⟨halternative, -, htiles, -, hall⟩ := (split_mem_ways hg.toCoherent).mp hway
      have hstep : g.Rewrites [e.symbol] (cs.map Edge.symbol) :=
        Grammar.rewrites_of_mem_alternatives (List.mem_of_getElem? halternative)
      rw [← htiles.flatMap_stretch tokens]
      refine .head hstep (rewrites_edges ?_)
      intro x hx
      exact ih (.split i cs) hway x hx (hall x hx)

theorem isParseable_iff {nt : SymbolId} :
    c.isParseable nt = true ↔ c.waysOf ⟨0, c.length, nt⟩ ≠ [] := by
  simp [isParseable, root?]

theorem isEmpty_derivations_iff {nt : SymbolId} :
    (c.derivations nt).isEmpty = false ↔ c.waysOf ⟨0, c.length, nt⟩ ≠ [] := by
  simp [derivations, Derivations.isEmpty, root?]

theorem Ranked.derivationCount_ne_zero_iff {rank : Edge → Nat} (h : c.Ranked rank) {nt : SymbolId} :
    c.derivationCount nt ≠ 0 ↔ c.waysOf ⟨0, c.length, nt⟩ ≠ [] := by
  have hlimit : 0 < countLimit := by decide
  rw [← h.exactCount_ne_zero_iff, h.derivationCount_eq]
  omega

theorem Ranked.isSome_next_iff {rank : Edge → Nat} (h : c.Ranked rank) {nt : SymbolId} :
    (c.derivations nt).next.1.isSome = true ↔ c.waysOf ⟨0, c.length, nt⟩ ≠ [] := by
  have hfirst : (c.derivations nt).next.1 = (c.trees ⟨0, c.length, nt⟩)[0]? :=
    h.yields_derivations nt 0
  rw [← h.trees_ne_nil_iff, hfirst, ← List.head?_eq_getElem?, List.isSome_head?]

theorem generates_iff (hg : g.WellFormed) {words : List String} (hids : g.Spells words tokens)
    {nt : SymbolId} :
    g.Generates nt words ↔ (ofTerminals g tokens).waysOf ⟨0, tokens.length, nt⟩ ≠ [] := by
  constructor
  · rintro ⟨tokens', hids', h⟩
    have hsome : tokens'.map some = tokens.map some := by
      rw [← Grammar.spells_iff.mp hids, ← Grammar.spells_iff.mp hids']
    have hsame : tokens' = tokens := List.map_injective_iff.mpr (Option.some_injective _) hsome
    rw [hsame] at h
    exact covers_singleton.mp (covers_of_reflTransGen hg.toCoherent h)
  · intro hways
    have h := rewrites_of_ways_ne_nil hg hways
    rw [stretch_all] at h
    exact ⟨tokens, hids, h⟩

theorem ofTokens_eq_error (hg : g.Coherent) {words : List String} {u : UnknownWord} :
    ofTokens g words = .error u ↔
      words[u.position]? = some u.word ∧ g.knowsWord u.word = false ∧
        ∀ i < u.position, ∀ word, words[i]? = some word → g.knowsWord word = true := by
  have hunknown : g.knowsWord u.word = false ↔ g.terminals.id? u.word = none := by
    rw [← Bool.not_eq_true, hg.knowsWord_iff, Option.eq_none_iff_forall_ne_some, not_exists]
  unfold ofTokens
  rw [Except.map_eq_error, Grammar.terminalsOf_eq_error, hunknown]
  simp only [hg.knowsWord_iff, Nat.zero_add]
  constructor
  · rintro ⟨i, rfl, h⟩
    exact h
  · intro h
    exact ⟨u.position, rfl, h⟩

theorem exists_error_iff (hg : g.Coherent) {words : List String} :
    (∃ u, ofTokens g words = .error u) ↔ ∃ word ∈ words, g.knowsWord word = false := by
  constructor
  · rintro ⟨u, hu⟩
    obtain ⟨hword, hunknown, -⟩ := (ofTokens_eq_error hg).mp hu
    exact ⟨u.word, List.mem_of_getElem? hword, hunknown⟩
  · rintro ⟨word, hword, hunknown⟩
    cases h : ofTokens g words with
    | error u => exact ⟨u, rfl⟩
    | ok c =>
      obtain ⟨tokens, hids, -⟩ := ofTokens_eq_ok.mp h
      have hid : g.terminals.id? word ∈ tokens.map some := by
        rw [← Grammar.spells_iff.mp hids]
        exact List.mem_map_of_mem hword
      obtain ⟨t, -, ht⟩ := List.mem_map.mp hid
      rw [hg.knowsWord_iff.mpr ⟨t, ht.symm⟩] at hunknown
      cases hunknown

/-- A sentence without an unknown word is charted, and four answers from its chart agree with the
rewriting of non-terminals. -/
theorem recognition (hloaded : g.Loaded) (words : List String) :
    ((∃ u, ofTokens g words = .error u) ↔ ∃ word ∈ words, g.knowsWord word = false) ∧
      (∀ u, ofTokens g words = .error u →
        words[u.position]? = some u.word ∧ g.knowsWord u.word = false ∧
          ∀ i < u.position, ∀ word, words[i]? = some word → g.knowsWord word = true) ∧
      ∀ c, ofTokens g words = .ok c → ∀ nt,
        [g.Generates nt words, c.isParseable nt = true, c.derivationCount nt ≠ 0,
          (c.derivations nt).isEmpty = false, (c.derivations nt).next.1.isSome = true].TFAE ∧
        ((g.nonTerminals.name? nt = none ∨ words = []) →
          c.isParseable nt = false ∧ c.derivationCount nt = 0 ∧
            (c.derivations nt).isEmpty = true ∧ (c.derivations nt).next.1.isSome = false) := by
  have hg := hloaded.wellFormed
  refine ⟨exists_error_iff hg.toCoherent, fun u => (ofTokens_eq_error hg.toCoherent).mp, ?_⟩
  intro c hc nt
  obtain ⟨tokens, hids, rfl⟩ := ofTokens_eq_ok.mp hc
  obtain ⟨rank, hranked⟩ := exists_ranked hg tokens
  let root : Edge := ⟨0, tokens.length, nt⟩
  have hparse : (ofTerminals g tokens).isParseable nt = true ↔
      (ofTerminals g tokens).waysOf root ≠ [] := isParseable_iff
  have hcount : (ofTerminals g tokens).derivationCount nt ≠ 0 ↔
      (ofTerminals g tokens).waysOf root ≠ [] := hranked.derivationCount_ne_zero_iff
  have hempty : ((ofTerminals g tokens).derivations nt).isEmpty = false ↔
      (ofTerminals g tokens).waysOf root ≠ [] := isEmpty_derivations_iff
  have hnext : ((ofTerminals g tokens).derivations nt).next.1.isSome = true ↔
      (ofTerminals g tokens).waysOf root ≠ [] := hranked.isSome_next_iff
  constructor
  · apply List.tfae_of_forall ((ofTerminals g tokens).waysOf root ≠ []) _
    simp only [List.forall_mem_cons, List.not_mem_nil, false_implies, implies_true, and_true]
    exact ⟨generates_iff hg hids, hparse, hcount, hempty, hnext⟩
  · intro hnone
    have hways : (ofTerminals g tokens).waysOf root = [] := by
      by_contra hne
      rcases hnone with hname | rfl
      · have hlt := lt_size_of_ways_ne_nil hg.toCoherent hne
        rw [hg.size_rules] at hlt
        exact absurd hlt (Nat.not_lt.mpr (Array.getElem?_eq_none_iff.mp hname))
      · have hlt : 0 < tokens.length := (bounds_of_ways_ne_nil hne).1
        rw [← hids.length_eq] at hlt
        exact absurd hlt (Nat.lt_irrefl 0)
    refine ⟨?_, ?_, ?_, ?_⟩
    · exact Bool.eq_false_iff.mpr fun h => hparse.mp h hways
    · by_contra h
      exact hcount.mp h hways
    · exact Bool.eq_true_of_not_eq_false fun h => hempty.mp h hways
    · exact Bool.eq_false_iff.mpr fun h => hnext.mp h hways

/-- Three words are generated, since the chart says so. -/
theorem generates_bracketing : Grammar.bracketings.Generates 0 ["a", "a", "a"] := by
  have hparse : (ofTerminals .bracketings [0, 0, 0]).isParseable 0 = true := by decide +kernel
  obtain ⟨-, -, hanswers⟩ := recognition Grammar.loaded_bracketings ["a", "a", "a"]
  exact ((hanswers _ ofTokens_bracketings 0).1.out 1 0).mp hparse

end Chart

end PhraseStructure
