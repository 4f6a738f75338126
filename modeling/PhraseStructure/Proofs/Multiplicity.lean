import Mathlib.Tactic
import PhraseStructure.Proofs.DerivationTree

/-!
# How often a tree is derived

A grammar may have the same alternative several times. A derivation tree is derived once for each
choice, at each of its inner nodes, among the equal alternatives that the labels below are. The
edges below a node are found from the words and the labels of its children, so that no other way of
an edge has the tree.
-/

namespace PhraseStructure

namespace Grammar

variable (g : Grammar)

/-- How many alternatives of a label are the labels of trees. -/
def expansions (label : String) (ts : List ParseTree) : Nat :=
  (g.alternativesNamed label).countP fun p => p.map some = g.symbolsOf ts

/-- How many rules the root of a tree can be by. A word counts once. -/
def choicesAt : ParseTree → Nat
  | .leaf _ _ => 1
  | .node label ts => g.expansions label ts

/-- How many derivations a derivation tree has. -/
def multiplicity (t : ParseTree) : Nat := (t.subtrees.map g.choicesAt).prod

variable {g}

theorem multiplicity_node (label : String) (ts : List ParseTree) :
    g.multiplicity (.node label ts) = g.expansions label ts * (ts.map g.multiplicity).prod := by
  unfold multiplicity
  rw [ParseTree.subtrees, ParseTree.subtreesAll_eq_flatMap, List.map_cons, List.prod_cons,
    List.map_flatMap, List.flatMap, List.prod_flatten, List.map_map]
  rfl

theorem expansions_pos {label : String} {ts : List ParseTree} (h : g.Allows (.node label ts)) :
    0 < g.expansions label ts := by
  obtain ⟨p, hp, hsymbols⟩ := h
  exact List.countP_pos_iff.mpr ⟨p, hp, decide_eq_true hsymbols⟩

theorem multiplicity_pos {t : ParseTree} (h : g.Derives t) : 0 < g.multiplicity t := by
  induction t with
  | leaf label word => exact Nat.one_pos
  | node label ts ih =>
    obtain ⟨hallows, hall⟩ := derives_node.mp h
    rw [multiplicity_node]
    apply Nat.mul_pos (expansions_pos hallows)
    apply List.prod_pos
    intro n hn
    obtain ⟨t, ht, rfl⟩ := List.mem_map.mp hn
    exact ih t ht (hall t ht)

theorem expansions_eq_count {label : String} {nt : SymbolId}
    (hid : g.nonTerminals.id? label = some nt) {ts : List ParseTree} {p : Production}
    (hp : p.map some = g.symbolsOf ts) : g.expansions label ts = (g.alternatives nt).count p := by
  unfold expansions
  rw [alternativesNamed_of_id? hid, List.count]
  apply List.countP_congr
  intro q _
  rw [decide_eq_true_iff, beq_iff_eq, ← hp]
  exact (List.map_injective_iff.mpr (Option.some_injective _)).eq_iff

/-- No non-terminal has an alternative twice, but for words. -/
def Irredundant (g : Grammar) : Prop :=
  ∀ nt p, (∀ t, p ≠ [.terminal t]) → (g.alternatives nt).count p ≤ 1

theorem Irredundant.multiplicity_eq_one (hg : g.Irredundant) {t : ParseTree} (h : g.Derives t) :
    g.multiplicity t = 1 := by
  induction t with
  | leaf label word => rfl
  | node label ts ih =>
    obtain ⟨hallows, hall⟩ := derives_node.mp h
    have hproduct : (ts.map g.multiplicity).prod = 1 := by
      rw [List.map_congr_left fun t ht => ih t ht (hall t ht), List.prod_map_one]
    have hpos := expansions_pos hallows
    obtain ⟨p, hp, hsymbols⟩ := hallows
    have hinner : ∀ a, p ≠ [.terminal a] := by
      rintro a rfl
      have hmem : some (Symbol.terminal a) ∈ g.symbolsOf ts := by
        rw [← hsymbols]
        exact List.mem_singleton_self _
      obtain ⟨s, -, hs⟩ := List.mem_map.mp hmem
      obtain ⟨_, -, heq⟩ := Option.map_eq_some_iff.mp hs
      cases heq
    have hle : g.expansions label ts ≤ 1 := by
      cases hid : g.nonTerminals.id? label with
      | none => simp [alternativesNamed, hid] at hp
      | some nt =>
        rw [expansions_eq_count hid hsymbols]
        exact hg nt p hinner
    rw [multiplicity_node, hproduct]
    omega

/-- The edges of trees that follow each other from `pos` on. -/
def edgesFrom (g : Grammar) : (pos : Nat) → List ParseTree → List Edge
  | _, [] => []
  | pos, t :: ts =>
    ⟨pos, pos + t.words.length, (g.nonTerminals.id? t.label).getD 0⟩ ::
      edgesFrom g (pos + t.words.length) ts

variable {words : List String} {pos stop : Nat} {ts : List ParseTree} {cs : List Edge}

theorem eq_edgesFrom (h : List.Forall₂ (g.DerivesEdge words) ts cs) (htiles : Tiles pos stop cs) :
    cs = g.edgesFrom pos ts := by
  induction h generalizing pos with
  | nil => rfl
  | @cons t e ts cs hte _ ih =>
    cases htiles with
    | @cons _ cut _ nt _ hlt hrest =>
      have hlength : t.words.length = cut - pos := by
        rw [hte.words_eq]
        exact length_stretch hte.stop_le
      have hlabel : g.nonTerminals.id? t.label = some nt := hte.label
      have hnext : pos + t.words.length = cut := by omega
      rw [edgesFrom, hlabel, hnext, ← ih hrest, Option.getD_some]

theorem tiles_edgesFrom (hg : g.Coherent) (hderives : ∀ t ∈ ts, g.Derives t)
    (hlabels : ∀ t ∈ ts, ∃ nt, g.nonTerminals.id? t.label = some nt)
    (hwords : ts.flatMap ParseTree.words = stretch words pos stop) (hpos : pos ≤ stop)
    (hstop : stop ≤ words.length) :
    Tiles pos stop (g.edgesFrom pos ts) ∧
      List.Forall₂ (g.DerivesEdge words) ts (g.edgesFrom pos ts) := by
  induction ts generalizing pos with
  | nil =>
    have hlength : (stretch words pos stop).length = 0 := by rw [← hwords]; rfl
    rw [length_stretch hstop] at hlength
    obtain rfl : pos = stop := by omega
    exact ⟨.nil pos, .nil⟩
  | cons t ts ih =>
    obtain ⟨ht, hts⟩ := List.forall_mem_cons.mp hderives
    obtain ⟨⟨nt, hnt⟩, hnts⟩ := List.forall_mem_cons.mp hlabels
    have hlengths := congrArg List.length hwords
    rw [List.flatMap_cons, List.length_append, length_stretch hstop] at hlengths
    have hcut : pos + t.words.length ≤ stop := by omega
    have hsplit : t.words ++ ts.flatMap ParseTree.words =
        stretch words pos (pos + t.words.length) ++
          stretch words (pos + t.words.length) stop := by
      rw [stretch_append words (Nat.le_add_right _ _) hcut, ← hwords, List.flatMap_cons]
    have hlength : t.words.length = (stretch words pos (pos + t.words.length)).length := by
      rw [length_stretch (hcut.trans hstop), Nat.add_sub_cancel_left]
    obtain ⟨hhead, hrest⟩ := List.append_inj hsplit hlength
    obtain ⟨htiles, hall⟩ := ih hts hnts hrest hcut
    have hpositive := List.length_pos_of_ne_nil (hg.words_ne_nil ht)
    rw [edgesFrom, hnt, Option.getD_some]
    exact ⟨.cons (by omega) htiles, .cons ⟨hcut.trans hstop, hnt, ht, hhead⟩ hall⟩

theorem DerivesEdge.children (hg : g.Coherent) {label : String} {e : Edge}
    (h : g.DerivesEdge words (.node label ts) e) :
    g.edgesFrom e.start ts ≠ [] ∧ Tiles e.start e.stop (g.edgesFrom e.start ts) ∧
      List.Forall₂ (g.DerivesEdge words) ts (g.edgesFrom e.start ts) := by
  obtain ⟨⟨p, -, hsymbols⟩, hderives⟩ := derives_node.mp h.derives
  have hwords : ts.flatMap ParseTree.words = stretch words e.start e.stop := by
    rw [← ParseTree.words_node label ts]
    exact h.words_eq
  have hlt : e.start < e.stop := by
    have hpositive := List.length_pos_of_ne_nil (hg.words_ne_nil h.derives)
    rw [h.words_eq, length_stretch h.stop_le] at hpositive
    omega
  have hlabels : ∀ t ∈ ts, ∃ nt, g.nonTerminals.id? t.label = some nt := by
    intro t ht
    obtain ⟨nt, hnt, -⟩ := exists_id?_of_symbolsOf hsymbols ht
    exact ⟨nt, hnt⟩
  obtain ⟨htiles, hall⟩ := tiles_edgesFrom hg hderives hlabels hwords hlt.le h.stop_le
  exact ⟨htiles.ne_nil_of_lt hlt, htiles, hall⟩

end Grammar

namespace Chart

variable {g : Grammar} {words : List String} {tokens : List SymbolId}

/-- Derivable edges are the children of one way for each alternative that is their categories. -/
theorem countP_ways (hg : g.Coherent) (hsmall : g.Small) {start stop : Nat} {cs : List Edge}
    (hne : cs ≠ []) (htiles : Tiles start stop cs) (hstop : stop ≤ tokens.length)
    (hall : ∀ x ∈ cs, (ofTerminals g tokens).waysOf x ≠ []) (nt : SymbolId) :
    (((ofTerminals g tokens).ways start stop nt).countP fun way => way.children = cs) =
      (g.alternatives nt).count (cs.map Edge.symbol) := by
  let indices := (g.alternatives nt).idxsOf (cs.map Edge.symbol)
  have hindices : ∀ i, i ∈ indices ↔ (g.alternatives nt)[i]? = some (cs.map Edge.symbol) := by
    intro i
    rw [List.mem_idxsOf_iff_exists_getElem_pos, List.getElem?_eq_some_iff]
    simp only [beq_iff_eq]
  have hperm :
      (((ofTerminals g tokens).ways start stop nt).filter fun way => way.children = cs).Perm
        (indices.map fun i => .split i cs) := by
    have hinjective : Function.Injective fun i => Way.split i cs := fun _ _ h => (Way.split.inj h).1
    refine (List.perm_ext_iff_of_nodup ((nodup_ways hg hsmall nt).filter _)
      (List.nodup_idxsOf.map hinjective)).mpr fun way => ?_
    rw [List.mem_filter, decide_eq_true_eq, List.mem_map]
    constructor
    · rintro ⟨hway, rfl⟩
      cases way with
      | word t => exact absurd rfl hne
      | split i cs => exact ⟨i, (hindices i).mpr ((split_mem_ways hg).mp hway).1, rfl⟩
    · rintro ⟨i, hi, rfl⟩
      exact ⟨(split_mem_ways hg).mpr ⟨(hindices i).mp hi, hne, htiles, hstop, hall⟩, rfl⟩
  rw [List.countP_eq_length_filter, hperm.length_eq, List.length_map, List.length_idxsOf]

theorem count_trees_eq_sum {rank : Edge → Nat} (hranked : (ofTerminals g tokens).Ranked rank)
    (e : Edge) (t : ParseTree) :
    ((ofTerminals g tokens).trees e).count t =
      (((ofTerminals g tokens).waysOf e).map fun way =>
        ((ofTerminals g tokens).treesBy e way).count t).sum := by
  rw [hranked.trees_eq, List.count_flatMap]
  rfl

theorem sum_map_ite_zero {α : Type} (p : α → Prop) [DecidablePred p] (n : Nat) (as : List α) :
    (as.map fun a => if p a then n else 0).sum = (as.countP fun a => p a) * n := by
  rw [List.sum_map_ite, List.map_const', List.map_const', List.sum_replicate, List.sum_replicate,
    List.countP_eq_length_filter, smul_eq_mul, smul_zero, Nat.add_zero]

section

variable (hg : g.WellFormed) (hsmall : g.Small) (hids : g.Spells words tokens)
include hg hsmall hids

theorem word_mem_waysOf {label word : String} {e : Edge}
    (h : g.DerivesEdge words (.leaf label word) e) :
    ∃ t, g.terminals.id? word = some t ∧ .word t ∈ (ofTerminals g tokens).waysOf e := by
  obtain ⟨hone, hword⟩ := of_stretch_eq_singleton h.stop_le h.words_eq.symm
  have hderives := Grammar.derives_leaf.mp h.derives
  have hname : g.nonTerminals.id? label = some e.category := h.label
  rw [Grammar.wordsNamed_of_id? hname, Grammar.mem_wordsOf] at hderives
  obtain ⟨t, halternative, hterminal⟩ := hderives
  have hid := (hg.terminals.id?_eq_some_iff hsmall.terminals.le).mpr hterminal
  have htoken := hids.getElem?_eq_some.mpr ⟨word, hword, hid⟩
  exact ⟨t, hid, (word_mem_ways hg.toCoherent).mpr ⟨hone, htoken, halternative⟩⟩

theorem count_trees_leaf {label word : String} {e : Edge}
    (h : g.DerivesEdge words (.leaf label word) e) :
    ((ofTerminals g tokens).trees e).count (.leaf label word) = 1 := by
  obtain ⟨rank, hranked⟩ := exists_ranked hg tokens
  obtain ⟨t, hid, hmem⟩ := word_mem_waysOf hg hsmall hids h
  have hlabel : g.nonTerminalText e.category = label := hg.nonTerminalText_of_id? hsmall h.label
  have htext := hg.terminalText_of_id? hsmall hid
  have hcount : ∀ way ∈ (ofTerminals g tokens).waysOf e,
      ((ofTerminals g tokens).treesBy e way).count (.leaf label word) =
        if way = .word t then 1 else 0 := by
    intro way hway
    cases way with
    | word a =>
      obtain ⟨-, ha, -⟩ := (word_mem_ways hg.toCoherent).mp hway
      obtain ⟨-, ht, -⟩ := (word_mem_ways hg.toCoherent).mp hmem
      obtain rfl := Option.some.inj (ha.symm.trans ht)
      change [ParseTree.leaf (g.nonTerminalText e.category) (g.terminalText a)].count _ = _
      rw [hlabel, htext, if_pos rfl]
      exact List.count_singleton_self
    | split i cs =>
      rw [if_neg nofun, List.count_eq_zero]
      intro hleaf
      obtain ⟨_, -, heq⟩ := List.mem_map.mp hleaf
      cases heq
  have hnodup : ((ofTerminals g tokens).waysOf e).Nodup :=
    nodup_ways hg.toCoherent hsmall e.category
  calc ((ofTerminals g tokens).trees e).count (.leaf label word)
      = ((ofTerminals g tokens).waysOf e).countP (fun way => way = .word t) * 1 := by
        rw [count_trees_eq_sum hranked, List.map_congr_left hcount, sum_map_ite_zero]
    _ = ((ofTerminals g tokens).waysOf e).count (.word t) := by
        rw [Nat.mul_one, List.count]
        exact List.countP_congr fun way _ => by simp
    _ = 1 := List.count_eq_one_of_mem hnodup hmem

/-- A way of an edge has a tree over given children only if its edges are the edges of these. -/
theorem count_treesBy_node {ts : List ParseTree} {e : Edge} {way : Way}
    (hway : way ∈ (ofTerminals g tokens).waysOf e) (hne : g.edgesFrom e.start ts ≠ [])
    (hcounts : List.Forall₂ (fun t x => ((ofTerminals g tokens).trees x).count t = g.multiplicity t)
      ts (g.edgesFrom e.start ts)) :
    ((ofTerminals g tokens).treesBy e way).count (.node (g.nonTerminalText e.category) ts) =
      if way.children = g.edgesFrom e.start ts then (ts.map g.multiplicity).prod else 0 := by
  cases way with
  | word a =>
    have hother : (Way.word a).children ≠ g.edgesFrom e.start ts := hne.symm
    rw [if_neg hother, List.count_eq_zero]
    intro hnode
    obtain ⟨_, -, heq⟩ := List.mem_map.mp hnode
    cases heq
  | split i cs =>
    have hinjective : Function.Injective
        ((ofTerminals g tokens).treeBy e (.split i cs)) := fun _ _ h => (ParseTree.node.inj h).2
    have hcount : ((ofTerminals g tokens).treesBy e (.split i cs)).count
        (.node (g.nonTerminalText e.category) ts) =
          (choices (cs.map (ofTerminals g tokens).trees)).count ts :=
      List.count_map_of_injective _ _ hinjective ts
    rw [hcount]
    split_ifs with hcs
    · obtain rfl : cs = g.edgesFrom e.start ts := hcs
      exact count_choices hcounts
    · rw [List.count_eq_zero]
      intro hts
      obtain ⟨-, -, htiles, -⟩ := (split_mem_ways hg.toCoherent).mp hway
      have hall : List.Forall₂ (g.DerivesEdge words) ts cs :=
        forall₂_of_mem_choices hts fun x _ t ht => derivesEdge_of_mem_trees hg hsmall hids ht
      exact hcs (Grammar.eq_edgesFrom hall htiles)

theorem count_trees_node {label : String} {ts : List ParseTree} {e : Edge}
    (h : g.DerivesEdge words (.node label ts) e)
    (ih : ∀ t ∈ ts, ∀ x, g.DerivesEdge words t x →
      ((ofTerminals g tokens).trees x).count t = g.multiplicity t) :
    ((ofTerminals g tokens).trees e).count (.node label ts) = g.multiplicity (.node label ts) := by
  obtain ⟨rank, hranked⟩ := exists_ranked hg tokens
  obtain ⟨hne, htiles, hall⟩ := h.children hg.toCoherent
  have hname : g.nonTerminals.id? label = some e.category := h.label
  have hlabel := hg.nonTerminalText_of_id? hsmall hname
  have hmem : List.Forall₂ (fun t x => t ∈ ts ∧ g.DerivesEdge words t x) ts
      (g.edgesFrom e.start ts) := (List.forall₂_and_left ts _).mpr ⟨fun _ ht => ht, hall⟩
  have hcounts : List.Forall₂
      (fun t x => ((ofTerminals g tokens).trees x).count t = g.multiplicity t) ts
        (g.edgesFrom e.start ts) := hmem.imp fun t x htx => ih t htx.1 x htx.2
  have hways : ∀ x ∈ g.edgesFrom e.start ts, (ofTerminals g tokens).waysOf x ≠ [] := by
    have hboth : List.Forall₂ (fun x t => (ofTerminals g tokens).waysOf x ≠ [] ∧
        g.DerivesEdge words t x) (g.edgesFrom e.start ts) ts := by
      refine hmem.flip.imp fun x t htx => ⟨?_, htx.2⟩
      have hpositive := Grammar.multiplicity_pos htx.2.derives
      rw [← ih t htx.1 x htx.2, List.count_pos_iff] at hpositive
      exact hranked.trees_ne_nil_iff.mp (List.ne_nil_of_mem hpositive)
    exact ((List.forall₂_and_left _ ts).mp hboth).1
  have hstop : e.stop ≤ tokens.length := by
    rw [← hids.length_eq]
    exact h.stop_le
  calc ((ofTerminals g tokens).trees e).count (.node label ts)
      = ((ofTerminals g tokens).waysOf e).countP
            (fun way => way.children = g.edgesFrom e.start ts) * (ts.map g.multiplicity).prod := by
        rw [count_trees_eq_sum hranked, ← sum_map_ite_zero, ← hlabel]
        exact congrArg List.sum (List.map_congr_left fun way hway =>
          count_treesBy_node hg hsmall hids hway hne hcounts)
    _ = (g.alternatives e.category).count ((g.edgesFrom e.start ts).map Edge.symbol) *
          (ts.map g.multiplicity).prod := by
        rw [← countP_ways hg.toCoherent hsmall hne htiles hstop hways]
        rfl
    _ = g.multiplicity (.node label ts) := by
        rw [Grammar.multiplicity_node,
          Grammar.expansions_eq_count hname (Grammar.symbolsOf_eq hall).symm]

theorem count_trees {t : ParseTree} {e : Edge} (h : g.DerivesEdge words t e) :
    ((ofTerminals g tokens).trees e).count t = g.multiplicity t := by
  induction t generalizing e with
  | leaf label word => exact count_trees_leaf hg hsmall hids h
  | node label ts ih => exact count_trees_node hg hsmall hids h fun t ht x => ih t ht

end

end Chart

/-- A parse yields each derivation tree of the start symbol over the words as often as there are
choices among equal alternatives in it. -/
theorem Grammar.complete_of_parse {g : Grammar} (hloaded : g.Loaded) (hsmall : g.Small)
    {start : String} (hstart : start ∈ g.nonTerminals.names) {words : List String}
    (hwords : ∀ word ∈ words, g.knowsWord word = true) :
    ∃ d ts, g.parse start words = .ok d ∧ d.Yields ts ∧
      (∀ t, t.label = start → t.words = words → g.Derives t → ts.count t = g.multiplicity t) ∧
        (g.Irredundant → ts.Nodup ∧
          ∀ t, t.label = start → t.words = words → g.Derives t → ts.count t = 1) := by
  have hg := hloaded.wellFormed
  obtain ⟨nt, hnt⟩ : ∃ nt, g.nonTerminals.id? start = some nt := by
    apply Option.ne_none_iff_exists'.mp
    intro hnone
    exact hg.nonTerminals.id?_eq_none.mp hnone (Array.mem_toList_iff.mpr hstart)
  obtain ⟨tokens, hids⟩ :=
    Grammar.exists_spells fun word hword => hg.knowsWord_iff.mp (hwords word hword)
  obtain ⟨rank, hranked⟩ := Chart.exists_ranked hg tokens
  let trees := (Chart.ofTerminals g tokens).trees ⟨0, words.length, nt⟩
  have hroot : ∀ t, g.DerivesEdge words t ⟨0, words.length, nt⟩ ↔
      t.label = start ∧ t.words = words ∧ g.Derives t := fun t =>
    Grammar.derivesEdge_root_iff hg.toCoherent hsmall hnt
  have hcount : ∀ t, t.label = start → t.words = words → g.Derives t →
      trees.count t = g.multiplicity t := by
    intro t hlabel hwords hderives
    exact Chart.count_trees hg hsmall hids ((hroot t).mpr ⟨hlabel, hwords, hderives⟩)
  have hyields : ((Chart.ofTerminals g tokens).derivations nt).Yields trees := by
    have h := hranked.yields_derivations nt
    rwa [show (Chart.ofTerminals g tokens).length = words.length from hids.length_eq.symm] at h
  refine ⟨_, trees, Grammar.parse_eq_ok.mpr ⟨nt, tokens, hnt, hids, rfl⟩, hyields, hcount, ?_⟩
  intro hirredundant
  have hone : ∀ t, t.label = start → t.words = words → g.Derives t → trees.count t = 1 := by
    intro t hlabel hwords hderives
    rw [hcount t hlabel hwords hderives]
    exact hirredundant.multiplicity_eq_one hderives
  refine ⟨List.nodup_iff_count_le_one.mpr fun t => ?_, hone⟩
  by_cases ht : t ∈ trees
  · obtain ⟨hlabel, hwords, hderives⟩ :=
      (hroot t).mp (Chart.derivesEdge_of_mem_trees hg hsmall hids ht)
    exact (hone t hlabel hwords hderives).le
  · rw [List.count_eq_zero_of_not_mem ht]
    exact Nat.zero_le 1

/-- Three words have each of their bracketings once. -/
theorem Grammar.complete_bracketings :
    ∃ d ts, Grammar.bracketings.parse "S" ["a", "a", "a"] = .ok d ∧ d.Yields ts ∧ ts.Nodup ∧
      ∀ t, t.label = "S" → t.words = ["a", "a", "a"] → Grammar.bracketings.Derives t →
        ts.count t = 1 := by
  have hstart : "S" ∈ Grammar.bracketings.nonTerminals.names := by decide +kernel
  have hwords : ∀ word ∈ ["a", "a", "a"], Grammar.bracketings.knowsWord word = true := by
    decide +kernel
  have hirredundant : Grammar.bracketings.Irredundant := by
    intro nt p _
    have hnodup : ∀ ps ∈ Grammar.bracketings.rules, ps.Nodup := by decide +kernel
    unfold Grammar.alternatives
    cases hps : Grammar.bracketings.rules[nt.toNat]? with
    | none => exact Nat.zero_le 1
    | some ps => exact List.nodup_iff_count_le_one.mp (hnodup ps (Array.mem_of_getElem? hps)) p
  obtain ⟨d, ts, hparse, hyields, -, honce⟩ := Grammar.complete_of_parse
    Grammar.loaded_bracketings Grammar.small_bracketings hstart hwords
  exact ⟨d, ts, hparse, hyields, honce hirredundant⟩

end PhraseStructure
