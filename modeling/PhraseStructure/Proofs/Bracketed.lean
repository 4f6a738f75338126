import Mathlib.Tactic
import PhraseStructure.ParseTree.Bracketed
import PhraseStructure.Proofs.DerivationTree
import PhraseStructure.Proofs.Entries
import PhraseStructure.Proofs.Retokenize
import PhraseStructure.Proofs.UniqueReading

/-!
# Reading the bracketed form

The bracketed form of a tree has one reading if neither labels nor words hold a blank or a bracket
and each inner node has children: behind a label, a bracket opens the first child, and a word is
closed by the first bracket. The trees of sentences are of this kind unless a bracket is in a token,
which needs a letter that is newer than the table of the characters of words.
-/

namespace PhraseStructure

/-- Texts without the characters that the bracketed form consists of besides labels and words. -/
def Plain (text : String) : Prop :=
  ' ' ∉ text.toList ∧ '(' ∉ text.toList ∧ ')' ∉ text.toList

namespace ParseTree

/-- What stands between the label of a tree and its last bracket. -/
def inside : ParseTree → List Char
  | .leaf _ word => word.toList
  | .node _ ts => [' '].intercalate (ts.map (·.bracketed.toList))

theorem toList_bracketed (t : ParseTree) :
    t.bracketed.toList = '(' :: (t.label.toList ++ ' ' :: (t.inside ++ [')'])) := by
  cases t with
  | leaf label word => simp [bracketed, inside, ParseTree.label]
  | node label ts =>
    simp [bracketed, inside, ParseTree.label, bracketedAll_eq_map, String.toList_intercalate,
      Function.comp_def]

theorem label_eq_of_bracketed {t u : ParseTree} (ht : t.Regular Plain) (hu : u.Regular Plain)
    {rest rest' : List Char} (h : t.bracketed.toList ++ rest = u.bracketed.toList ++ rest') :
    t.label = u.label ∧ t.inside ++ ')' :: rest = u.inside ++ ')' :: rest' := by
  simp only [toList_bracketed, List.cons_append, List.append_assoc, List.nil_append,
    List.cons.injEq, true_and] at h
  obtain ⟨hlabel, hinside⟩ := eq_of_append_cons_eq (ht.label t (self_mem_subtrees t)).1
    (hu.label u (self_mem_subtrees u)).1 h
  exact ⟨String.toList_inj.mp hlabel, hinside⟩

theorem word_ne_children {word : String} (hword : Plain word) {ts : List ParseTree} (hts : ts ≠ [])
    {rest rest' : List Char} :
    word.toList ++ ')' :: rest ≠
      [' '].intercalate (ts.map (·.bracketed.toList)) ++ ')' :: rest' := by
  obtain ⟨t, ts, rfl⟩ := List.exists_cons_of_ne_nil hts
  rw [intercalate_map_cons, toList_bracketed]
  intro h
  cases htext : word.toList with
  | nil => simp [htext] at h
  | cons c text =>
    rw [htext] at h
    have hc : c = '(' := List.head_eq_of_cons_eq h
    apply hword.2.1
    rw [htext, hc]
    exact List.mem_cons_self

theorem delimited_bracketed {t : ParseTree} (ht : t.Regular Plain) :
    Delimited (Regular Plain) (·.bracketed.toList) t := by
  induction t with
  | leaf label word =>
    intro u hu rest rest' h
    obtain ⟨hlabel, hinside⟩ := label_eq_of_bracketed ht hu h
    obtain ⟨-, hword⟩ := regular_leaf.mp ht
    cases u with
    | leaf label' word' =>
      obtain ⟨-, hword'⟩ := regular_leaf.mp hu
      obtain ⟨hsame, hrest⟩ := eq_of_append_cons_eq hword.2.2 hword'.2.2 hinside
      exact ⟨congrArg₂ leaf hlabel (String.toList_inj.mp hsame), hrest⟩
    | node label' us =>
      obtain ⟨-, hne, -⟩ := regular_node.mp hu
      exact absurd hinside (word_ne_children hword hne)
  | node label ts ih =>
    intro u hu rest rest' h
    obtain ⟨hlabel, hinside⟩ := label_eq_of_bracketed ht hu h
    obtain ⟨-, hne, hts⟩ := regular_node.mp ht
    cases u with
    | leaf label' word' =>
      obtain ⟨-, hword'⟩ := regular_leaf.mp hu
      exact absurd hinside.symm (word_ne_children hword' hne)
    | node label' us =>
      obtain ⟨-, -, hus⟩ := regular_node.mp hu
      obtain ⟨hsame, hrest⟩ := Delimited.intercalate (fun t htmem => ih t htmem (hts t htmem)) hus
        (by decide) (by decide) (fun t => ⟨_, toList_bracketed t⟩) hinside
      exact ⟨congrArg₂ node hlabel hsame, hrest⟩

end ParseTree

theorem plain_of_isName {text : String} (h : isName text.toList = true) : Plain text := by
  refine ⟨fun hc => ?_, fun hc => ?_, fun hc => ?_⟩
  all_goals exact absurd (nameChar_of_isName h hc) (by decide)

theorem Grammar.Allows.exists_id? {g : Grammar} {t : ParseTree} (h : g.Allows t) :
    ∃ nt, g.nonTerminals.id? t.label = some nt := by
  cases hid : g.nonTerminals.id? t.label with
  | some nt => exact ⟨nt, rfl⟩
  | none =>
    cases t with
    | leaf label word =>
      have hword : word ∈ g.wordsNamed label := h
      simp [wordsNamed, show g.nonTerminals.id? label = none from hid] at hword
    | node label ts =>
      obtain ⟨p, hp, -⟩ := h
      simp [alternativesNamed, show g.nonTerminals.id? label = none from hid] at hp

theorem Grammar.Derives.regular_iff {g : Grammar} (hg : g.Coherent) (hspelled : g.Spelled)
    {t : ParseTree} (h : g.Derives t) : t.Regular Plain ↔ ∀ word ∈ t.words, Plain word := by
  refine ⟨fun hregular => hregular.word, fun hwords => ⟨fun s hs => ?_, hwords, ?_⟩⟩
  · obtain ⟨nt, hnt⟩ := (h s hs).exists_id?
    exact plain_of_isName (hspelled.names (hg.nonTerminals.mem_names_iff.mpr ⟨nt, hnt⟩))
  · intro s hs hinner
    cases s with
    | leaf label word => cases hinner
    | node label ts => exact hg.ne_nil_of_allows (h _ hs)

namespace Token

open Text

theorem Compound.isWordChar {text : List Char} (h : Compound text) :
    ∀ c ∈ text, isWordChar c = true ∨ c = '-' := by
  induction h with
  | word hw => exact fun c hc => Or.inl (hw.2 c hc)
  | hyphen hw _ ih =>
    exact List.forall_mem_append.mpr
      ⟨fun c hc => Or.inl (hw.2 c hc), List.forall_mem_cons.mpr ⟨Or.inr rfl, ih⟩⟩

/-- No token has a blank, and a bracket is in one only if it is a run of other characters than those
of words, with a letter among them. -/
theorem plain_of_mem_tokenize {s t : String}
    (hs : ∀ c ∈ s.toList, isAlphabetic c = true → Text.isWordChar c = true)
    (h : t ∈ tokenize s) : Plain t := by
  suffices hchars : ∀ c ∈ t.toList, Text.isWordChar c = true ∨ c = '-' ∨ c = '\'' by
    refine ⟨fun hc => ?_, fun hc => ?_, fun hc => ?_⟩
    all_goals exact absurd (hchars _ hc) (by decide)
  obtain ⟨m, hm, halphabetic, rfl⟩ := mem_tokenize.mp h
  rw [String.toList_ofList]
  have hl := lowers_lowercase m
  rcases shape_of_mem_raw hm with hshape | hshape | hshape
  · exact fun c hc => ((hshape.lowers hl).isWordChar c hc).imp_right Or.inl
  · obtain ⟨w, hw, hword⟩ := hshape.lowers hl
    rw [hw]
    exact List.forall_mem_cons.mpr ⟨Or.inr (Or.inr rfl), fun c hc => Or.inl (hword.2 c hc)⟩
  · obtain ⟨c, hc, hca⟩ := List.any_eq_true.mp halphabetic
    have hflatten : c ∈ (raw s.toList).flatten := List.mem_flatten_of_mem hm hc
    rw [flatten_raw] at hflatten
    have hword := hs c (List.mem_of_mem_filter hflatten) hca
    rw [(isMark_iff.mp (hshape.2 c hc)).1] at hword
    cases hword

theorem plain_iff_of_mem_tokenize {s t : String} (h : t ∈ tokenize s) :
    Plain t ↔ '(' ∉ t.toList ∧ ')' ∉ t.toList := by
  obtain ⟨-, hblank, -⟩ := chars_of_mem_tokenize h
  refine and_iff_right fun hc => ?_
  exact absurd (hblank ' ' hc) (by decide)

end Token

/-- Trees with the same bracketed form are the same if neither labels nor words hold a blank or a
bracket and each inner node has children. The trees of a sentence are of this kind exactly if no
token holds a bracket, which is so if all its letters are characters of words. -/
theorem ParseTree.eq_of_bracketed_eq :
    (∀ t u : ParseTree, t.Regular Plain → u.Regular Plain → t.bracketed = u.bracketed → t = u) ∧
      ∀ (g : Grammar) (start s : String) (d : Derivations) (n : Nat) (t : ParseTree),
        g.Loaded → g.Small → g.parse start (tokenize s) = .ok d →
          (d.after n).next.1 = some t →
            (t.Regular Plain ↔ ∀ word ∈ tokenize s, '(' ∉ word.toList ∧ ')' ∉ word.toList) ∧
              ((∀ c ∈ s.toList, Text.isAlphabetic c = true → Text.isWordChar c = true) →
                t.Regular Plain) := by
  constructor
  · intro t u ht hu h
    have htexts : t.bracketed.toList ++ [] = u.bracketed.toList ++ [] := by rw [h]
    exact (delimited_bracketed ht u hu [] [] htexts).1
  · intro g start s d n t hloaded hsmall hparse ht
    have hg := hloaded.wellFormed
    obtain ⟨-, hwords, hderives⟩ := Grammar.derives_of_parse hg hsmall hparse ht
    have hregular := hderives.regular_iff hg.toCoherent hloaded.spelled
    rw [hwords] at hregular
    constructor
    · rw [hregular]
      exact forall₂_congr fun word hword => Token.plain_iff_of_mem_tokenize hword
    · intro hs
      exact hregular.mpr fun word hword => Token.plain_of_mem_tokenize hs hword

/-- The second tree of three words is known by its bracketed form. -/
theorem ParseTree.eq_bracketing_of_bracketed :
    ∃ t, (((Chart.ofTerminals .bracketings [0, 0, 0]).derivations 0).after 1).next.1 = some t ∧
      t.bracketed = "(S (S (S (N a)) (S (N a))) (S (N a)))" ∧ t.Regular Plain ∧
        t = .node "S" [.node "S" [.node "S" [.leaf "N" "a"], .node "S" [.leaf "N" "a"]],
          .node "S" [.leaf "N" "a"]] := by
  have hform : ((((Chart.ofTerminals .bracketings [0, 0, 0]).derivations 0).after
      1).next.1.map bracketed) = some "(S (S (S (N a)) (S (N a))) (S (N a)))" := by decide +kernel
  obtain ⟨t, ht, hbracketed⟩ := Option.map_eq_some_iff.mp hform
  have htokens : tokenize "a a a" = ["a", "a", "a"] := by decide +kernel
  have hparse := Grammar.parse_bracketings
  rw [← htokens] at hparse
  have hchars : "a a a".toList.all (fun c => !Text.isAlphabetic c || Text.isWordChar c) = true := by
    decide +kernel
  have hletters : ∀ c ∈ "a a a".toList, Text.isAlphabetic c = true → Text.isWordChar c = true := by
    intro c hc halphabetic
    have hc := List.all_eq_true.mp hchars c hc
    rwa [halphabetic] at hc
  have hregular : t.Regular Plain :=
    (eq_of_bracketed_eq.2 _ _ _ _ _ _ Grammar.loaded_bracketings Grammar.small_bracketings hparse
      ht).2 hletters
  refine ⟨t, ht, hbracketed, hregular, eq_of_bracketed_eq.1 _ _ hregular ?_ ?_⟩
  · simp [regular_node, regular_leaf, Plain]
  · rw [hbracketed]
    decide +kernel

/-- A letter that is in no word, with and without a bracket behind it. -/
def newLetterRules : String :=
  "S -> C | C B\nC -> A B | A\nA -> \"\u0C5C)\" | \"\u0C5C\"\nB -> \"\u0C5C\" | \"\u0C5C)\""

def Grammar.newLetters : Grammar := (ofRuleText newLetterRules).toOption.get (by decide +kernel)

/-- Next to the letter U+0C5C a bracket is part of a token, and so two sentences have different
trees with one bracketed form. -/
theorem ParseTree.not_eq_of_bracketed_newLetter :
    tokenize "(\u0C5C" = ["(\u0C5C"] ∧
      ∃ g d d' t u, Grammar.ofRuleText newLetterRules = .ok g ∧
        g.parse "S" (tokenize "\u0C5C) \u0C5C") = .ok d ∧ (d.after 1).next.1 = some t ∧
          g.parse "S" (tokenize "\u0C5C \u0C5C)") = .ok d' ∧ (d'.after 0).next.1 = some u ∧
            ¬t.Regular Plain ∧ ¬u.Regular Plain ∧ t.bracketed = u.bracketed ∧ t ≠ u := by
  have hparse :
      ((Grammar.newLetters.parse "S" (tokenize "\u0C5C) \u0C5C")).toOption.bind fun d =>
        (d.after 1).next.1) =
      some (.node "S" [.node "C" [.leaf "A" "\u0C5C)", .leaf "B" "\u0C5C"]]) := by
    decide +kernel
  have hparse' :
      ((Grammar.newLetters.parse "S" (tokenize "\u0C5C \u0C5C)")).toOption.bind fun d =>
        (d.after 0).next.1) =
      some (.node "S" [.node "C" [.leaf "A" "\u0C5C"], .leaf "B" "\u0C5C)"]) := by
    decide +kernel
  obtain ⟨d, hd, ht⟩ := Option.bind_eq_some_iff.mp hparse
  obtain ⟨d', hd', hu⟩ := Option.bind_eq_some_iff.mp hparse'
  have hbracket : ¬Plain "\u0C5C)" := by simp [Plain]
  refine ⟨by decide +kernel, .newLetters, d, d', _, _, Except.eq_ok_get _,
    Except.toOption_eq_some.mp hd, ht, Except.toOption_eq_some.mp hd', hu, ?_, ?_,
    by decide +kernel, by decide⟩
  · exact fun h => hbracket (h.word _ (by simp))
  · exact fun h => hbracket (h.word _ (by simp))

end PhraseStructure
