import Mathlib.Tactic
import PhraseStructure.Proofs.RuleSyntax

/-!
# Entries written as rule text

Entries are written one a line, the words in quotes and nothing escaped. The text gives the entries
back exactly if each of them can be read from a line at all: left-hand side and names are names,
there is an alternative and no alternative is empty, and no word is empty or has a quote or a line
feed in it. All other characters are safe between quotes.
-/

namespace PhraseStructure

open Text

def WrittenSymbol.text : WrittenSymbol → String
  | .word w => "\"" ++ w ++ "\""
  | .name n => n

def WrittenAlternative.text (a : WrittenAlternative) : String :=
  " ".intercalate (a.map WrittenSymbol.text)

/-- The line of an entry, without its end. -/
def Entry.text (e : Entry) : String :=
  e.lhs ++ " -> " ++ " | ".intercalate (e.alternatives.map WrittenAlternative.text)

def RuleText.ofEntries (entries : List Entry) : String :=
  String.join (entries.map fun e => e.text ++ "\n")

/-- What all loaders ask of a symbol: a word has characters, and a name is one. -/
def WrittenSymbol.Valid : WrittenSymbol → Prop
  | .word w => w ≠ ""
  | .name n => isName n.toList = true

/-- What all loaders ask of an entry. -/
structure Entry.Valid (e : Entry) : Prop where
  lhs : isName e.lhs.toList = true
  symbols {a : WrittenAlternative} : a ∈ e.alternatives → a ≠ [] ∧ ∀ s ∈ a, s.Valid

/-- Whether a symbol can be read from a line. -/
def WrittenSymbol.Readable : WrittenSymbol → Prop
  | .word w => w ≠ "" ∧ '"' ∉ w.toList ∧ '\n' ∉ w.toList
  | .name n => isName n.toList = true

/-- Whether an entry can be read from a line. -/
structure Entry.Readable (e : Entry) : Prop where
  lhs : isName e.lhs.toList = true
  alternatives : e.alternatives ≠ []
  symbols {a : WrittenAlternative} : a ∈ e.alternatives → a ≠ [] ∧ ∀ s ∈ a, s.Readable

theorem WrittenSymbol.readable_iff {s : WrittenSymbol} :
    s.Readable ↔ s.Valid ∧ ∀ word, s = .word word → '"' ∉ word.toList ∧ '\n' ∉ word.toList := by
  cases s <;> simp [Readable, Valid]

/-- Lines ask more than all loaders do: an alternative, and words that fit between quotes. -/
theorem Entry.readable_iff {e : Entry} :
    e.Readable ↔ e.Valid ∧ e.alternatives ≠ [] ∧ ∀ a ∈ e.alternatives, ∀ word, .word word ∈ a →
      '"' ∉ word.toList ∧ '\n' ∉ word.toList := by
  constructor
  · intro h
    refine ⟨⟨h.lhs, fun ha => ?_⟩, h.alternatives, fun a ha word hword => ?_⟩
    · obtain ⟨hne, hs⟩ := h.symbols ha
      exact ⟨hne, fun s hmem => (WrittenSymbol.readable_iff.mp (hs s hmem)).1⟩
    · exact (WrittenSymbol.readable_iff.mp ((h.symbols ha).2 _ hword)).2 word rfl
  · rintro ⟨hvalid, hne, hwords⟩
    refine ⟨hvalid.lhs, hne, fun {a} ha => ?_⟩
    obtain ⟨hnil, hs⟩ := hvalid.symbols ha
    refine ⟨hnil, fun s hmem => WrittenSymbol.readable_iff.mpr ⟨hs s hmem, ?_⟩⟩
    rintro word rfl
    exact hwords a ha word hmem

theorem Entry.Valid.nil_notMem {e : Entry} (h : e.Valid) : [] ∉ e.alternatives :=
  fun hnil => (h.symbols hnil).1 rfl

theorem Entry.Readable.nil_notMem {e : Entry} (h : e.Readable) : [] ∉ e.alternatives :=
  fun hnil => (h.symbols hnil).1 rfl

namespace RuleText

/-- A text is read as some items, whatever is read behind it. -/
def Reads (text : List Char) (is : List Item) : Prop :=
  ∀ rest more, Ends rest → items rest = .ok more → items (text ++ rest) = .ok (is ++ more)

theorem Reads.nil : Reads [] [] := fun _ _ _ h => h

theorem ends_blank (text : List Char) : Ends (' ' :: text) := by
  rintro c hc
  obtain rfl : ' ' = c := by simpa using hc
  rfl

theorem reads_symbol {s : WrittenSymbol} (h : s.Readable) : Reads s.text.toList [.symbol s] := by
  intro rest more hrest hmore
  cases s with
  | word word =>
    obtain ⟨hne, hquote, -⟩ := h
    have hread := items_word (by simpa using hne) hquote hmore
    simpa [WrittenSymbol.text] using hread
  | name name =>
    have hread := items_name h hrest hmore
    rwa [String.ofList_toList] at hread

/-- Texts with a separator between them are read as their items, with those of the separator
between them. The blank at its front keeps a name from going on. -/
theorem reads_intercalate {sep : List Char} {between : List Item}
    (hsep : ∀ rest more, items rest = .ok more →
      items (' ' :: sep ++ rest) = .ok (between ++ more))
    {texts : List (List Char)} {parts : List (List Item)} (h : List.Forall₂ Reads texts parts) :
    Reads ((' ' :: sep).intercalate texts) (between.intercalate parts) := by
  induction h with
  | nil => exact Reads.nil
  | @cons text part texts parts htext hrest ih =>
    cases hrest with
    | nil => simpa using htext
    | cons _ _ =>
      intro rest more hends hmore
      simp only [List.intercalate_cons_cons, List.append_assoc]
      exact htext _ _ (ends_blank _) (hsep _ _ (ih rest more hends hmore))

theorem intercalate_symbols (a : WrittenAlternative) :
    [].intercalate (a.map fun s => [Item.symbol s]) = a.map Item.symbol := by
  induction a with
  | nil => rfl
  | cons s a ih =>
    cases a with
    | nil => rfl
    | cons _ _ =>
      simp only [List.map_cons, List.intercalate_cons_cons] at ih ⊢
      simp [ih]

theorem reads_alternative {a : WrittenAlternative} (h : ∀ s ∈ a, s.Readable) :
    Reads (WrittenAlternative.text a).toList (a.map .symbol) := by
  rw [WrittenAlternative.text, String.toList_intercalate, ← intercalate_symbols]
  apply reads_intercalate
  · intro rest more hmore
    exact (items_blank rfl rest).trans hmore
  · rw [List.map_map, List.forall₂_map_left_iff, List.forall₂_map_right_iff, List.forall₂_same]
    exact fun s hs => reads_symbol (h s hs)

theorem reads_alternatives {alternatives : List WrittenAlternative}
    (h : ∀ a ∈ alternatives, ∀ s ∈ a, s.Readable) :
    Reads (" | ".intercalate (alternatives.map WrittenAlternative.text)).toList
      (barred alternatives) := by
  rw [String.toList_intercalate]
  apply reads_intercalate
  · intro rest more hmore
    rw [items_eq_ok] at hmore ⊢
    exact .blank rfl (.bar (.blank rfl hmore))
  · rw [List.map_map, List.forall₂_map_left_iff, List.forall₂_map_right_iff, List.forall₂_same]
    exact fun a ha => reads_alternative (h a ha)

theorem holdsAlternatives_text {alternatives : List WrittenAlternative} (hne : alternatives ≠ [])
    (h : ∀ a ∈ alternatives, a ≠ [] ∧ ∀ s ∈ a, s.Readable) :
    HoldsAlternatives
      (' ' :: (" | ".intercalate (alternatives.map WrittenAlternative.text)).toList)
      alternatives where
  lexes := by
    have hread := reads_alternatives (fun a ha => (h a ha).2) [] [] nofun (items_eq_ok.mpr .nil)
    rw [List.append_nil, List.append_nil] at hread
    exact .blank rfl (items_eq_ok.mp hread)
  ne_nil := hne
  nil_notMem hnil := (h [] hnil).1 rfl

theorem toList_text (e : Entry) : e.text.toList = e.lhs.toList ++ ' ' :: '-' :: '>' ::
    ' ' :: (" | ".intercalate (e.alternatives.map WrittenAlternative.text)).toList := by
  simp [Entry.text]

theorem holdsRule_text {e : Entry} (h : e.Readable) : HoldsRule e.text.toList e := by
  have hblank : ∀ c ∈ [' '], isBlank c = true := List.forall_mem_singleton.mpr rfl
  have hrule := HoldsRule.intro h.lhs hblank
    (holdsAlternatives_text h.alternatives fun _ => h.symbols)
  rw [toList_text]
  simpa using hrule

/-- A text with which a line can end: nothing of it would be trimmed away or taken for the end of
the line. -/
structure EndsLine (text : List Char) : Prop where
  last : ∃ c, text.getLast? = some c ∧ isBlank c = false
  feed : '\n' ∉ text

theorem EndsLine.append {text before : List Char} (h : EndsLine text) (hbefore : '\n' ∉ before) :
    EndsLine (before ++ text) := by
  obtain ⟨c, hlast, hc⟩ := h.last
  refine ⟨⟨c, by simp [hlast], hc⟩, ?_⟩
  simpa using ⟨hbefore, h.feed⟩

theorem endsLine_intercalate {sep : List Char} (hsep : '\n' ∉ sep) {texts : List (List Char)}
    (hne : texts ≠ []) (h : ∀ text ∈ texts, EndsLine text) : EndsLine (sep.intercalate texts) := by
  induction texts with
  | nil => exact absurd rfl hne
  | cons text texts ih =>
    obtain ⟨htext, hrest⟩ := List.forall_mem_cons.mp h
    cases texts with
    | nil => simpa using htext
    | cons next rest =>
      rw [List.intercalate_cons_cons]
      refine (ih (List.cons_ne_nil _ _) hrest).append ?_
      simpa using ⟨htext.feed, hsep⟩

theorem feed_notMem_of_isName {name : String} (h : isName name.toList = true) :
    '\n' ∉ name.toList := by
  intro hmem
  exact absurd (delimiterClass_of_isName h hmem) (by decide)

theorem endsLine_symbol {s : WrittenSymbol} (h : s.Readable) : EndsLine s.text.toList := by
  cases s with
  | word word =>
    have htext : (WrittenSymbol.word word).text.toList = '"' :: word.toList ++ ['"'] := by
      simp [WrittenSymbol.text]
    rw [htext]
    refine EndsLine.append ⟨⟨'"', rfl, rfl⟩, by decide⟩ ?_
    simpa using h.2.2
  | name name =>
    refine ⟨?_, feed_notMem_of_isName h⟩
    obtain ⟨c, hc⟩ := Option.isSome_iff_exists.mp (List.getLast?_isSome.mpr (ne_nil_of_isName h))
    have hname := delimiterClass_of_isName h (List.mem_of_getLast? hc)
    exact ⟨c, hc, isBlank_eq_false hname⟩

theorem endsLine_text {e : Entry} (h : e.Readable) : EndsLine e.text.toList := by
  have halternatives :
      EndsLine (" | ".intercalate (e.alternatives.map WrittenAlternative.text)).toList := by
    rw [String.toList_intercalate, List.map_map]
    refine endsLine_intercalate (by decide) (by simpa using h.alternatives) ?_
    rw [List.forall_mem_map]
    intro a ha
    obtain ⟨hne, hsymbols⟩ := h.symbols ha
    rw [Function.comp_apply, WrittenAlternative.text, String.toList_intercalate, List.map_map]
    refine endsLine_intercalate (by decide) (by simpa using hne) ?_
    rw [List.forall_mem_map]
    exact fun s hs => endsLine_symbol (hsymbols s hs)
  have hlhs : '\n' ∉ e.lhs.toList ++ [' ', '-', '>', ' '] := by
    simpa using feed_notMem_of_isName h.lhs
  simpa [toList_text] using halternatives.append hlhs

theorem lineHolds_text {e : Entry} (h : e.Readable) : LineHolds e.text.toList (some e) := by
  obtain ⟨c, rest, hname, hc⟩ := exists_cons_of_isName h.lhs
  have hhead : e.text.toList.head? = some c := by simp [toList_text, hname]
  have htrim : trim e.text.toList = e.text.toList := by
    obtain ⟨d, hlast, hd⟩ := (endsLine_text h).last
    exact trim_eq_self (by simpa [hhead] using isBlank_eq_false hc) (by simpa [hlast] using hd)
  refine .rule ?_
  rw [htrim]
  exact holdsRule_text h

theorem readLines_text {entries : List Entry} (h : ∀ e ∈ entries, e.Readable) (line : Nat) :
    readLines line (entries.map fun e => e.text.toList) = .ok entries := by
  refine readLines_eq_ok.mpr ⟨entries.map some, ?_, by simp [List.reduceOption]⟩
  rw [List.forall₂_map_left_iff, List.forall₂_map_right_iff, List.forall₂_same]
  exact fun e he => lineHolds_text (h e he)

theorem Lexes.readable {text : List Char} {is : List Item} (h : Lexes text is)
    (hfeed : '\n' ∉ text) {s : WrittenSymbol} (hs : .symbol s ∈ is) : s.Readable := by
  induction h with
  | nil | comment => cases hs
  | blank _ _ ih => exact ih (fun hm => hfeed (List.mem_cons_of_mem _ hm)) hs
  | bar _ ih => exact ih (fun hm => hfeed (List.mem_cons_of_mem _ hm)) (by simpa using hs)
  | word hne hquote _ ih =>
    simp only [List.mem_cons, List.mem_append, not_or] at hfeed
    obtain ⟨-, hword, -, hrest⟩ := hfeed
    rcases List.mem_cons.mp hs with hs | hs
    · obtain rfl := Item.symbol.inj hs
      simpa [WrittenSymbol.Readable] using ⟨hne, hquote, hword⟩
    · exact ih hrest hs
  | name hname _ _ ih =>
    rcases List.mem_cons.mp hs with hs | hs
    · obtain rfl := Item.symbol.inj hs
      simpa [WrittenSymbol.Readable] using hname
    · exact ih (fun hm => hfeed (List.mem_append_right _ hm)) hs

theorem symbol_mem_barred {alternatives : List WrittenAlternative} {a : WrittenAlternative}
    (ha : a ∈ alternatives) {s : WrittenSymbol} (hs : s ∈ a) : .symbol s ∈ barred alternatives := by
  induction alternatives with
  | nil => cases ha
  | cons b rest ih =>
    cases rest with
    | nil =>
      obtain rfl := List.mem_singleton.mp ha
      simpa [barred] using hs
    | cons c rest =>
      have hcons : barred (b :: c :: rest) = b.map .symbol ++ .bar :: barred (c :: rest) := by
        simp [barred, List.intercalate_cons_cons]
      rw [hcons, List.mem_append, List.mem_cons]
      rcases List.mem_cons.mp ha with rfl | ha
      · exact Or.inl (List.mem_map_of_mem hs)
      · exact Or.inr (Or.inr (ih ha))

theorem HoldsRule.readable {text : List Char} {e : Entry} (h : HoldsRule text e)
    (hfeed : '\n' ∉ text) : e.Readable := by
  obtain ⟨hlhs, -, hrhs⟩ := h
  refine ⟨by simpa using hlhs, hrhs.ne_nil, fun {a} ha => ⟨?_, fun s hs => ?_⟩⟩
  · rintro rfl
    exact hrhs.nil_notMem ha
  · exact hrhs.lexes.readable (fun hm => hfeed (by simp [hm])) (symbol_mem_barred ha hs)

theorem LineHolds.readable {line : List Char} {e : Entry} (h : LineHolds line (some e))
    (hfeed : '\n' ∉ line) : e.Readable := by
  cases h with
  | rule hrule => exact hrule.readable fun hm => hfeed (trim_subset _ hm)

/-- Whatever the text, the entries that are read from it can be written. -/
theorem readable_of_readEntries {text : String} {entries : List Entry}
    (h : readEntries text = .ok entries) : ∀ e ∈ entries, e.Readable := by
  obtain ⟨held, hheld, rfl⟩ := readLines_eq_ok.mp h
  intro e he
  rw [List.reduceOption_mem_iff] at he
  obtain ⟨line, hline, hread⟩ := Except.exists_of_mem_mapM (forall₂_lineHolds.mp hheld) he
  exact (readLine_eq_ok.mp hread).readable (feed_notMem_of_mem_lines hline)

/-- Exactly the entries that can be read from lines are read back from their text. -/
theorem readEntries_ofEntries {entries : List Entry} :
    readEntries (ofEntries entries) = .ok entries ↔ ∀ e ∈ entries, e.Readable := by
  refine ⟨readable_of_readEntries, fun h => ?_⟩
  have htext : (ofEntries entries).toList =
      (entries.map fun e => e.text.toList).flatMap fun text => text ++ ['\n'] := by
    simp [ofEntries, String.toList_join, List.flatMap_def, Function.comp_def]
  rw [readEntries, htext, lines_flatMap, readLines_text h]
  rw [List.forall_mem_map]
  intro e he
  obtain ⟨⟨c, hlast, hc⟩, hfeed⟩ := endsLine_text (h e he)
  refine ⟨hfeed, ?_⟩
  rw [hlast]
  rintro hreturn
  obtain rfl : c = '\r' := by simpa using hreturn
  cases hc

end RuleText

end PhraseStructure
