import Mathlib.Data.List.ReduceOption
import Mathlib.Tactic
import PhraseStructure.Grammar.RuleText
import PhraseStructure.Proofs.Except
import PhraseStructure.Proofs.Text

/-!
# The syntax of rule text

A line is trimmed and then is empty, a comment, or a rule: a name, an arrow and alternatives with
bars between them. Blanks may stand between any two parts, but must stand only between two names.
Lines are read exactly if they are of this form, as what they hold, and a text is refused for the
first of its lines that is not.
-/

namespace PhraseStructure

namespace RuleText

open Text

/-- Whether a text begins with a blank if its first item is a name. -/
def Spaced (text : List Char) (is : List Item) : Prop :=
  ∀ name more, is = .symbol (.name name) :: more → ∃ c ∈ text.head?, isBlank c = true

/-- The items of a right-hand side. -/
inductive Lexes : List Char → List Item → Prop
  | nil : Lexes [] []
  | comment (text : List Char) : Lexes ('#' :: text) []
  | blank {c : Char} {rest : List Char} {is : List Item} :
      isBlank c = true → Lexes rest is → Lexes (c :: rest) is
  | bar {rest : List Char} {is : List Item} : Lexes rest is → Lexes ('|' :: rest) (.bar :: is)
  | word {word rest : List Char} {is : List Item} :
      word ≠ [] → '"' ∉ word → Lexes rest is →
        Lexes ('"' :: (word ++ '"' :: rest)) (.symbol (.word (String.ofList word)) :: is)
  | name {name rest : List Char} {is : List Item} :
      isName name = true → Spaced rest is → Lexes rest is →
        Lexes (name ++ rest) (.symbol (.name (String.ofList name)) :: is)

def barred (alternatives : List WrittenAlternative) : List Item :=
  [Item.bar].intercalate (alternatives.map fun a => a.map .symbol)

/-- A right-hand side is one or more alternatives of one or more symbols. -/
structure HoldsAlternatives (rhs : List Char) (alternatives : List WrittenAlternative) : Prop where
  lexes : Lexes rhs (barred alternatives)
  ne_nil : alternatives ≠ []
  nil_notMem : [] ∉ alternatives

/-- A rule is a name, an arrow and a right-hand side. -/
inductive HoldsRule : List Char → Entry → Prop
  | intro {lhs blanks rhs : List Char} {alternatives : List WrittenAlternative} :
      isName lhs = true → (∀ c ∈ blanks, isBlank c = true) → HoldsAlternatives rhs alternatives →
        HoldsRule (lhs ++ blanks ++ '-' :: '>' :: rhs) ⟨String.ofList lhs, alternatives⟩

/-- What a line holds: nothing, or a rule. -/
inductive LineHolds (line : List Char) : Option Entry → Prop
  | empty : trim line = [] → LineHolds line none
  | comment {text : List Char} : trim line = '#' :: text → LineHolds line none
  | rule {e : Entry} : HoldsRule (trim line) e → LineHolds line (some e)

theorem exists_cons_of_isName {name : List Char} (h : isName name = true) :
    ∃ c cs, name = c :: cs ∧ delimiterClass.contains c = false := by
  obtain ⟨c, cs, rfl⟩ := List.exists_cons_of_ne_nil (ne_nil_of_isName h)
  exact ⟨c, cs, rfl, delimiterClass_of_isName h List.mem_cons_self⟩

theorem continuesName_of_delimiterClass {c : Char} (h : delimiterClass.contains c = false) :
    continuesName c = true := by
  have hne : ∀ d, delimiterClass.contains d = true → c ≠ d := fun d => CharClass.ne_of_contains h
  simp [continuesName, isBlank_eq_false h, hne '|' rfl, hne '"' rfl, hne '#' rfl]

/-- A text that does not go on with a name that stands before it. -/
def Ends (rest : List Char) : Prop := ∀ c ∈ rest.head?, continuesName c = false

theorem items_blank {c : Char} (hc : isBlank c = true) (text : List Char) :
    items (c :: text) = items text := by
  have hne : ∀ d, isBlank d = false → c ≠ d := fun d hd => (CharClass.ne_of_contains hd hc).symm
  rw [items, if_neg (hne '#' rfl), if_neg (hne '|' rfl), if_neg (hne '"' rfl), if_pos hc]

theorem takeWhile_of_ends {rest : List Char} (h : Ends rest) :
    rest.takeWhile continuesName = [] := by
  cases rest with
  | nil => rfl
  | cons c rest => simp [h c rfl]

theorem dropWhile_of_ends {rest : List Char} (h : Ends rest) :
    rest.dropWhile continuesName = rest := by
  cases rest with
  | nil => rfl
  | cons c rest => simp [h c rfl]

theorem items_word {word rest : List Char} (hne : word ≠ []) (hquote : '"' ∉ word)
    {more : List Item} (hmore : items rest = .ok more) :
    items ('"' :: (word ++ '"' :: rest)) = .ok (.symbol (.word (String.ofList word)) :: more) := by
  have hstop : ∀ c ∈ word, (c != '"') = true := by
    intro c hc
    simpa using ne_of_mem_of_not_mem hc hquote
  rw [items]
  simp [List.takeWhile_append_of_pos hstop, List.dropWhile_append_of_pos hstop, hne, hmore]

theorem items_name {name rest : List Char} (h : isName name = true) (hrest : Ends rest)
    {more : List Item} (hmore : items rest = .ok more) :
    items (name ++ rest) = .ok (.symbol (.name (String.ofList name)) :: more) := by
  have hchars : ∀ c ∈ name, delimiterClass.contains c = false :=
    fun _ hc => delimiterClass_of_isName h hc
  obtain ⟨c, cs, rfl, hc⟩ := exists_cons_of_isName h
  have hne : ∀ d, delimiterClass.contains d = true → c ≠ d := fun d => CharClass.ne_of_contains hc
  have hgo : ∀ d ∈ cs, continuesName d = true :=
    fun d hd => continuesName_of_delimiterClass (hchars d (List.mem_cons_of_mem _ hd))
  have hread : readName (c :: cs) = .ok (String.ofList (c :: cs)) := readName_eq_ok.mpr ⟨h, rfl⟩
  rw [List.cons_append, items, if_neg (hne '#' rfl), if_neg (hne '|' rfl), if_neg (hne '"' rfl),
    if_neg (by simp [isBlank_eq_false hc]), List.takeWhile_append_of_pos hgo,
    List.dropWhile_append_of_pos hgo, takeWhile_of_ends hrest, dropWhile_of_ends hrest,
    List.append_nil, hread, hmore]
  rfl

theorem Lexes.ends {text : List Char} {is : List Item} (h : Lexes text is)
    (hspaced : Spaced text is) : Ends text := by
  intro c hc
  cases h with
  | nil => cases hc
  | comment | bar | word =>
    obtain rfl := Option.some.inj hc
    rfl
  | blank hblank =>
    obtain rfl := Option.some.inj hc
    simp [continuesName, hblank]
  | name hname =>
    obtain ⟨d, hd, hblank⟩ := hspaced _ _ rfl
    obtain rfl := Option.mem_unique hc hd
    simp [continuesName, hblank]

theorem Lexes.spaced {text : List Char} {is : List Item} (h : Lexes text is) (hends : Ends text) :
    Spaced text is := by
  intro n more his
  cases h with
  | nil | comment | bar | word => cases his
  | blank hblank => exact ⟨_, rfl, hblank⟩
  | name hname =>
    obtain ⟨c, cs, rfl, hc⟩ := exists_cons_of_isName hname
    have hstop := hends c (by simp)
    simp [continuesName_of_delimiterClass hc] at hstop

theorem eq_append_quote {text : List Char} (h : text.dropWhile (· != '"') ≠ []) :
    text = text.takeWhile (· != '"') ++ '"' :: (text.dropWhile (· != '"')).tail := by
  have hquote : (text.dropWhile (· != '"')).head h = '"' := by
    simpa using List.head_dropWhile_not (· != '"') h
  have hdrop : text.dropWhile (· != '"') = '"' :: (text.dropWhile (· != '"')).tail :=
    (List.cons_head_tail h).symm.trans (congrArg (· :: _) hquote)
  exact List.takeWhile_append_dropWhile.symm.trans (congrArg _ hdrop)

theorem lexes_of_items {text : List Char} {is : List Item} (h : items text = .ok is) :
    Lexes text is := by
  fun_induction items text generalizing is with
  | case1 =>
    obtain rfl := Except.ok.inj h
    exact .nil
  | case2 text =>
    obtain rfl := Except.ok.inj h
    exact .comment text
  | case3 text _ ih =>
    obtain ⟨more, hmore, h⟩ := Except.bind_eq_ok.mp h
    obtain rfl := Except.ok.inj h
    exact .bar (ih hmore)
  | case4 | case5 => cases h
  | case6 =>
    rename_i text word rest hrest hword _ _ ih
    obtain ⟨more, hmore, h⟩ := Except.bind_eq_ok.mp h
    obtain rfl := Except.ok.inj h
    have hquote : '"' ∉ word := fun hmem => by simpa using List.mem_takeWhile_imp hmem
    rw [eq_append_quote fun hnil => hrest (List.isEmpty_iff.mpr hnil)]
    exact .word (fun hnil => hword (List.isEmpty_iff.mpr hnil)) hquote (ih hmore)
  | case7 c text _ _ _ hblank ih => exact .blank hblank (ih h)
  | case8 c text _ _ _ _ ih =>
    obtain ⟨name, hname, h⟩ := Except.bind_eq_ok.mp h
    obtain ⟨more, hmore, h⟩ := Except.bind_eq_ok.mp h
    obtain rfl := Except.ok.inj h
    obtain ⟨hvalid, rfl⟩ := readName_eq_ok.mp hname
    have hlexes := ih hmore
    have hends : Ends (text.dropWhile continuesName) := by
      intro c hc
      have hnot := List.head?_dropWhile_not continuesName text
      simpa [Option.mem_def.mp hc] using hnot
    have htext : c :: text =
        c :: text.takeWhile continuesName ++ text.dropWhile continuesName := by
      simp
    rw [htext]
    exact .name hvalid (hlexes.spaced hends) hlexes

/-- The items that are read are those of the text. -/
theorem items_eq_ok {text : List Char} {is : List Item} : items text = .ok is ↔ Lexes text is := by
  refine ⟨lexes_of_items, fun h => ?_⟩
  induction h with
  | nil => rw [items]
  | comment text => rw [items, if_pos rfl]
  | blank hblank _ ih => rw [items_blank hblank, ih]
  | bar _ ih =>
    rw [items, if_neg (by decide), if_pos rfl, ih]
    rfl
  | word hne hquote _ ih => exact items_word hne hquote ih
  | name hname hspaced hrest ih => exact items_name hname (hrest.ends hspaced) ih

theorem barred_nil_cons {alternatives : List WrittenAlternative} (hne : alternatives ≠ []) :
    barred ([] :: alternatives) = .bar :: barred alternatives := by
  obtain ⟨a, rest, rfl⟩ := List.exists_cons_of_ne_nil hne
  simp [barred, List.intercalate_cons_cons]

theorem barred_cons_cons (s : WrittenSymbol) (a : WrittenAlternative)
    (rest : List WrittenAlternative) :
    barred ((s :: a) :: rest) = .symbol s :: barred (a :: rest) := by
  cases rest <;> simp [barred, List.intercalate_cons_cons]

theorem splitAtBars_barred {alternatives : List WrittenAlternative} (hne : alternatives ≠ []) :
    splitAtBars (barred alternatives) = alternatives := by
  induction alternatives with
  | nil => exact absurd rfl hne
  | cons a rest ih =>
    induction a with
    | nil =>
      rcases eq_or_ne rest [] with rfl | hrest
      · rfl
      · rw [barred_nil_cons hrest, splitAtBars, ih hrest]
    | cons s a iha => rw [barred_cons_cons, splitAtBars, iha (List.cons_ne_nil _ _)]

theorem barred_splitAtBars (is : List Item) : barred (splitAtBars is) = is := by
  fun_induction splitAtBars is with
  | case1 => rfl
  | case2 rest ih => rw [barred_nil_cons (splitAtBars_ne_nil rest), ih]
  | case3 s rest hnil => exact absurd hnil (splitAtBars_ne_nil rest)
  | case4 s rest first more hrest ih => rw [barred_cons_cons, ← hrest, ih]

theorem readAlternatives_eq_ok {rhs : List Char} {alternatives : List WrittenAlternative} :
    readAlternatives rhs = .ok alternatives ↔ HoldsAlternatives rhs alternatives := by
  unfold readAlternatives
  rw [Except.bind_eq_ok]
  constructor
  · rintro ⟨is, his, h⟩
    dsimp only at h
    split_ifs at h with hempty
    obtain rfl := Except.ok.inj h
    refine ⟨?_, splitAtBars_ne_nil is, ?_⟩
    · rw [barred_splitAtBars]
      exact items_eq_ok.mp his
    · intro hnil
      exact hempty (List.any_eq_true.mpr ⟨[], hnil, rfl⟩)
  · intro h
    refine ⟨_, items_eq_ok.mpr h.lexes, ?_⟩
    have hempty : ¬alternatives.any List.isEmpty = true := by
      simpa using h.nil_notMem
    dsimp only
    rw [splitAtBars_barred h.ne_nil, if_neg hempty]

theorem splitAtArrow_append {lhs : List Char} (h : '-' ∉ lhs) (rhs : List Char) :
    splitAtArrow (lhs ++ '-' :: '>' :: rhs) = some (lhs, rhs) := by
  induction lhs with
  | nil => rfl
  | cons c lhs ih =>
    obtain ⟨hc, hlhs⟩ := not_or.mp (List.mem_cons.not.mp h)
    rw [List.cons_append, splitAtArrow, ih hlhs]
    · rfl
    · exact fun _ he => absurd he.symm hc

theorem eq_append_of_splitAtArrow {text lhs rhs : List Char}
    (h : splitAtArrow text = some (lhs, rhs)) : text = lhs ++ '-' :: '>' :: rhs := by
  fun_induction splitAtArrow text generalizing lhs with
  | case1 rest =>
    obtain ⟨rfl, rfl⟩ := Prod.mk.inj (Option.some.inj h)
    rfl
  | case2 c rest _ ih =>
    obtain ⟨⟨lhs', rhs'⟩, hrest, h⟩ := Option.map_eq_some_iff.mp h
    obtain ⟨rfl, rfl⟩ := Prod.mk.inj h
    exact congrArg (List.cons c) (ih hrest)
  | case3 => cases h

/-- A rule is read at its first arrow, which stands behind the name. -/
theorem readRule_append {lhs blanks rhs : List Char} (hlhs : isName lhs = true)
    (hblanks : ∀ c ∈ blanks, isBlank c = true) {alternatives : List WrittenAlternative}
    (hrhs : readAlternatives rhs = .ok alternatives) :
    readRule (lhs ++ blanks ++ '-' :: '>' :: rhs) = .ok ⟨String.ofList lhs, alternatives⟩ := by
  have hchars : ∀ c ∈ lhs, delimiterClass.contains c = false :=
    fun _ hc => delimiterClass_of_isName hlhs hc
  have hdash : '-' ∉ lhs ++ blanks := by
    rw [List.mem_append, not_or]
    exact ⟨fun hmem => absurd (hchars _ hmem) (by decide),
      fun hmem => absurd (hblanks _ hmem) (by decide)⟩
  have htrim : trim (lhs ++ blanks) = lhs := by
    refine trim_append_blanks (ne_nil_of_isName hlhs) ?_ ?_ hblanks
    · exact fun c hc => isBlank_eq_false (hchars c (List.mem_of_mem_head? hc))
    · exact fun c hc => isBlank_eq_false (hchars c (List.mem_of_getLast? hc))
  have hname : readName lhs = .ok (String.ofList lhs) := readName_eq_ok.mpr ⟨hlhs, rfl⟩
  rw [readRule, splitAtArrow_append hdash]
  simp only [htrim, hname, hrhs]
  rfl

/-- Of a text without blanks at its front, exactly a rule is read. -/
theorem readRule_eq_ok {text : List Char} (hhead : ∀ c ∈ text.head?, isBlank c = false)
    {e : Entry} : readRule text = .ok e ↔ HoldsRule text e := by
  constructor
  · intro h
    unfold readRule at h
    split at h
    · cases h
    · next lhs rhs hsplit =>
      obtain ⟨name, hname, h⟩ := Except.bind_eq_ok.mp h
      obtain ⟨alternatives, hread, h⟩ := Except.bind_eq_ok.mp h
      obtain rfl := Except.ok.inj h
      obtain ⟨hvalid, rfl⟩ := readName_eq_ok.mp hname
      obtain rfl := eq_append_of_splitAtArrow hsplit
      obtain ⟨before, after, hlhs, hbefore, hafter⟩ := exists_eq_append_trim lhs
      obtain rfl : before = [] := by
        cases before with
        | nil => rfl
        | cons c before =>
          have hc := hhead c (by rw [hlhs]; rfl)
          simp [hbefore c List.mem_cons_self] at hc
      rw [List.nil_append] at hlhs
      conv => lhs; rw [hlhs]
      exact .intro hvalid hafter (readAlternatives_eq_ok.mp hread)
  · rintro ⟨hlhs, hblanks, hrhs⟩
    exact readRule_append hlhs hblanks (readAlternatives_eq_ok.mpr hrhs)

theorem HoldsRule.exists_cons {text : List Char} {e : Entry} (h : HoldsRule text e) :
    ∃ c rest, text = c :: rest ∧ c ≠ '#' := by
  obtain ⟨hlhs, -, -⟩ := h
  obtain ⟨c, cs, rfl, hc⟩ := exists_cons_of_isName hlhs
  exact ⟨c, _, rfl, CharClass.ne_of_contains hc rfl⟩

theorem readLine_eq_ok {line : List Char} {held : Option Entry} :
    readLine line = .ok held ↔ LineHolds line held := by
  unfold readLine
  dsimp only
  split_ifs with hnone
  · constructor
    · intro h
      obtain rfl := Except.ok.inj h
      rw [Bool.or_eq_true, List.isEmpty_iff, beq_iff_eq, List.head?_eq_some_iff] at hnone
      rcases hnone with hnil | ⟨text, hcomment⟩
      · exact .empty hnil
      · exact .comment hcomment
    · rintro (hnil | hcomment | hrule)
      · rfl
      · rfl
      · obtain ⟨c, rest, htext, hc⟩ := hrule.exists_cons
        simp [htext, hc] at hnone
  · rw [Except.map_eq_ok]
    constructor
    · rintro ⟨e, hread, rfl⟩
      exact .rule ((readRule_eq_ok fun _ => isBlank_of_head_trim).mp hread)
    · rintro (hnil | hcomment | hrule)
      · simp [hnil] at hnone
      · simp [hcomment] at hnone
      · exact ⟨_, (readRule_eq_ok fun _ => isBlank_of_head_trim).mpr hrule, rfl⟩

theorem forall₂_lineHolds {lines : List (List Char)} {held : List (Option Entry)} :
    List.Forall₂ LineHolds lines held ↔ lines.mapM readLine = .ok held := by
  simp only [Except.mapM_eq_ok, readLine_eq_ok]

/-- Lines are read as the rules among what they hold. -/
theorem readLines_eq_ok {number : Nat} {lines : List (List Char)} {entries : List Entry} :
    readLines number lines = .ok entries ↔
      ∃ held, List.Forall₂ LineHolds lines held ∧ held.reduceOption = entries := by
  simp only [forall₂_lineHolds]
  induction lines generalizing number entries with
  | nil => simp [readLines, pure, Except.pure]
  | cons line lines ih =>
    cases hread : readLine line with
    | error fault => simp [readLines, hread, Except.bind_eq_ok]
    | ok held =>
      cases held with
      | none => simp [readLines, hread, Except.bind_eq_ok, ih, pure, Except.pure]
      | some e => simp [readLines, hread, Except.bind_eq_ok, ih, pure, Except.pure]

/-- The first line that does not hold anything is the one that is reported. -/
theorem exists_readLines_eq_error {number reported : Nat} {lines : List (List Char)} :
    (∃ fault, readLines number lines = .error (.malformedRule reported fault)) ↔
      ∃ before line after, lines = before ++ line :: after ∧
        (∀ l ∈ before, ∃ held, LineHolds l held) ∧ (¬∃ held, LineHolds line held) ∧
          reported = number + before.length := by
  induction lines generalizing number with
  | nil => simp [readLines]
  | cons line lines ih =>
    cases hread : readLine line with
    | error fault =>
      have hnone : ¬∃ held, LineHolds line held := by
        simp [← readLine_eq_ok, hread]
      constructor
      · rintro ⟨fault', h⟩
        simp only [readLines, hread, Except.error.injEq, GrammarError.malformedRule.injEq] at h
        exact ⟨[], line, lines, rfl, nofun, hnone, h.1.symm⟩
      · rintro ⟨before, bad, after, hsplit, hbefore, hbad, rfl⟩
        cases before with
        | nil => exact ⟨fault, by simp [readLines, hread]⟩
        | cons l before =>
          obtain ⟨rfl, -⟩ := List.cons_eq_cons.mp hsplit
          exact absurd (hbefore _ List.mem_cons_self) hnone
    | ok held =>
      have hline : ∃ held, LineHolds line held := ⟨held, readLine_eq_ok.mp hread⟩
      have hrest : ∀ fault,
          readLines number (line :: lines) = .error (.malformedRule reported fault) ↔
            readLines (number + 1) lines = .error (.malformedRule reported fault) := by
        intro fault
        cases held <;> simp [readLines, hread, Except.bind_eq_error, pure, Except.pure]
      simp only [hrest, ih]
      constructor
      · rintro ⟨before, bad, after, rfl, hbefore, hbad, rfl⟩
        refine ⟨line :: before, bad, after, rfl, ?_, hbad, ?_⟩
        · exact List.forall_mem_cons.mpr ⟨hline, hbefore⟩
        · rw [List.length_cons, Nat.succ_add_eq_add_succ]
      · rintro ⟨before, bad, after, hsplit, hbefore, hbad, rfl⟩
        cases before with
        | nil =>
          obtain ⟨rfl, -⟩ := List.cons_eq_cons.mp hsplit
          exact absurd hline hbad
        | cons l before =>
          obtain ⟨rfl, rfl⟩ := List.cons_eq_cons.mp hsplit
          refine ⟨before, bad, after, rfl, (List.forall_mem_cons.mp hbefore).2, hbad, ?_⟩
          rw [List.length_cons, Nat.succ_add_eq_add_succ]

/-- A text is read as the rules of its lines if each line holds a rule or nothing. Otherwise the
first line that does not is reported, whatever comes behind it. -/
theorem readEntries_exact (text : String) :
    (∀ entries, readEntries text = .ok entries ↔
      ∃ held, List.Forall₂ LineHolds (lines text.toList) held ∧ held.reduceOption = entries) ∧
    ((∃ entries, readEntries text = .ok entries) ↔
      ∀ line ∈ lines text.toList, ∃ held, LineHolds line held) ∧
    ∀ number, (∃ fault, readEntries text = .error (.malformedRule number fault)) ↔
      ∃ before line after, lines text.toList = before ++ line :: after ∧
        (∀ l ∈ before, ∃ held, LineHolds l held) ∧ (¬∃ held, LineHolds line held) ∧
          number = before.length + 1 := by
  refine ⟨fun entries => readLines_eq_ok, ?_, fun number => ?_⟩
  · simp only [readEntries, readLines_eq_ok, forall₂_lineHolds, ← readLine_eq_ok,
      ← Except.exists_mapM_eq_ok]
    rw [exists_comm]
    simp only [exists_and_left, exists_eq', and_true]
  · rw [readEntries, exists_readLines_eq_error]
    simp only [Nat.add_comm 1]

/-- Signs in a word are part of it, and those in a comment are read past. -/
example : readEntries "# signs\nS->A\"|#\" # |" =
    .ok [⟨"S", [[.name "A", .word "|#"]]⟩] := by
  decide +kernel

end RuleText

end PhraseStructure
