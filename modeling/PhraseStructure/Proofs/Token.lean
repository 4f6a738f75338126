import Mathlib.Tactic
import PhraseStructure.Proofs.Pattern

/-!
# What tokens look like

A raw token is one of three: words joined by hyphens, a word behind an apostrophe, or a run of
characters that are neither blank nor characters of words. Nothing but blanks is left between them.
In lower case the first two keep their shape. A run of the third kind is dropped unless it holds an
alphabetic character, which is then newer than the table of the characters of words.
-/

namespace PhraseStructure.Token

open Text

def Word (text : List Char) : Prop := text ≠ [] ∧ ∀ c ∈ text, isWordChar c = true

/-- Words joined by hyphens, or a single word. -/
inductive Compound : List Char → Prop
  | word {w : List Char} : Word w → Compound w
  | hyphen {w rest : List Char} : Word w → Compound rest → Compound (w ++ '-' :: rest)

def Clitic (text : List Char) : Prop := ∃ w, text = '\'' :: w ∧ Word w

def Marks (text : List Char) : Prop := text ≠ [] ∧ ∀ c ∈ text, isMark c = true

/-- The shapes of raw tokens. -/
def Shape (text : List Char) : Prop := Compound text ∨ Clitic text ∨ Marks text

theorem isMark_iff {c : Char} : isMark c = true ↔ isWordChar c = false ∧ isBlank c = false := by
  simp [isMark]

theorem isBlank_hyphen : isBlank '-' = false := by decide

theorem isBlank_apostrophe : isBlank '\'' = false := by decide

theorem Word.isBlank_eq_false {w : List Char} (h : Word w) : ∀ c ∈ w, isBlank c = false :=
  fun c hc => isBlank_of_isWordChar (h.2 c hc)

theorem Compound.ne_nil {text : List Char} (h : Compound text) : text ≠ [] := by
  cases h with
  | word hw => exact hw.1
  | hyphen hw _ => exact List.append_ne_nil_of_left_ne_nil hw.1 _

theorem Compound.isBlank_eq_false {text : List Char} (h : Compound text) :
    ∀ c ∈ text, isBlank c = false := by
  induction h with
  | word hw => exact hw.isBlank_eq_false
  | hyphen hw _ ih =>
    exact List.forall_mem_append.mpr
      ⟨hw.isBlank_eq_false, List.forall_mem_cons.mpr ⟨isBlank_hyphen, ih⟩⟩

theorem Shape.ne_nil {text : List Char} (h : Shape text) : text ≠ [] := by
  rcases h with h | ⟨w, rfl, -⟩ | h
  · exact h.ne_nil
  · exact List.cons_ne_nil _ _
  · exact h.1

theorem Shape.isBlank_eq_false {text : List Char} (h : Shape text) :
    ∀ c ∈ text, isBlank c = false := by
  rcases h with h | ⟨w, rfl, hw⟩ | h
  · exact h.isBlank_eq_false
  · exact List.forall_mem_cons.mpr ⟨isBlank_apostrophe, hw.isBlank_eq_false⟩
  · exact fun c hc => (isMark_iff.mp (h.2 c hc)).2

theorem word_split {text : List Char} (h : startsWord text = true) :
    Word (split isWordChar text).1 := by
  cases text with
  | nil => cases h
  | cons c rest =>
    have hc : isWordChar c = true := h
    constructor
    · rw [split, List.takeWhile_cons_of_pos hc]
      exact List.cons_ne_nil _ _
    · exact fun d hd => List.mem_takeWhile_imp hd

/-- What stands behind the first word of a compound. -/
def Joined (text : List Char) : Prop := text = [] ∨ ∃ rest, text = '-' :: rest ∧ Compound rest

theorem Joined.compound {w text : List Char} (h : Joined text) (hw : Word w) :
    Compound (w ++ text) := by
  rcases h with rfl | ⟨rest, rfl, hrest⟩
  · rw [List.append_nil]
    exact .word hw
  · exact .hyphen hw hrest

theorem joined_compound (text : List Char) : Joined (compound text).1 := by
  fun_induction compound text with
  | case1 rest hword word more =>
    rename_i ih
    exact Or.inr ⟨word.1 ++ more.1, rfl, ih.compound (word_split hword)⟩
  | case2 => exact Or.inl rfl
  | case3 => exact Or.inl rfl

theorem shape_tail {c : Char} (rest : List Char) (hblank : isBlank c = false) :
    Shape (c :: (tail c rest).1) := by
  unfold tail
  split_ifs with hword hclitic
  · refine Or.inl ((joined_compound _).compound (w := c :: (split isWordChar rest).1) ?_)
    exact ⟨List.cons_ne_nil _ _, List.forall_mem_cons.mpr
      ⟨hword, fun d hd => List.mem_takeWhile_imp hd⟩⟩
  · simp only [Bool.and_eq_true, decide_eq_true_eq] at hclitic
    obtain ⟨rfl, hstarts⟩ := hclitic
    exact Or.inr (Or.inl ⟨_, rfl, word_split hstarts⟩)
  · have hmark : isMark c = true := isMark_iff.mpr ⟨by simpa using hword, hblank⟩
    exact Or.inr (Or.inr ⟨List.cons_ne_nil _ _, List.forall_mem_cons.mpr
      ⟨hmark, fun d hd => List.mem_takeWhile_imp hd⟩⟩)

theorem shape_of_mem_raw {text m : List Char} (h : m ∈ raw text) : Shape m := by
  fun_induction raw text with
  | case1 => exact absurd h List.not_mem_nil
  | case2 c rest _ ih => exact ih h
  | case3 c rest hblank ih =>
    rcases List.mem_cons.mp h with rfl | h
    · exact shape_tail rest (by simpa using hblank)
    · exact ih h

theorem flatten_raw (text : List Char) : (raw text).flatten = text.filter (!isBlank ·) := by
  fun_induction raw text with
  | case1 => rfl
  | case2 c rest hblank ih => rw [ih, List.filter_cons_of_neg (by simpa using hblank)]
  | case3 c rest hblank ih =>
    have hfirst := (shape_tail rest (by simpa using hblank : isBlank c = false)).isBlank_eq_false
    have hkept : (c :: (tail c rest).1).filter (!isBlank ·) = c :: (tail c rest).1 :=
      List.filter_eq_self.mpr fun d hd => by simp [hfirst d hd]
    calc ((c :: (tail c rest).1) :: raw (tail c rest).2).flatten
        = (c :: (tail c rest).1).filter (!isBlank ·) ++ (tail c rest).2.filter (!isBlank ·) := by
          rw [List.flatten_cons, ih, hkept]
      _ = (c :: rest).filter (!isBlank ·) := by
          rw [← List.filter_append, List.cons_append, tail_append]

theorem raw_cons {c : Char} (rest : List Char) (hblank : isBlank c = false) :
    raw (c :: rest) = (c :: (tail c rest).1) :: raw (tail c rest).2 := by
  rw [raw, if_neg (by simp [hblank])]

theorem split_of_all {p : Char → Bool} {text : List Char} (h : ∀ c ∈ text, p c = true) :
    split p text = (text, []) := by
  rw [split, List.takeWhile_eq_self_iff.mpr h, List.dropWhile_eq_nil_iff.mpr h]

theorem split_append_of_not {p : Char → Bool} {c : Char} (hp : p c = false) (a b : List Char) :
    split p (a ++ c :: b) = ((split p a).1, (split p a).2 ++ c :: b) := by
  induction a with
  | nil => simp [split, hp]
  | cons d a ih =>
    simp only [split, Prod.mk.injEq] at ih
    cases hd : p d <;> simp [split, hd, ih]

theorem split_append_cons {p : Char → Bool} {text : List Char} (h : ∀ c ∈ text, p c = true)
    {d : Char} (hd : p d = false) (rest : List Char) :
    split p (text ++ d :: rest) = (text, d :: rest) := by
  rw [split_append_of_not hd, split_of_all h, List.nil_append]

theorem startsWord_append {w : List Char} (h : Word w) (rest : List Char) :
    startsWord (w ++ rest) = true := by
  obtain ⟨c, w, rfl⟩ := List.exists_cons_of_ne_nil h.1
  exact h.2 c List.mem_cons_self

theorem Compound.startsWord {text : List Char} (h : Compound text) :
    Token.startsWord text = true := by
  cases h with
  | word hw => simpa using startsWord_append hw []
  | hyphen hw _ => exact startsWord_append hw _

theorem compound_hyphen {text : List Char} (h : Compound text) :
    compound ('-' :: text) = ('-' :: text, []) := by
  induction h with
  | word hw =>
    rw [compound, if_pos (Compound.word hw).startsWord, split_of_all hw.2]
    simp [compound]
  | hyphen hw hrest ih =>
    rw [compound, if_pos (Compound.hyphen hw hrest).startsWord,
      split_append_cons hw.2 (by decide)]
    dsimp only
    rw [ih]
    rfl

/-- A text with the shape of a raw token is read as this raw token. -/
theorem raw_of_shape {text : List Char} (h : Shape text) : raw text = [text] := by
  suffices htail : ∃ c rest, text = c :: rest ∧ tail c rest = (rest, []) by
    obtain ⟨c, rest, rfl, htail⟩ := htail
    rw [raw_cons rest (h.isBlank_eq_false c List.mem_cons_self), htail, raw]
  rcases h with h | ⟨w, rfl, hw⟩ | h
  · cases h with
    | @word w hw =>
      obtain ⟨c, rest, rfl⟩ := List.exists_cons_of_ne_nil hw.1
      obtain ⟨hc, hrest⟩ := List.forall_mem_cons.mp hw.2
      refine ⟨c, rest, rfl, ?_⟩
      rw [tail, if_pos hc, split_of_all hrest]
      simp [compound]
    | @hyphen w more hw hmore =>
      obtain ⟨c, rest, rfl⟩ := List.exists_cons_of_ne_nil hw.1
      obtain ⟨hc, hrest⟩ := List.forall_mem_cons.mp hw.2
      refine ⟨c, rest ++ '-' :: more, rfl, ?_⟩
      rw [tail, if_pos hc, split_append_cons hrest (by decide)]
      dsimp only
      rw [compound_hyphen hmore]
  · refine ⟨'\'', w, rfl, ?_⟩
    have hstarts := (Compound.word hw).startsWord
    rw [tail, if_neg (by decide), if_pos (by simp [hstarts]), split_of_all hw.2]
  · obtain ⟨c, rest, rfl⟩ := List.exists_cons_of_ne_nil h.1
    obtain ⟨hc, hrest⟩ := List.forall_mem_cons.mp h.2
    have hstarts : startsWord rest = false := by
      cases rest with
      | nil => rfl
      | cons d rest => exact (isMark_iff.mp (hrest d List.mem_cons_self)).1
    refine ⟨c, rest, rfl, ?_⟩
    rw [tail, if_neg (by simp [(isMark_iff.mp hc).1]), if_neg (by simp [hstarts]),
      split_of_all hrest]

theorem Word.lowers {w lowered : List Char} (h : Word w) (hl : Lowers w lowered) :
    Word lowered := ⟨hl.ne_nil h.1, hl.isWordChar h.2⟩

theorem lowers_cons {c : Char} (hc : lowerChar c = [c]) (hsigma : c ≠ 'Σ')
    {text lowered : List Char} (h : Lowers (c :: text) lowered) :
    ∃ rest, lowered = c :: rest ∧ Lowers text rest := by
  cases h with
  | @cons _ piece _ rest hpiece hrest =>
    obtain rfl : piece = [c] := by simpa [hc, hsigma] using hpiece
    exact ⟨rest, rfl, hrest⟩

theorem Compound.lowers {text lowered : List Char} (h : Compound text) (hl : Lowers text lowered) :
    Compound lowered := by
  induction h generalizing lowered with
  | word hw => exact .word (hw.lowers hl)
  | hyphen hw _ ih =>
    obtain ⟨w', rest', rfl, hw', hrest'⟩ := hl.of_append
    obtain ⟨rest'', rfl, hrest''⟩ := lowers_cons rfl (by decide) hrest'
    exact .hyphen (hw.lowers hw') (ih hrest'')

theorem Clitic.lowers {text lowered : List Char} (h : Clitic text) (hl : Lowers text lowered) :
    Clitic lowered := by
  obtain ⟨w, rfl, hw⟩ := h
  obtain ⟨rest, rfl, hrest⟩ := lowers_cons rfl (by decide) hl
  exact ⟨rest, rfl, hw.lowers hrest⟩

/-- A run that holds an alphabetic character which is no character of words. -/
def NewLetters (text : List Char) : Prop :=
  Marks text ∧ ∃ c ∈ text, isAlphabetic c = true ∧ isWordChar c = false

theorem tokenize_eq (s : String) :
    tokenize s = ((raw s.toList).filter (·.any isAlphabetic)).map fun m =>
      String.ofList (lowercase m) := by
  have hany : ((·.any isAlphabetic) ∘ lowercase) = fun m : List Char => m.any isAlphabetic :=
    funext fun m => (lowers_lowercase m).any_isAlphabetic
  rw [tokenize, List.filter_map, hany, List.map_map]
  rfl

theorem mem_tokenize {s t : String} :
    t ∈ tokenize s ↔
      ∃ m ∈ raw s.toList, m.any isAlphabetic = true ∧ t = String.ofList (lowercase m) := by
  rw [tokenize_eq, List.mem_map]
  simp only [List.mem_filter, and_assoc, eq_comm]

/-- Reading a sentence leaves out nothing but blanks, and each token has the shape of its raw
token, unless that is a run in which an alphabetic character is no character of words. -/
theorem tokens_exact (s : String) :
    Pattern.token.findAll s.toList = raw s.toList ∧
      (∀ m ∈ raw s.toList, m ≠ [] ∧ (∀ c ∈ m, isBlank c = false) ∧ Shape m) ∧
      (raw s.toList).flatten = s.toList.filter (!isBlank ·) ∧
      (tokenize s = ((raw s.toList).filter (·.any isAlphabetic)).map fun m =>
        String.ofList (lowercase m)) ∧
      ∀ t ∈ tokenize s, Compound t.toList ∨ Clitic t.toList ∨
        ∃ m ∈ raw s.toList, NewLetters m ∧ t = String.ofList (lowercase m) := by
  refine ⟨Pattern.findAll_token _, ?_, flatten_raw _, tokenize_eq s, ?_⟩
  · intro m hm
    have hshape := shape_of_mem_raw hm
    exact ⟨hshape.ne_nil, hshape.isBlank_eq_false, hshape⟩
  · intro t ht
    obtain ⟨m, hm, halphabetic, rfl⟩ := mem_tokenize.mp ht
    rw [String.toList_ofList]
    have hl := lowers_lowercase m
    rcases shape_of_mem_raw hm with h | h | h
    · exact Or.inl (h.lowers hl)
    · exact Or.inr (Or.inl (h.lowers hl))
    · obtain ⟨c, hc, hca⟩ := List.any_eq_true.mp halphabetic
      exact Or.inr (Or.inr ⟨m, hm, ⟨h, c, hc, hca, (isMark_iff.mp (h.2 c hc)).1⟩, rfl⟩)

theorem tokenize_of_shape {m : List Char} (h : Shape m) (halphabetic : m.any isAlphabetic = true) :
    tokenize (String.ofList m) = [String.ofList (lowercase m)] := by
  rw [tokenize_eq, String.toList_ofList, raw_of_shape h]
  simp [halphabetic]

/-- The letter U+0C5C is a token, and neither a word nor an apostrophe with a word. -/
theorem not_compound_newLetter : ¬∀ s, ∀ t ∈ tokenize s, Compound t.toList ∨ Clitic t.toList := by
  intro h
  have hmarks : Marks ['\u0C5C'] :=
    ⟨List.cons_ne_nil _ _, List.all_eq_true.mp (by decide +kernel)⟩
  have htoken := tokenize_of_shape (Or.inr (Or.inr hmarks)) (by decide +kernel)
  have hlower : lowercase ['\u0C5C'] = ['\u0C5C'] := by decide +kernel
  rw [hlower] at htoken
  have hshape := h (String.ofList ['\u0C5C']) (String.ofList ['\u0C5C'])
    (htoken ▸ List.mem_singleton_self _)
  rw [String.toList_ofList] at hshape
  rcases hshape with hshape | ⟨w, heq, -⟩
  · have hword : isWordChar '\u0C5C' = true := hshape.startsWord
    exact absurd hword (by decide +kernel)
  · simp at heq

end PhraseStructure.Token
