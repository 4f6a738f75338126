import Mathlib.Tactic
import PhraseStructure.Proofs.Token

/-!
# Reading tokens again

No raw token goes across a blank, so that the texts on its two sides are read apart. A sentence of
tokens, one blank between any two of them, is therefore read token by token. A token is read as
itself exactly if it is a single raw token, which only a capital letter that is newer than its lower
case can prevent.
-/

namespace PhraseStructure.Token

open Text

section Blank

variable {c : Char} (hc : isBlank c = true)
include hc

theorem isWordChar_of_isBlank : isWordChar c = false := by
  rw [Bool.eq_false_iff]
  intro hword
  rw [isBlank_of_isWordChar hword] at hc
  cases hc

theorem isMark_of_isBlank : isMark c = false := by
  simp [isMark, hc]

theorem startsWord_append_blank (a b : List Char) :
    startsWord (a ++ c :: b) = startsWord a := by
  cases a with
  | nil => exact isWordChar_of_isBlank hc
  | cons d a => rfl

theorem compound_append_blank (a b : List Char) :
    compound (a ++ c :: b) = ((compound a).1, (compound a).2 ++ c :: b) := by
  fun_induction compound a with
  | case1 a hword word more =>
    rename_i ih
    rw [List.cons_append, compound, startsWord_append_blank hc, if_pos hword,
      split_append_of_not (isWordChar_of_isBlank hc)]
    dsimp only
    rw [ih]
  | case2 a hword =>
    rw [List.cons_append, compound, startsWord_append_blank hc, if_neg hword]
  | case3 a hhyphen =>
    rw [compound]
    intro rest heq
    cases a with
    | nil =>
      obtain ⟨rfl, -⟩ := List.cons.inj heq
      exact absurd hc (by decide)
    | cons d a =>
      obtain ⟨rfl, -⟩ := List.cons.inj heq
      exact hhyphen a rfl

theorem tail_append_blank (d : Char) (a b : List Char) :
    tail d (a ++ c :: b) = ((tail d a).1, (tail d a).2 ++ c :: b) := by
  unfold tail
  rw [startsWord_append_blank hc, split_append_of_not (isWordChar_of_isBlank hc),
    split_append_of_not (isMark_of_isBlank hc)]
  dsimp only
  rw [compound_append_blank hc]
  split_ifs <;> rfl

theorem raw_append_blank (a b : List Char) : raw (a ++ c :: b) = raw a ++ raw b := by
  fun_induction raw a with
  | case1 => rw [List.nil_append, raw, if_pos hc, List.nil_append]
  | case2 d a hblank ih => rw [List.cons_append, raw, if_pos hblank, ih]
  | case3 d a hblank ih =>
    rw [List.cons_append, raw_cons _ (by simpa using hblank), tail_append_blank hc, ih]
    rfl

theorem tokenize_append_blank (a b : String) :
    tokenize (a ++ String.singleton c ++ b) = tokenize a ++ tokenize b := by
  have htext : (a ++ String.singleton c ++ b).toList = a.toList ++ c :: b.toList := by simp
  simp only [tokenize, htext, raw_append_blank hc, List.map_append, List.filter_append]

end Blank

theorem raw_intercalate (texts : List (List Char)) :
    raw ([' '].intercalate texts) = texts.flatMap raw := by
  match texts with
  | [] => simp [raw]
  | [text] => simp
  | text :: next :: texts =>
    have ih := raw_intercalate (next :: texts)
    rw [List.intercalate_cons_cons, List.append_assoc, List.singleton_append,
      raw_append_blank (by decide), ih]
    rfl

theorem tokenize_intercalate (ts : List String) :
    tokenize (" ".intercalate ts) = ts.flatMap tokenize := by
  have htext : (" ".intercalate ts).toList = [' '].intercalate (ts.map String.toList) :=
    String.toList_intercalate
  unfold tokenize
  rw [htext, raw_intercalate, List.flatMap_map, List.map_flatMap, List.filter_flatMap,
    List.map_flatMap]

theorem eq_singleton_of_flatten {texts : List (List Char)} {text : List Char}
    (hne : ∀ m ∈ texts, m ≠ []) (hflatten : texts.flatten = text) (hmem : text ∈ texts) :
    texts = [text] := by
  obtain ⟨before, after, rfl⟩ := List.append_of_mem hmem
  have hlength := congrArg List.length hflatten
  simp only [List.flatten_append, List.flatten_cons, List.length_append] at hlength
  have hnil : ∀ ms : List (List Char), (∀ m ∈ ms, m ≠ []) → ms.flatten.length = 0 → ms = [] := by
    intro ms hms hzero
    cases ms with
    | nil => rfl
    | cons m ms =>
      have hpos := List.length_pos_of_ne_nil (hms m List.mem_cons_self)
      rw [List.flatten_cons, List.length_append] at hzero
      omega
  have hbefore := hnil before (fun m hm => hne m (List.mem_append_left _ hm)) (by omega)
  have hafter := hnil after (fun m hm => hne m (by simp [hm])) (by omega)
  rw [hbefore, hafter]
  rfl

theorem length_le_length_flatMap {α : Type} {f : α → List α} {as : List α}
    (h : ∀ a ∈ as, f a ≠ []) : as.length ≤ (as.flatMap f).length := by
  induction as with
  | nil => exact Nat.zero_le _
  | cons a as ih =>
    obtain ⟨ha, has⟩ := List.forall_mem_cons.mp h
    have hpos := List.length_pos_of_ne_nil ha
    have hle := ih has
    rw [List.flatMap_cons, List.length_append, List.length_cons]
    omega

theorem flatMap_eq_self_iff {α : Type} {f : α → List α} {as : List α} (h : ∀ a ∈ as, f a ≠ []) :
    as.flatMap f = as ↔ ∀ a ∈ as, f a = [a] := by
  constructor
  · induction as with
    | nil => simp
    | cons a as ih =>
      intro heq
      obtain ⟨ha, has⟩ := List.forall_mem_cons.mp h
      obtain ⟨b, bs, hfa⟩ := List.exists_cons_of_ne_nil ha
      rw [List.flatMap_cons, hfa, List.cons_append] at heq
      obtain ⟨rfl, hrest⟩ := List.cons.inj heq
      have hlength := congrArg List.length hrest
      rw [List.length_append] at hlength
      have hle := length_le_length_flatMap has
      obtain rfl : bs = [] := List.eq_nil_of_length_eq_zero (by omega)
      exact List.forall_mem_cons.mpr ⟨hfa, ih has hrest⟩
  · intro hself
    rw [List.flatMap_congr hself]
    simp

variable {s t : String}

/-- The characters of a token are in lower case and not blank, and one of them is alphabetic. -/
theorem chars_of_mem_tokenize (h : t ∈ tokenize s) :
    (∀ c ∈ t.toList, Lowered c) ∧ (∀ c ∈ t.toList, isBlank c = false) ∧
      t.toList.any isAlphabetic = true := by
  obtain ⟨m, hm, halphabetic, rfl⟩ := mem_tokenize.mp h
  rw [String.toList_ofList]
  have hl := lowers_lowercase m
  exact ⟨hl.mem_lowered, hl.isBlank_eq_false (shape_of_mem_raw hm).isBlank_eq_false,
    hl.any_isAlphabetic.trans halphabetic⟩

/-- A token is read again in its raw tokens as they are. -/
theorem tokenize_token (h : t ∈ tokenize s) :
    tokenize t = ((raw t.toList).filter (·.any isAlphabetic)).map String.ofList := by
  obtain ⟨hlowered, -, -⟩ := chars_of_mem_tokenize h
  rw [tokenize_eq]
  apply List.map_congr_left
  intro m hm
  rw [lowercase_eq_self]
  intro c hc
  have hflatten : c ∈ (raw t.toList).flatten := List.mem_flatten_of_mem (List.mem_of_mem_filter hm) hc
  rw [flatten_raw] at hflatten
  exact hlowered c (List.mem_of_mem_filter hflatten)

theorem flatten_raw_token (h : t ∈ tokenize s) : (raw t.toList).flatten = t.toList := by
  obtain ⟨-, hblank, -⟩ := chars_of_mem_tokenize h
  rw [flatten_raw, List.filter_eq_self]
  intro c hc
  simp [hblank c hc]

theorem tokenize_token_ne_nil (h : t ∈ tokenize s) : tokenize t ≠ [] := by
  obtain ⟨-, -, halphabetic⟩ := chars_of_mem_tokenize h
  rw [← flatten_raw_token h] at halphabetic
  obtain ⟨c, hc, hca⟩ := List.any_eq_true.mp halphabetic
  obtain ⟨m, hm, hcm⟩ := List.mem_flatten.mp hc
  rw [tokenize_token h]
  apply List.ne_nil_of_mem
  exact List.mem_map_of_mem (List.mem_filter.mpr ⟨hm, List.any_eq_true.mpr ⟨c, hcm, hca⟩⟩)

theorem tokenize_token_eq_iff (h : t ∈ tokenize s) :
    tokenize t = [t] ↔ raw t.toList = [t.toList] := by
  obtain ⟨-, -, halphabetic⟩ := chars_of_mem_tokenize h
  rw [tokenize_token h]
  constructor
  · intro heq
    have hmem : t ∈ ((raw t.toList).filter (·.any isAlphabetic)).map String.ofList :=
      heq ▸ List.mem_singleton_self t
    obtain ⟨m, hm, rfl⟩ := List.mem_map.mp hmem
    refine eq_singleton_of_flatten (fun m hm => (shape_of_mem_raw hm).ne_nil)
      (flatten_raw_token h) ?_
    rw [String.toList_ofList] at hm ⊢
    exact List.mem_of_mem_filter hm
  · intro hraw
    rw [hraw]
    simp [halphabetic]

/-- Without the capitals that are newer than their lower case, a token has a shape of raw tokens. -/
theorem shape_of_mem_tokenize (hs : ∀ c ∈ s.toList, isNewCapital c = false) (h : t ∈ tokenize s) :
    Shape t.toList := by
  obtain ⟨m, hm, -, rfl⟩ := mem_tokenize.mp h
  rw [String.toList_ofList]
  have hl := lowers_lowercase m
  rcases shape_of_mem_raw hm with hshape | hshape | hshape
  · exact Or.inl (hshape.lowers hl)
  · exact Or.inr (Or.inl (hshape.lowers hl))
  · have hnew : ∀ c ∈ m, isNewCapital c = false := by
      intro c hc
      have hflatten : c ∈ (raw s.toList).flatten := List.mem_flatten_of_mem hm hc
      rw [flatten_raw] at hflatten
      exact hs c (List.mem_of_mem_filter hflatten)
    have hword := hl.isWordChar_eq_false (fun c hc => (isMark_iff.mp (hshape.2 c hc)).1) hnew
    have hblank := hl.isBlank_eq_false fun c hc => (isMark_iff.mp (hshape.2 c hc)).2
    exact Or.inr (Or.inr ⟨hl.ne_nil hshape.1, fun c hc => isMark_iff.mpr ⟨hword c hc, hblank c hc⟩⟩)

theorem tokenize_join_iff (s : String) :
    tokenize (" ".intercalate (tokenize s)) = tokenize s ↔
      ∀ t ∈ tokenize s, raw t.toList = [t.toList] := by
  rw [tokenize_intercalate, flatMap_eq_self_iff fun t => tokenize_token_ne_nil]
  exact forall₂_congr fun t ht => tokenize_token_eq_iff ht

/-- A blank is a boundary for tokens. The tokens of a sentence are read as themselves again if and
only if each of them is a single raw token, and this is so unless a capital letter that is newer than
its lower case is in the sentence. -/
theorem retokenize :
    (∀ (a b : String) (c : Char), isBlank c = true →
      tokenize (a ++ String.singleton c ++ b) = tokenize a ++ tokenize b) ∧
    ∀ s : String,
      (tokenize (" ".intercalate (tokenize s)) = tokenize s ↔
        ∀ t ∈ tokenize s, raw t.toList = [t.toList]) ∧
      ((∀ c ∈ s.toList, c ≠ '\uA7D2' ∧ c ≠ '\uA7D4') →
        tokenize (" ".intercalate (tokenize s)) = tokenize s) := by
  refine ⟨fun a b c hc => tokenize_append_blank hc a b, fun s => ⟨tokenize_join_iff s, ?_⟩⟩
  intro hs
  rw [tokenize_join_iff]
  intro t ht
  apply raw_of_shape
  apply shape_of_mem_tokenize _ ht
  intro c hc
  simp [isNewCapital, hs c hc]

/-- Words around a blank, and a sentence that is read as itself again. -/
theorem retokenize_holmes :
    tokenize ("Holmes" ++ String.singleton ' ' ++ "sat") = tokenize "Holmes" ++ tokenize "sat" ∧
      tokenize (" ".intercalate (tokenize "Holmes's pipe")) = tokenize "Holmes's pipe" := by
  have hold : ("Holmes's pipe".toList.all fun c => c ≠ '\uA7D2' ∧ c ≠ '\uA7D4') = true := by
    decide
  constructor
  · exact retokenize.1 "Holmes" "sat" ' ' (by decide)
  · exact (retokenize.2 "Holmes's pipe").2 fun c hc =>
      of_decide_eq_true (List.all_eq_true.mp hold c hc)

/-- The letter U+A7D2 is no character of words, and its lower case U+A7D3 is one: between two other
characters it makes one token, and the token is read as a word again. -/
theorem not_retokenize_newCapital :
    ¬∀ s : String, tokenize (" ".intercalate (tokenize s)) = tokenize s := by
  intro h
  have hmarks : Marks ['\u2026', '\uA7D2', '\u2026'] :=
    ⟨List.cons_ne_nil _ _, List.all_eq_true.mp (by decide +kernel)⟩
  have htoken := tokenize_of_shape (Or.inr (Or.inr hmarks)) (by decide +kernel)
  have hlower : lowercase ['\u2026', '\uA7D2', '\u2026'] = ['\u2026', '\uA7D3', '\u2026'] := by
    decide +kernel
  rw [hlower] at htoken
  have hraw := (tokenize_join_iff _).mp (h _) _ (htoken ▸ List.mem_singleton_self _)
  rw [String.toList_ofList] at hraw
  have hshape := shape_of_mem_raw (hraw ▸ List.mem_singleton_self _)
  rcases hshape with hshape | ⟨w, heq, -⟩ | hshape
  · have hword : isWordChar '\u2026' = true := hshape.startsWord
    exact absurd hword (by decide +kernel)
  · simp at heq
  · have hmark := hshape.2 '\uA7D3' (by simp)
    exact absurd hmark (by decide +kernel)

end PhraseStructure.Token
