import Mathlib.Data.List.DropRight
import Mathlib.Tactic
import PhraseStructure.Grammar.Entry
import PhraseStructure.Text.Basic

/-!
# Characters of names, trimmed texts and lines

No character of a name is blank or has a meaning in rule text. A text that begins and ends with
other characters than blanks is not changed by trimming, and lines that are written one after the
other are read back unless a line feed in one of them, or a carriage return at the end of one, is
taken for a part of its end.
-/

namespace PhraseStructure

namespace Text

/-- Whether each interval of one class lies before or behind each of the other. -/
def CharClass.apart (k l : CharClass) : Bool :=
  k.all fun r => l.all fun s => r.last.blt s.first || s.last.blt r.first

/-- Classes whose intervals lie apart have no character in common. -/
theorem CharClass.contains_eq_false {k l : CharClass} (hapart : k.apart l = true) {c : Char}
    (h : k.contains c = true) : l.contains c = false := by
  simp only [apart, List.all_eq_true, Bool.or_eq_true, Nat.blt_eq] at hapart
  by_contra hl
  obtain ⟨r, hr, hfirst, hlast⟩ := contains_iff.mp h
  obtain ⟨s, hs, hfirst', hlast'⟩ := contains_iff.mp (Bool.not_eq_false _ ▸ hl)
  rcases hapart r hr s hs with hrs | hrs <;> omega

theorem CharClass.ne_of_contains {k : CharClass} {c d : Char} (hc : k.contains c = false)
    (hd : k.contains d = true) : c ≠ d := by
  rintro rfl
  simp [hc] at hd

/-- The characters that are blank or have a meaning in rule text. -/
def delimiterClass : CharClass :=
  ⟨0x22, 0x23⟩ :: ⟨0x2D, 0x2D⟩ :: ⟨0x7C, 0x7C⟩ :: blankClass

def asciiNameClass : CharClass := [⟨0x30, 0x39⟩, ⟨0x41, 0x5A⟩, ⟨0x5F, 0x5F⟩, ⟨0x61, 0x7A⟩]

theorem contains_asciiNameClass {c : Char} (h : c.isAlphanum = true ∨ c = '_') :
    asciiNameClass.contains c = true := by
  rcases h with h | rfl
  · have hval : ∀ n : UInt32,
        (n ≤ c.val ↔ n.toNat ≤ c.toNat) ∧ (c.val ≤ n ↔ c.toNat ≤ n.toNat) :=
      fun n => ⟨UInt32.le_iff_toNat_le, UInt32.le_iff_toNat_le⟩
    change (decide ('A'.val ≤ c.val ∧ c.val ≤ 'Z'.val) ||
      (decide ('a'.val ≤ c.val) && decide (c.val ≤ 'z'.val)) ||
      (decide ('0'.val ≤ c.val) && decide (c.val ≤ '9'.val))) = true at h
    simp only [hval, Bool.or_eq_true, Bool.and_eq_true, decide_eq_true_eq, Char.reduceVal,
      UInt32.reduceToNat] at h
    simp only [asciiNameClass, CharClass.contains_iff, List.mem_cons, List.not_mem_nil, or_false,
      exists_eq_or_imp, exists_eq_left]
    omega
  · rfl

theorem contains_nameClasses {c : Char} (h : isAlphanumeric c = true ∨ c = '_') :
    (asciiNameClass ++ alphabeticClass ++ numericClass).contains c = true := by
  have happend : ∀ k l : CharClass,
      CharClass.contains (k ++ l) c = (k.contains c || l.contains c) := fun k l => List.any_append
  simp only [happend, Bool.or_eq_true]
  by_cases hascii : c.toNat < 0x80
  · refine Or.inl (Or.inl (contains_asciiNameClass ?_))
    simpa [isAlphanumeric, isAlphabetic, isNumeric, hascii, Char.isAlphanum] using h
  · rcases h with h | rfl
    · simp only [isAlphanumeric, isAlphabetic, isNumeric, hascii, if_false, Bool.or_eq_true] at h
      tauto
    · exact absurd (by decide) hascii

theorem delimiterClass_eq_false {c : Char} (h : isAlphanumeric c = true ∨ c = '_') :
    delimiterClass.contains c = false :=
  CharClass.contains_eq_false (by decide +kernel) (contains_nameClasses h)

theorem isBlank_eq_false {c : Char} (h : delimiterClass.contains c = false) :
    isBlank c = false := by
  simp only [delimiterClass, CharClass.contains, List.any_cons, Bool.or_eq_false_iff] at h
  exact h.2.2.2

theorem dropWhile_blank_eq_self {text : List Char} (h : ∀ c ∈ text.head?, isBlank c = false) :
    text.dropWhile isBlank = text := by
  cases text with
  | nil => rfl
  | cons c text => simp [h c rfl]

theorem trim_eq_self {text : List Char} (hhead : ∀ c ∈ text.head?, isBlank c = false)
    (hlast : ∀ c ∈ text.getLast?, isBlank c = false) : trim text = text := by
  rw [trim, dropWhile_blank_eq_self hhead, dropWhile_blank_eq_self (by simpa using hlast)]
  simp

theorem trim_append_blanks {text : List Char} (hne : text ≠ [])
    (hhead : ∀ c ∈ text.head?, isBlank c = false)
    (hlast : ∀ c ∈ text.getLast?, isBlank c = false) {blanks : List Char}
    (hblanks : ∀ c ∈ blanks, isBlank c = true) : trim (text ++ blanks) = text := by
  have hdrop : (text ++ blanks).dropWhile isBlank = text ++ blanks := by
    apply dropWhile_blank_eq_self
    rwa [List.head?_append_of_ne_nil _ hne]
  rw [trim, hdrop, List.reverse_append, List.dropWhile_append_of_pos (by simpa using hblanks),
    dropWhile_blank_eq_self (by simpa using hlast), List.reverse_reverse]

theorem exists_eq_append_trim (text : List Char) : ∃ before after,
    text = before ++ trim text ++ after ∧ (∀ c ∈ before, isBlank c = true) ∧
      ∀ c ∈ after, isBlank c = true := by
  refine ⟨text.takeWhile isBlank, (text.dropWhile isBlank).rtakeWhile isBlank, ?_,
    fun _ => List.mem_takeWhile_imp, fun _ => List.mem_rtakeWhile_imp⟩
  have htrim : trim text = (text.dropWhile isBlank).rdropWhile isBlank := rfl
  rw [htrim, List.append_assoc, List.rdropWhile_append_rtakeWhile, List.takeWhile_append_dropWhile]

theorem isBlank_of_head_trim {text : List Char} {c : Char} (h : c ∈ (trim text).head?) :
    isBlank c = false := by
  obtain ⟨after, hafter⟩ : trim text <+: text.dropWhile isBlank := List.rdropWhile_prefix _ _
  have hhead : (text.dropWhile isBlank).head? = some c := by
    rw [← hafter, List.head?_append, Option.mem_def.mp h]
    rfl
  have hnot := List.head?_dropWhile_not isBlank text
  simpa [hhead] using hnot

theorem trim_subset (text : List Char) : trim text ⊆ text := by
  obtain ⟨before, after, htext, -, -⟩ := exists_eq_append_trim text
  intro c hc
  rw [htext]
  simp [hc]

theorem linesAfter_append {text : List Char} (h : '\n' ∉ text) (line rest : List Char) :
    linesAfter line (text ++ '\n' :: rest) =
      (dropReturn (text.reverse ++ line)).reverse :: linesAfter [] rest := by
  induction text generalizing line with
  | nil => rfl
  | cons c text ih =>
    obtain ⟨hc, htext⟩ := not_or.mp (List.mem_cons.not.mp h)
    rw [List.cons_append, linesAfter, ih htext]
    · simp
    · exact fun he => hc he.symm

theorem dropReturn_eq_self {line : List Char} (h : '\r' ∉ line.head?) : dropReturn line = line := by
  unfold dropReturn
  split
  · simp at h
  · rfl

/-- Lines that are ended by line feeds are read back. -/
theorem lines_flatMap {texts : List (List Char)}
    (h : ∀ text ∈ texts, '\n' ∉ text ∧ '\r' ∉ text.getLast?) :
    lines (texts.flatMap fun text => text ++ ['\n']) = texts := by
  induction texts with
  | nil => rfl
  | cons text texts ih =>
    obtain ⟨⟨hfeed, hreturn⟩, hrest⟩ := List.forall_mem_cons.mp h
    rw [List.flatMap_cons, List.append_assoc, List.singleton_append, lines,
      linesAfter_append hfeed, List.append_nil, dropReturn_eq_self (by simpa using hreturn),
      List.reverse_reverse]
    exact congrArg _ (ih hrest)

theorem feed_notMem_of_mem_linesAfter {line text : List Char} (hline : '\n' ∉ line)
    {l : List Char} (h : l ∈ linesAfter line text) : '\n' ∉ l := by
  have hdrop : ∀ m : List Char, dropReturn m ⊆ m := by
    intro m
    unfold dropReturn
    split
    · exact List.subset_cons_self ..
    · exact List.Subset.refl _
  induction text generalizing line with
  | nil =>
    simp only [linesAfter] at h
    split_ifs at h <;> simp_all
  | cons c text ih =>
    by_cases hc : c = '\n'
    · subst hc
      rw [linesAfter, List.mem_cons] at h
      rcases h with rfl | h
      · exact fun hmem => hline (hdrop _ (List.mem_reverse.mp hmem))
      · exact ih List.not_mem_nil h
    · rw [linesAfter] at h
      · exact ih (by simpa [Ne.symm hc] using hline) h
      · exact hc

theorem feed_notMem_of_mem_lines {text line : List Char} (h : line ∈ lines text) :
    '\n' ∉ line := feed_notMem_of_mem_linesAfter List.not_mem_nil h

end Text

open Text

theorem nameChar_of_isName {text : List Char} (h : isName text = true) {c : Char} (hc : c ∈ text) :
    isAlphanumeric c = true ∨ c = '_' := by
  cases text with
  | nil => cases hc
  | cons first rest =>
    simp only [isName, Bool.and_eq_true, Bool.or_eq_true, beq_iff_eq, List.all_eq_true] at h
    rcases List.mem_cons.mp hc with rfl | hc
    · exact h.1.imp (fun ha => by simp [isAlphanumeric, ha]) id
    · exact h.2 c hc

theorem delimiterClass_of_isName {text : List Char} (h : isName text = true) {c : Char}
    (hc : c ∈ text) : delimiterClass.contains c = false :=
  delimiterClass_eq_false (nameChar_of_isName h hc)

theorem ne_nil_of_isName {text : List Char} (h : isName text = true) : text ≠ [] := by
  rintro rfl
  cases h

end PhraseStructure
