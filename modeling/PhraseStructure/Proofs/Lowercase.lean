import Mathlib.Tactic
import PhraseStructure.Proofs.Text
import PhraseStructure.Text.Lowercase
import PhraseStructure.Text.WordChar

/-!
# What lower case keeps

The lower case of a character is alphabetic, or a character of words, if the character is, and
nothing in it is lowered further. Two letters are older in lower case than as capitals, so that they
become characters of words when they are lowered. All this is checked on the intervals of the
tables, and code point by code point only where the intervals do not decide it.
-/

namespace PhraseStructure.Text

/-- Whether one interval of a class holds all code points from `first` to `last`. -/
def CharClass.covers (k : CharClass) (first last : Nat) : Bool :=
  k.any fun r => r.first.ble first && last.ble r.last

theorem CharClass.contains_of_covers {k : CharClass} {first last : Nat}
    (h : k.covers first last = true) {c : Char} (hfirst : first ≤ c.toNat) (hlast : c.toNat ≤ last) :
    k.contains c = true := by
  simp only [covers, List.any_eq_true, Bool.and_eq_true, Nat.ble_eq] at h
  obtain ⟨r, hr, hle, hle'⟩ := h
  exact contains_iff.mpr ⟨r, hr, hle.trans hfirst, hlast.trans hle'⟩

theorem isBlank_of_isWordChar {c : Char} (h : isWordChar c = true) : isBlank c = false := by
  have hmem : (asciiNameClass ++ wordClass).contains c = true := by
    unfold CharClass.contains
    rw [List.any_append, Bool.or_eq_true]
    unfold isWordChar at h
    split_ifs at h
    · exact Or.inl (contains_asciiNameClass (by simpa using h))
    · exact Or.inr h
  exact CharClass.contains_eq_false (by decide +kernel) hmem

namespace CaseRun

def lower (r : CaseRun) (n : Nat) : Nat := r.target + (n - r.first)

def points (r : CaseRun) : List Nat :=
  (List.range ((r.last - r.first) / r.step + 1)).map fun i => r.first + i * r.step

theorem mem_points {r : CaseRun} {n : Nat} (h : r.contains n = true) : n ∈ r.points := by
  simp only [contains, Bool.and_eq_true, decide_eq_true_eq, beq_iff_eq] at h
  obtain ⟨⟨hfirst, hlast⟩, hstep⟩ := h
  refine List.mem_map.mpr ⟨(n - r.first) / r.step, ?_, ?_⟩
  · rw [List.mem_range]
    exact Nat.lt_succ_of_le (Nat.div_le_div_right (Nat.sub_le_sub_right hlast _))
  · rw [Nat.div_mul_cancel (Nat.dvd_of_mod_eq_zero hstep), Nat.add_sub_cancel' hfirst]

def valid (r : CaseRun) : Bool :=
  (r.lower r.last).blt 0xD800 || Nat.ble 0xE000 r.target && (r.lower r.last).blt 0x110000

/-- Whether no code point to which the run is lowered is one of the run `s`. -/
def misses (r s : CaseRun) : Bool :=
  (r.lower r.last).blt s.first || s.last.blt r.target ||
    r.first == r.last && !s.contains r.target ||
    r.step == 2 && (s.step == 2 || s.first == s.last) && r.target % 2 != s.first % 2

/-- Whether the run and the code points to which it is lowered are all alphabetic, and are either
all characters of words or none of them. -/
def uniform (r : CaseRun) : Bool :=
  Nat.ble 0x80 r.first && Nat.ble 0x80 r.target &&
    alphabeticClass.covers r.first r.last && alphabeticClass.covers r.target (r.lower r.last) &&
    (wordClass.covers r.first r.last && wordClass.covers r.target (r.lower r.last) ||
      CharClass.apart [⟨r.first, r.last⟩, ⟨r.target, r.lower r.last⟩] wordClass &&
        CharClass.apart [⟨r.target, r.lower r.last⟩] blankClass)

end CaseRun

/-- The capital letters that are newer than their lower case. -/
def isNewCapital (c : Char) : Bool := c == '\uA7D2' || c == '\uA7D4'

/-- Whether one character has what lower case keeps of another one. -/
def keeps (c d : Char) : Bool :=
  isAlphabetic d == isAlphabetic c && !isBlank d &&
    (isWordChar d == isWordChar c || isNewCapital c && !isWordChar c)

def asciiCapitals : CaseRun := ⟨0x41, 0x5A, 1, 0x61⟩

def allRuns : List CaseRun := asciiCapitals :: caseRuns

theorem valid_allRuns : allRuns.all CaseRun.valid = true := by decide +kernel

theorem misses_allRuns :
    (allRuns.all fun r => (⟨0x130, 0x130, 1, 0x69⟩ :: allRuns).all r.misses) = true := by
  decide +kernel

theorem keeps_allRuns :
    (allRuns.all fun r => r.uniform || r.points.all fun n =>
      keeps (Char.ofNat n) (Char.ofNat (r.lower n))) = true := by
  decide +kernel

namespace CaseRun

variable {r : CaseRun} {n : Nat}

theorem bounds (hn : r.contains n = true) : r.first ≤ n ∧ n ≤ r.last := by
  simp only [contains, Bool.and_eq_true, decide_eq_true_eq] at hn
  exact hn.1

theorem bounds_lower (hn : r.contains n = true) :
    r.target ≤ r.lower n ∧ r.lower n ≤ r.lower r.last := by
  have hlast := (bounds hn).2
  unfold lower
  omega

theorem toNat_lower (hr : r ∈ allRuns) (hn : r.contains n = true) :
    (Char.ofNat (r.lower n)).toNat = r.lower n := by
  have hvalid := List.all_eq_true.mp valid_allRuns r hr
  obtain ⟨htarget, hlast⟩ := bounds_lower hn
  simp only [valid, Bool.or_eq_true, Bool.and_eq_true, Nat.blt_eq, Nat.ble_eq] at hvalid
  have hchar : (r.lower n).isValidChar := by
    unfold Nat.isValidChar
    omega
  rw [Char.ofNat, dif_pos hchar]
  rfl

theorem contains_lower_of_misses {s : CaseRun} (hmisses : r.misses s = true)
    (hn : r.contains n = true) : s.contains (r.lower n) = false := by
  obtain ⟨htarget, hlast⟩ := bounds_lower hn
  rw [Bool.eq_false_iff]
  intro hs
  obtain ⟨hfirst', hlast'⟩ := bounds hs
  simp only [misses, Bool.or_eq_true, Bool.and_eq_true, Nat.blt_eq, beq_iff_eq, bne_iff_ne,
    Bool.not_eq_true'] at hmisses
  rcases hmisses with ((hbefore | hbehind) | ⟨hone, hother⟩) | ⟨⟨hstep, hstep'⟩, hparity⟩
  · omega
  · omega
  · obtain rfl : n = r.first := by
      have hn' := bounds hn
      omega
    rw [lower, Nat.sub_self, Nat.add_zero, hother] at hs
    cases hs
  · simp only [contains, Bool.and_eq_true, decide_eq_true_eq, beq_iff_eq] at hn hs
    unfold lower at *
    rw [hstep] at hn
    rcases hstep' with hstep' | hone
    · rw [hstep'] at hs
      omega
    · omega

end CaseRun

theorem isWordChar_of_covers {first last : Nat} (h : wordClass.covers first last = true)
    (hge : 0x80 ≤ first) {c : Char} (hfirst : first ≤ c.toNat) (hlast : c.toNat ≤ last) :
    isWordChar c = true := by
  rw [isWordChar, if_neg (by omega)]
  exact CharClass.contains_of_covers h hfirst hlast

theorem isAlphabetic_of_covers {first last : Nat} (h : alphabeticClass.covers first last = true)
    (hge : 0x80 ≤ first) {c : Char} (hfirst : first ≤ c.toNat) (hlast : c.toNat ≤ last) :
    isAlphabetic c = true := by
  rw [isAlphabetic, if_neg (by omega)]
  exact CharClass.contains_of_covers h hfirst hlast

/-- A run that is uniform keeps what lower case has to keep, all along. -/
theorem keeps_of_uniform {r : CaseRun} (h : r.uniform = true) {c d : Char}
    (hc : r.first ≤ c.toNat ∧ c.toNat ≤ r.last)
    (hd : r.target ≤ d.toNat ∧ d.toNat ≤ r.lower r.last) : keeps c d = true := by
  simp only [CaseRun.uniform, Bool.and_eq_true, Bool.or_eq_true, Nat.ble_eq] at h
  obtain ⟨⟨⟨⟨hfirst, htarget⟩, halpha⟩, halpha'⟩, hword⟩ := h
  have hc' := isAlphabetic_of_covers halpha hfirst hc.1 hc.2
  have hd' := isAlphabetic_of_covers halpha' htarget hd.1 hd.2
  unfold keeps
  rw [hc', hd']
  rcases hword with ⟨hword, hword'⟩ | ⟨hapart, hblank⟩
  · have hcw := isWordChar_of_covers hword hfirst hc.1 hc.2
    have hdw := isWordChar_of_covers hword' htarget hd.1 hd.2
    rw [hcw, hdw, isBlank_of_isWordChar hdw]
    rfl
  · have hsource : CharClass.contains [⟨r.first, r.last⟩, ⟨r.target, r.lower r.last⟩] c = true :=
      CharClass.contains_iff.mpr ⟨_, List.mem_cons_self, hc⟩
    have htargets : CharClass.contains [⟨r.first, r.last⟩, ⟨r.target, r.lower r.last⟩] d = true :=
      CharClass.contains_iff.mpr ⟨_, List.mem_cons_of_mem _ List.mem_cons_self, hd⟩
    have hlowered : CharClass.contains [⟨r.target, r.lower r.last⟩] d = true :=
      CharClass.contains_iff.mpr ⟨_, List.mem_cons_self, hd⟩
    have hcw : isWordChar c = false := by
      rw [isWordChar, if_neg (by omega)]
      exact CharClass.contains_eq_false hapart hsource
    have hdw : isWordChar d = false := by
      rw [isWordChar, if_neg (by omega)]
      exact CharClass.contains_eq_false hapart htargets
    have hdb : isBlank d = false := CharClass.contains_eq_false hblank hlowered
    rw [hcw, hdw, hdb]
    rfl

theorem keeps_lower {r : CaseRun} (hr : r ∈ allRuns) {c : Char}
    (hc : r.contains c.toNat = true) : keeps c (Char.ofNat (r.lower c.toNat)) = true := by
  have hkeeps := List.all_eq_true.mp keeps_allRuns r hr
  rcases Bool.or_eq_true_iff.mp hkeeps with huniform | hpoints
  · refine keeps_of_uniform huniform (CaseRun.bounds hc) ?_
    rw [CaseRun.toNat_lower hr hc]
    exact CaseRun.bounds_lower hc
  · have hpoint := List.all_eq_true.mp hpoints _ (CaseRun.mem_points hc)
    rwa [Char.ofNat_toNat] at hpoint

/-- The characters that lower case leaves as they are. -/
def Lowered (c : Char) : Prop := c ≠ 'İ' ∧ ∀ r ∈ allRuns, r.contains c.toNat = false

theorem le_first_of_mem_caseRuns {r : CaseRun} (hr : r ∈ caseRuns) : 0x80 ≤ r.first := by
  have hall : (caseRuns.all fun r => Nat.ble 0x80 r.first) = true := by decide +kernel
  simpa using List.all_eq_true.mp hall r hr

theorem lowerChar_of_lt {c : Char} (h : c.toNat < 0x80) :
    lowerChar c = if asciiCapitals.contains c.toNat then [Char.ofNat (asciiCapitals.lower c.toNat)]
      else [c] := by
  have hall : ∀ n < 0x80, (Char.ofNat n).toLower =
      if asciiCapitals.contains n then Char.ofNat (asciiCapitals.lower n) else Char.ofNat n := by
    decide +kernel
  have hc := hall c.toNat h
  rw [Char.ofNat_toNat] at hc
  rw [lowerChar, if_pos h, hc]
  split_ifs <;> rfl

theorem lowerChar_of_lowered {c : Char} (h : Lowered c) : lowerChar c = [c] := by
  obtain ⟨hdotted, hruns⟩ := h
  by_cases hascii : c.toNat < 0x80
  · rw [lowerChar_of_lt hascii, hruns _ List.mem_cons_self]
    rfl
  · have hnone : caseRuns.find? (·.contains c.toNat) = none := by
      rw [List.find?_eq_none]
      intro r hr
      simp [hruns r (List.mem_cons_of_mem _ hr)]
    rw [lowerChar, if_neg hascii, if_neg hdotted, hnone]

/-- Every other character is lowered to another one by a run, or is the one that is lowered to
two. -/
theorem lowerChar_cases (c : Char) :
    c = 'İ' ∨ Lowered c ∨ ∃ r ∈ allRuns, r.contains c.toNat = true ∧
      lowerChar c = [Char.ofNat (r.lower c.toNat)] := by
  by_cases hdotted : c = 'İ'
  · exact Or.inl hdotted
  refine Or.inr ?_
  by_cases hascii : c.toNat < 0x80
  · cases hcapital : asciiCapitals.contains c.toNat with
    | true =>
      refine Or.inr ⟨asciiCapitals, List.mem_cons_self, hcapital, ?_⟩
      rw [lowerChar_of_lt hascii, if_pos hcapital]
    | false =>
      refine Or.inl ⟨hdotted, List.forall_mem_cons.mpr ⟨hcapital, fun r hr => ?_⟩⟩
      rw [Bool.eq_false_iff]
      intro hc
      have := le_first_of_mem_caseRuns hr
      have := (CaseRun.bounds hc).1
      omega
  · cases hfind : caseRuns.find? (·.contains c.toNat) with
    | some r =>
      have hcontains := List.find?_some hfind
      refine Or.inr ⟨r, List.mem_cons_of_mem _ (List.mem_of_find?_eq_some hfind), hcontains, ?_⟩
      rw [lowerChar, if_neg hascii, if_neg hdotted, hfind]
      rfl
    | none =>
      refine Or.inl ⟨hdotted, List.forall_mem_cons.mpr ⟨?_, fun r hr => ?_⟩⟩
      · rw [Bool.eq_false_iff]
        intro hc
        have hlast : c.toNat ≤ 0x5A := (CaseRun.bounds hc).2
        omega
      · simpa using List.find?_eq_none.mp hfind r hr

theorem lowered_lower {r : CaseRun} (hr : r ∈ allRuns) {n : Nat} (hn : r.contains n = true) :
    Lowered (Char.ofNat (r.lower n)) := by
  have hmisses := List.all_eq_true.mp (List.all_eq_true.mp misses_allRuns r hr)
  have hcode := CaseRun.toNat_lower hr hn
  constructor
  · intro hdotted
    have hmiss := CaseRun.contains_lower_of_misses (hmisses _ List.mem_cons_self) hn
    rw [← hcode, hdotted] at hmiss
    exact absurd hmiss (by decide)
  · intro s hs
    rw [hcode]
    exact CaseRun.contains_lower_of_misses (hmisses s (List.mem_cons_of_mem _ hs)) hn

/-- What can be said of the lower case of a character, wherever it stands. -/
structure Kept (c : Char) (piece : List Char) : Prop where
  ne_nil : piece ≠ []
  alphabetic : piece.any isAlphabetic = isAlphabetic c
  lowered : ∀ d ∈ piece, Lowered d
  word : isWordChar c = true → ∀ d ∈ piece, isWordChar d = true
  notWord : isWordChar c = false → isNewCapital c = false → ∀ d ∈ piece, isWordChar d = false
  notBlank : isBlank c = false → ∀ d ∈ piece, isBlank d = false

theorem kept_of_keeps {c d : Char} (h : keeps c d = true) (hd : Lowered d) : Kept c [d] := by
  simp only [keeps, Bool.and_eq_true, Bool.or_eq_true, beq_iff_eq, Bool.not_eq_true'] at h
  obtain ⟨⟨halphabetic, hblank⟩, hword⟩ := h
  refine ⟨List.cons_ne_nil _ _, by simp [halphabetic], by simpa using hd, ?_, ?_, by simp [hblank]⟩
  · intro hc
    simpa [hc] using hword
  · intro hc hnew
    simpa [hc, hnew] using hword

theorem kept_lowerChar (c : Char) : Kept c (lowerChar c) := by
  rcases lowerChar_cases c with rfl | hlowered | ⟨r, hr, hc, heq⟩
  · have hlower : lowerChar 'İ' = ['i', '\u0307'] := rfl
    have hword : isWordChar 'İ' = true := by decide +kernel
    have hpiece : ∀ {p : Char → Prop}, p 'i' → p '\u0307' → ∀ d ∈ ['i', '\u0307'], p d :=
      fun hi hdot => List.forall_mem_cons.mpr ⟨hi, List.forall_mem_singleton.mpr hdot⟩
    rw [hlower]
    refine ⟨List.cons_ne_nil _ _, by decide +kernel, ?_,
      fun _ => hpiece (by decide +kernel) (by decide +kernel), ?_,
      fun _ => hpiece (by decide +kernel) (by decide +kernel)⟩
    · unfold Lowered
      exact hpiece (by decide +kernel) (by decide +kernel)
    · intro hc
      rw [hword] at hc
      cases hc
  · rw [lowerChar_of_lowered hlowered]
    refine ⟨List.cons_ne_nil _ _, by simp, by simpa using hlowered, by simp, ?_, by simp⟩
    intro hword _
    simpa using hword
  · rw [heq]
    exact kept_of_keeps (keeps_lower hr hc) (lowered_lower hr hc)

theorem kept_finalSigma : Kept 'Σ' ['ς'] := by
  refine kept_of_keeps (by decide +kernel) ?_
  unfold Lowered
  decide +kernel

/-- The lower case of a text, whatever stands before and behind it: a capital sigma may become a
final sigma. -/
inductive Lowers : List Char → List Char → Prop
  | nil : Lowers [] []
  | cons {c : Char} {piece text lowered : List Char} :
      piece = lowerChar c ∨ c = 'Σ' ∧ piece = ['ς'] → Lowers text lowered →
        Lowers (c :: text) (piece ++ lowered)

theorem kept_of_piece {c : Char} {piece : List Char}
    (h : piece = lowerChar c ∨ c = 'Σ' ∧ piece = ['ς']) : Kept c piece := by
  rcases h with rfl | ⟨rfl, rfl⟩
  · exact kept_lowerChar c
  · exact kept_finalSigma

theorem lowers_lowercaseAfter (before text : List Char) :
    Lowers text (lowercaseAfter before text) := by
  induction text generalizing before with
  | nil => exact .nil
  | cons c after ih =>
    refine .cons ?_ (ih _)
    split_ifs with hsigma
    · subst hsigma
      have hlower : lowerChar 'Σ' = ['σ'] := by decide +kernel
      rw [hlower, lowerSigma]
      split_ifs <;> simp
    · exact Or.inl rfl

theorem lowers_lowercase (text : List Char) : Lowers text (lowercase text) :=
  lowers_lowercaseAfter [] text

namespace Lowers

variable {text lowered : List Char}

theorem of_append {a b : List Char} (h : Lowers (a ++ b) lowered) :
    ∃ a' b', lowered = a' ++ b' ∧ Lowers a a' ∧ Lowers b b' := by
  induction a generalizing lowered with
  | nil => exact ⟨[], lowered, rfl, .nil, h⟩
  | cons c a ih =>
    cases h with
    | @cons _ piece _ rest hpiece hrest =>
      obtain ⟨a', b', rfl, ha, hb⟩ := ih hrest
      exact ⟨piece ++ a', b', (List.append_assoc ..).symm, .cons hpiece ha, hb⟩

theorem ne_nil (h : Lowers text lowered) (hne : text ≠ []) : lowered ≠ [] := by
  cases h with
  | nil => exact absurd rfl hne
  | cons hpiece _ => exact List.append_ne_nil_of_left_ne_nil (kept_of_piece hpiece).ne_nil _

theorem any_isAlphabetic (h : Lowers text lowered) :
    lowered.any isAlphabetic = text.any isAlphabetic := by
  induction h with
  | nil => rfl
  | cons hpiece _ ih => rw [List.any_append, List.any_cons, (kept_of_piece hpiece).alphabetic, ih]

theorem forall_mem {p q : Char → Prop} (hpq : ∀ c piece, Kept c piece → p c → ∀ d ∈ piece, q d)
    (h : Lowers text lowered) (hp : ∀ c ∈ text, p c) : ∀ d ∈ lowered, q d := by
  induction h with
  | nil => exact List.forall_mem_nil _
  | cons hpiece _ ih =>
    obtain ⟨hc, htext⟩ := List.forall_mem_cons.mp hp
    exact List.forall_mem_append.mpr ⟨hpq _ _ (kept_of_piece hpiece) hc, ih htext⟩

theorem mem_lowered (h : Lowers text lowered) : ∀ d ∈ lowered, Lowered d :=
  h.forall_mem (p := fun _ => True) (fun _ _ hk _ => hk.lowered) fun _ _ => trivial

theorem isWordChar (h : Lowers text lowered) (hword : ∀ c ∈ text, isWordChar c = true) :
    ∀ d ∈ lowered, Text.isWordChar d = true := h.forall_mem (fun _ _ hk => hk.word) hword

theorem isBlank_eq_false (h : Lowers text lowered) (hblank : ∀ c ∈ text, isBlank c = false) :
    ∀ d ∈ lowered, isBlank d = false := h.forall_mem (fun _ _ hk => hk.notBlank) hblank

/-- Characters that are no characters of words stay so, but for the capitals that are newer than
their lower case. -/
theorem isWordChar_eq_false (h : Lowers text lowered)
    (hword : ∀ c ∈ text, Text.isWordChar c = false) (hnew : ∀ c ∈ text, isNewCapital c = false) :
    ∀ d ∈ lowered, Text.isWordChar d = false :=
  h.forall_mem (fun _ _ hk hc => hk.notWord hc.1 hc.2) fun c hc => And.intro (hword c hc) (hnew c hc)

end Lowers

theorem lowercaseAfter_eq_self {before text : List Char} (h : ∀ c ∈ text, Lowered c) :
    lowercaseAfter before text = text := by
  induction text generalizing before with
  | nil => rfl
  | cons c text ih =>
    obtain ⟨hc, htext⟩ := List.forall_mem_cons.mp h
    have hsigma : c ≠ 'Σ' := by
      rintro rfl
      have hrun := hc.2 ⟨0x3A3, 0x3AB, 1, 0x3C3⟩ (by decide +kernel)
      exact absurd hrun (by decide)
    rw [lowercaseAfter, if_neg hsigma, lowerChar_of_lowered hc, ih htext]
    rfl

theorem lowercase_eq_self {text : List Char} (h : ∀ c ∈ text, Lowered c) : lowercase text = text :=
  lowercaseAfter_eq_self h

end PhraseStructure.Text
