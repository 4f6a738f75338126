import Mathlib.Tactic
import PhraseStructure.CommandLine.Options
import PhraseStructure.Proofs.Except

/-!
# What arguments ask for

Arguments that are not refused and do not ask for help or for the version give settings, one after
the other, and what they are does not depend on the options so far. So nothing but settings happens
to options, and a setting matters for a later one only if that gives the same option again. A limit
is therefore a number below 2^64, and each such number can be given as the limit in front of
arguments that give none.
-/

namespace PhraseStructure.CommandLine

theorem isDigit_of_mem_repr {n : Nat} {c : Char} (h : c ∈ n.repr.toList) : c.isDigit = true := by
  rw [Nat.toList_repr] at h
  exact Nat.isDigit_of_mem_toDigits (by decide) (by decide) h

theorem readNumber?_repr (n : Nat) :
    readNumber? n.repr = if n < wordLimit then some n else none := by
  have hne : n.repr.toList ≠ [] := by
    rw [Nat.toList_repr]
    exact Nat.toDigits_ne_nil
  have hplus : ∀ rest, n.repr.toList ≠ '+' :: rest := by
    intro rest hrest
    have hsign := isDigit_of_mem_repr (n := n) (by rw [hrest]; exact List.mem_cons_self)
    exact absurd hsign (by decide)
  have hvalue : n.repr.toList.foldl (fun n c => 10 * n + (c.toNat - '0'.toNat)) 0 = n := by
    rw [← Nat.ofDigitChars_eq_foldl, Nat.toList_repr, Nat.ofDigitChars_ten_toDigits]
  have hall : n.repr.toList.any (!·.isDigit) = false := by
    rw [List.any_eq_false]
    intro c hc
    simp [isDigit_of_mem_repr hc]
  unfold readNumber?
  split
  next rest hrest => exact absurd hrest (hplus rest)
  · simp only [hall, hvalue, List.isEmpty_eq_false_iff.mpr hne, Bool.or_self, Bool.false_eq_true,
      if_false]

theorem lt_of_readNumber? {text : String} {n : Nat} (h : readNumber? text = some n) :
    n < wordLimit := by
  unfold readNumber? at h
  dsimp only at h
  split_ifs at h with hdigits hlt
  exact Option.some.inj h ▸ hlt

inductive Setting
  | set (option : ValueOption) (value : String)
  | file (argument : String)
  | verbose

namespace Setting

def apply (o : Options) : Setting → Except UsageError Options
  | .set option value => o.set option value
  | .file argument => o.setFile argument
  | .verbose => .ok { o with verbosity := o.verbosity + 1 }

def applyAll (o : Options) (settings : List Setting) : Except UsageError Options :=
  settings.foldlM apply o

theorem applyAll_singleton (o : Options) (setting : Setting) :
    applyAll o [setting] = setting.apply o := by
  rw [applyAll, List.foldlM_cons]
  exact bind_pure _

theorem applyAll_cons (o : Options) (setting : Setting) (settings : List Setting) :
    applyAll o (setting :: settings) = setting.apply o >>= (applyAll · settings) :=
  List.foldlM_cons

theorem applyAll_append (o : Options) (settings more : List Setting) :
    applyAll o (settings ++ more) = applyAll o settings >>= (applyAll · more) :=
  List.foldlM_append

end Setting

def Step.after (waiting? : Option ValueOption) (o : Options) : Step :=
  match waiting? with
  | none => .options o
  | some option => .waiting o option

/-- What is read as settings, after which an option may wait for its value. -/
def Asks (read : Options → Except UsageError Step) (settings : List Setting)
    (waiting? : Option ValueOption) : Prop :=
  ∀ o, read o = (Setting.applyAll o settings).map (Step.after waiting?)

/-- What is refused, or asks for something else than parsing. -/
def Declines (read : Options → Except UsageError Step) : Prop :=
  ∀ o, (∃ e, read o = .error e) ∨ ∃ r, read o = .ok (.request r) ∧ ∀ o', r ≠ .parse o'

theorem asks_options : Asks (fun o => .ok (.options o)) [] none := fun _ => rfl

theorem asks_waiting (option : ValueOption) :
    Asks (fun o => .ok (.waiting o option)) [] (some option) := fun _ => rfl

theorem asks_set (option : ValueOption) (value : String) :
    Asks (fun o => (o.set option value).map .options) [.set option value] none := by
  intro o
  rw [Setting.applyAll_singleton]
  rfl

theorem asks_setFile (argument : String) :
    Asks (fun o => (o.setFile argument).map .options) [.file argument] none := by
  intro o
  rw [Setting.applyAll_singleton]
  rfl

theorem declines_error (e : UsageError) : Declines fun _ => .error e :=
  fun _ => Or.inl ⟨e, rfl⟩

theorem declines_request {r : Request} (h : ∀ o, r ≠ .parse o) :
    Declines fun _ => .ok (.request r) :=
  fun _ => Or.inr ⟨r, rfl, h⟩

theorem readLetters_cases (argument : String) (letters : List Char) :
    (∃ settings waiting?, Asks (readLetters argument · letters) settings waiting?) ∨
      Declines (readLetters argument · letters) := by
  induction letters with
  | nil => exact Or.inl ⟨_, _, asks_options⟩
  | cons c rest ih =>
    simp only [readLetters]
    cases shortOption? c with
    | none => exact Or.inr (declines_error _)
    | some option =>
      cases option with
      | inl option =>
        dsimp only
        split
        · exact Or.inl ⟨_, _, asks_waiting option⟩
        · exact Or.inl ⟨_, _, asks_set option _⟩
        · exact Or.inl ⟨_, _, asks_set option _⟩
      | inr flag =>
        cases flag with
        | verbose =>
          rcases ih with ⟨settings, waiting?, hasks⟩ | hdeclines
          · exact Or.inl ⟨.verbose :: settings, waiting?, fun o => hasks _⟩
          · exact Or.inr fun o => hdeclines _
        | help => exact Or.inr (declines_request nofun)
        | version => exact Or.inr (declines_request nofun)

theorem readLong_cases (argument : String) (text : List Char) :
    (∃ settings waiting?, Asks (readLong argument · text) settings waiting?) ∨
      Declines (readLong argument · text) := by
  unfold readLong
  dsimp only
  split
  · exact Or.inr (declines_error _)
  · exact Or.inl ⟨_, _, asks_waiting _⟩
  · exact Or.inl ⟨_, _, asks_set _ _⟩
  next flag _ _ =>
    cases flag with
    | verbose => exact Or.inl ⟨[.verbose], none, fun _ => rfl⟩
    | help => exact Or.inr (declines_request nofun)
    | version => exact Or.inr (declines_request nofun)
  · exact Or.inr (declines_error _)

theorem readArgument_cases (argument : String) :
    (∃ settings waiting?, Asks (readArgument · argument) settings waiting?) ∨
      Declines (readArgument · argument) := by
  unfold readArgument
  split
  · exact readLong_cases argument _
  · exact readLetters_cases argument _
  · exact Or.inl ⟨_, _, asks_setFile argument⟩

def Gives (arguments : List String) (settings : List Setting) : Prop :=
  ∀ o, readArguments o arguments = (Setting.applyAll o settings).map .parse

/-- Arguments that are refused, or ask for something else than parsing. -/
def GivesNone (arguments : List String) : Prop :=
  ∀ o o', readArguments o arguments ≠ .ok (.parse o')

theorem readArguments_dashes (o : Options) (files : List String) :
    readArguments o ("--" :: files) =
      (Setting.applyAll o (files.map .file)).map .parse := by
  rw [readArguments, Setting.applyAll, List.foldlM_map]
  rfl

section

variable {argument : String} (hdashes : argument ≠ "--") {settings : List Setting}
  {rest : List String}
include hdashes

theorem readArguments_of_asks (h : Asks (readArgument · argument) settings none) (o : Options) :
    readArguments o (argument :: rest) =
      Setting.applyAll o settings >>= (readArguments · rest) := by
  have hread : readArgument o argument = _ := h o
  rw [readArguments.eq_3 _ _ _ hdashes, hread]
  cases Setting.applyAll o settings <;> rfl

theorem readArguments_of_waits {option : ValueOption}
    (h : Asks (readArgument · argument) settings (some option)) {value : String}
    (hvalue : looksLikeOption value = false) (o : Options) :
    readArguments o (argument :: value :: rest) =
      Setting.applyAll o (settings ++ [.set option value]) >>= (readArguments · rest) := by
  have hread : readArgument o argument = _ := h o
  rw [readArguments.eq_3 _ _ _ hdashes, hread, Setting.applyAll_append, bind_assoc]
  cases Setting.applyAll o settings with
  | error e => rfl
  | ok o =>
    have hset : Setting.applyAll o [.set option value] = o.set option value :=
      Setting.applyAll_singleton o _
    simp only [Except.map, Step.after, hvalue, Bool.false_eq_true, if_false, bind, Except.bind,
      hset]
    cases o.set option value <;> rfl

theorem givesNone_of_waits {option : ValueOption}
    (h : Asks (readArgument · argument) settings (some option))
    (hrest : ∀ value ∈ rest.head?, looksLikeOption value = true) :
    GivesNone (argument :: rest) := by
  intro o o'
  have hread : readArgument o argument = _ := h o
  rw [readArguments.eq_3 _ _ _ hdashes, hread]
  cases Setting.applyAll o settings with
  | error e => exact nofun
  | ok o =>
    cases rest with
    | nil => exact nofun
    | cons value rest =>
      have hvalue := hrest value rfl
      simp only [Except.map, Step.after, hvalue, if_true]
      exact nofun

theorem givesNone_of_declines (h : Declines (readArgument · argument)) :
    GivesNone (argument :: rest) := by
  intro o o'
  rw [readArguments.eq_3 _ _ _ hdashes]
  rcases h o with ⟨e, he⟩ | ⟨r, hr, hparse⟩
  · have hread : readArgument o argument = .error e := he
    rw [hread]
    exact nofun
  · have hread : readArgument o argument = .ok (.request r) := hr
    rw [hread]
    intro h
    exact hparse o' (Except.ok.inj h)

end

/-- Arguments that do the same to all options. -/
def Uniform (arguments : List String) : Prop :=
  (∃ settings, Gives arguments settings) ∨ GivesNone arguments

theorem uniform_nil : Uniform [] := Or.inl ⟨[], fun _ => rfl⟩

theorem uniform_of_rest {arguments rest : List String} {settings : List Setting}
    (h : ∀ o, readArguments o arguments =
      Setting.applyAll o settings >>= (readArguments · rest))
    (hrest : Uniform rest) : Uniform arguments := by
  rcases hrest with ⟨more, hmore⟩ | hnone
  · refine Or.inl ⟨settings ++ more, fun o => ?_⟩
    rw [h, Setting.applyAll_append]
    cases Setting.applyAll o settings with
    | error e => rfl
    | ok o => exact hmore o
  · refine Or.inr fun o o' hparse => ?_
    rw [h, Except.bind_eq_ok] at hparse
    obtain ⟨o₁, -, hparse⟩ := hparse
    exact hnone o₁ o' hparse

theorem uniform_cons (argument : String) {rest : List String} (hrest : Uniform rest)
    (hmore : ∀ value more, rest = value :: more → Uniform more) : Uniform (argument :: rest) := by
  by_cases hdashes : argument = "--"
  · rw [hdashes]
    exact Or.inl ⟨rest.map .file, fun o => readArguments_dashes o rest⟩
  rcases readArgument_cases argument with ⟨settings, waiting?, hasks⟩ | hdeclines
  · cases waiting? with
    | none => exact uniform_of_rest (readArguments_of_asks hdashes hasks) hrest
    | some option =>
      cases rest with
      | nil => exact Or.inr (givesNone_of_waits hdashes hasks nofun)
      | cons value more =>
        cases hvalue : looksLikeOption value with
        | true =>
          refine Or.inr (givesNone_of_waits hdashes hasks fun v hv => ?_)
          exact Option.some.inj hv ▸ hvalue
        | false =>
          exact uniform_of_rest (readArguments_of_waits hdashes hasks hvalue)
            (hmore value more rfl)
  · exact Or.inr (givesNone_of_declines hdashes hdeclines)

/-- Arguments give settings, the same whatever the options so far, or no options come of them. -/
theorem uniform (arguments : List String) : Uniform arguments := by
  -- A value is taken together with the option before it, so the induction goes by two arguments.
  induction arguments using List.twoStepInduction with
  | nil => exact uniform_nil
  | singleton argument => exact uniform_cons argument uniform_nil nofun
  | cons_cons argument value rest ih ihvalue =>
    refine uniform_cons argument (ihvalue value) ?_
    rintro value' more ⟨⟩
    exact ih

variable {o o' : Options} {n : Nat}

theorem maxTrees_of_set {option : ValueOption} {value : String} (h : o.set option value = .ok o') :
    option ≠ .maxTrees ∧ o'.maxTrees = o.maxTrees ∨
      ∃ n, readNumber? value = some n ∧ o'.maxTrees = some n := by
  unfold Options.set at h
  cases hgiven : o.has option
  · rw [hgiven, if_neg (by decide)] at h
    cases option with
    | grammar =>
      cases hempty : value.isEmpty
      · simp only [hempty, Bool.false_eq_true, if_false, Except.ok.injEq] at h
        exact Or.inl ⟨by decide, by rw [← h]⟩
      · simp [hempty] at h
    | start =>
      obtain rfl := Except.ok.inj h
      exact Or.inl ⟨by decide, rfl⟩
    | maxTrees =>
      cases hnumber : readNumber? value with
      | none => simp [hnumber] at h
      | some n =>
        simp only [hnumber, Except.ok.injEq] at h
        exact Or.inr ⟨n, rfl, by rw [← h]⟩
    | format =>
      cases hformat : readFormat? value with
      | none => simp [hformat] at h
      | some format =>
        simp only [hformat, Except.ok.injEq] at h
        exact Or.inl ⟨by decide, by rw [← h]⟩
  · rw [hgiven, if_pos rfl] at h
    cases h

theorem maxTrees_of_setFile {argument : String} (h : o.setFile argument = .ok o') :
    o'.maxTrees = o.maxTrees := by
  unfold Options.setFile at h
  split_ifs at h with hgiven hempty
  obtain rfl := Except.ok.inj h
  rfl

/-- If there is a limit, it is a number below 2^64. -/
def Options.Bounded (o : Options) : Prop := ∀ n, o.maxTrees = some n → n < wordLimit

theorem bounded_of_apply {setting : Setting} (ho : o.Bounded) (h : setting.apply o = .ok o') :
    o'.Bounded := by
  cases setting with
  | set option value =>
    rcases maxTrees_of_set h with ⟨-, hsame⟩ | ⟨m, hm, hset⟩
    · intro n hn
      exact ho n (hsame ▸ hn)
    · intro n hn
      obtain rfl := Option.some.inj (hset.symm.trans hn)
      exact lt_of_readNumber? hm
  | file argument =>
    intro n hn
    exact ho n (maxTrees_of_setFile h ▸ hn)
  | verbose =>
    obtain rfl := Except.ok.inj h
    exact ho

theorem bounded_of_ofArguments {arguments : List String}
    (h : Request.ofArguments arguments = .ok (.parse o)) : o.Bounded := by
  rcases uniform arguments with ⟨settings, hgives⟩ | hnone
  · rw [Request.ofArguments, hgives] at h
    obtain ⟨o', hsettings, hparse⟩ := Except.map_eq_ok.mp h
    obtain rfl := Request.parse.inj hparse
    have hstart : ({} : Options).Bounded := by
      intro n hn
      cases hn
    exact Except.foldlM_invariant (fun _ _ _ _ ho hstep => bounded_of_apply ho hstep) hstart
      hsettings
  · exact absurd h (hnone _ _)

def Options.limited (n : Nat) (o : Options) : Options := { o with maxTrees := some n }

theorem set_limited {option : ValueOption} (hoption : option ≠ .maxTrees) (value : String) :
    (o.limited n).set option value = (o.set option value).map (Options.limited n) := by
  unfold Options.set
  have hhas : (o.limited n).has option = o.has option := by
    cases option
    case maxTrees => exact absurd rfl hoption
    all_goals rfl
  rw [hhas]
  cases o.has option
  · cases option with
    | grammar => cases value.isEmpty <;> rfl
    | start => rfl
    | maxTrees => exact absurd rfl hoption
    | format => cases readFormat? value <;> rfl
  · rfl

theorem setFile_limited {argument : String} (h : o.setFile argument = .ok o') :
    (o.limited n).setFile argument = .ok (o'.limited n) := by
  unfold Options.setFile at h ⊢
  split_ifs at h with hgiven hempty
  obtain rfl := Except.ok.inj h
  rw [if_neg (by exact hgiven), if_neg hempty]
  rfl

theorem apply_limited {setting : Setting} (h : setting.apply o = .ok o')
    (hnone : o'.maxTrees = none) :
    o.maxTrees = none ∧ setting.apply (o.limited n) = .ok (o'.limited n) := by
  cases setting with
  | set option value =>
    rcases maxTrees_of_set h with ⟨hoption, hsame⟩ | ⟨m, -, hset⟩
    · refine ⟨hsame.symm.trans hnone, (set_limited hoption value).trans ?_⟩
      have hset : o.set option value = .ok o' := h
      rw [hset]
      rfl
    · rw [hset] at hnone
      cases hnone
  | file argument => exact ⟨(maxTrees_of_setFile h).symm.trans hnone, setFile_limited h⟩
  | verbose =>
    obtain rfl := Except.ok.inj h
    exact ⟨hnone, rfl⟩

theorem applyAll_limited {settings : List Setting} (h : Setting.applyAll o settings = .ok o')
    (hnone : o'.maxTrees = none) :
    o.maxTrees = none ∧ Setting.applyAll (o.limited n) settings = .ok (o'.limited n) := by
  induction settings generalizing o with
  | nil =>
    obtain rfl := Except.ok.inj h
    exact ⟨hnone, rfl⟩
  | cons setting settings ih =>
    rw [Setting.applyAll_cons, Except.bind_eq_ok] at h
    obtain ⟨o₁, hfirst, hmore⟩ := h
    obtain ⟨ho₁, hrest⟩ := ih hmore
    obtain ⟨ho, hlimited⟩ := apply_limited (n := n) hfirst ho₁
    refine ⟨ho, ?_⟩
    rw [Setting.applyAll_cons, hlimited]
    exact hrest

theorem looksLikeOption_repr (n : Nat) : looksLikeOption n.repr = false := by
  unfold looksLikeOption
  split
  next c rest hrest =>
    have hsign := isDigit_of_mem_repr (n := n) (by rw [hrest]; exact List.mem_cons_self)
    exact absurd hsign (by decide)
  · rfl

theorem readArguments_maxTrees (o : Options) (n : Nat) (arguments : List String) :
    readArguments o ("--max-trees" :: n.repr :: arguments) =
      o.set .maxTrees n.repr >>= (readArguments · arguments) := by
  have hasks : Asks (readArgument · "--max-trees") [] (some .maxTrees) := fun _ => rfl
  rw [readArguments_of_waits (by decide) hasks (looksLikeOption_repr n), List.nil_append,
    Setting.applyAll_singleton, Setting.apply]

/-- A limit that does not fit a word of 64 bits is refused, whatever follows it. -/
theorem ofArguments_of_wordLimit_le (hn : wordLimit ≤ n) (arguments : List String) :
    Request.ofArguments ("--max-trees" :: n.repr :: arguments) =
      .error (.invalidValue .maxTrees n.repr) := by
  have hset : ({} : Options).set .maxTrees n.repr = .error (.invalidValue .maxTrees n.repr) := by
    simp only [Options.set, readNumber?_repr, if_neg (Nat.not_lt.mpr hn)]
    rfl
  rw [Request.ofArguments, readArguments_maxTrees, hset]
  rfl

/-- Arguments that give no limit ask for the same with a limit in front of them. -/
theorem ofArguments_limited {arguments : List String}
    (h : Request.ofArguments arguments = .ok (.parse o)) (hnone : o.maxTrees = none)
    (hn : n < wordLimit) :
    Request.ofArguments ("--max-trees" :: n.repr :: arguments) = .ok (.parse (o.limited n)) := by
  have hset : ({} : Options).set .maxTrees n.repr = .ok (({} : Options).limited n) := by
    simp only [Options.set, readNumber?_repr, if_pos hn]
    rfl
  rw [Request.ofArguments, readArguments_maxTrees, hset]
  rcases uniform arguments with ⟨settings, hgives⟩ | hnever
  · rw [Request.ofArguments, hgives] at h
    obtain ⟨o', hsettings, hparse⟩ := Except.map_eq_ok.mp h
    obtain rfl := Request.parse.inj hparse
    obtain ⟨-, hlimited⟩ := applyAll_limited (n := n) hsettings hnone
    refine (hgives _).trans ?_
    rw [hlimited]
    rfl
  · exact absurd h (hnever _ _)

end PhraseStructure.CommandLine
