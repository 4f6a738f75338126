import Mathlib.Tactic
import PhraseStructure.Chart.Derivations
import PhraseStructure.Json.Reader
import PhraseStructure.ParseTree.Json
import PhraseStructure.Proofs.UniqueReading
import PhraseStructure.Proofs.WellFormed

/-!
# Reading the JSON form

A quoted string is read back by the reader of strings, which stops behind its last quote, so that
strings are told apart by their quoted forms whatever they hold. The objects of trees are therefore
told apart member by member, and a word from an array of children by the name of the member. None of
the texts has a character below U+0020, and each is a single line.
-/

namespace PhraseStructure

namespace Json

section

variable {α : Type} {text : List Char}

/-- The result of a reader that has taken `a` from the front of a text and left `rest`. -/
def Takes (result : Except Fault (α × Rest text)) (a : α) (rest : List Char) : Prop :=
  ∃ r : Rest text, result = .ok (a, r) ∧ r.1 = rest

theorem Takes.unique {result : Except Fault (α × Rest text)} {a b : α} {rest rest' : List Char}
    (h : Takes result a rest) (h' : Takes result b rest') : a = b ∧ rest = rest' := by
  obtain ⟨r, hr, rfl⟩ := h
  obtain ⟨r', hr', rfl⟩ := h'
  rw [hr] at hr'
  obtain ⟨rfl, rfl⟩ := Prod.mk.inj (Except.ok.inj hr')
  exact ⟨rfl, rfl⟩

end

theorem hexDigit?_hexDigit : ∀ n < 16, hexDigit? (hexDigit n) = some n := by decide

theorem hexWord_eq {c : Char} (hc : c.toNat < 0x20) (rest : List Char) :
    hexWord ('0' :: '0' :: hexDigit (c.toNat / 16) :: hexDigit (c.toNat % 16) :: rest) =
      .ok (c.toNat, (Rest.tail _ rest).afterFirst.afterFirst.afterFirst) := by
  have hhigh := hexDigit?_hexDigit (c.toNat / 16) (by omega)
  have hlow := hexDigit?_hexDigit (c.toNat % 16) (by omega)
  have hzero : hexDigit? '0' = some 0 := by decide
  simp [hexWord, hhigh, hlow, hzero, Nat.div_add_mod']

theorem takes_unicodeEscape {c : Char} (hc : c.toNat < 0x20) (rest : List Char) :
    Takes (unicodeEscape
      ('0' :: '0' :: hexDigit (c.toNat / 16) :: hexDigit (c.toNat % 16) :: rest)) c rest := by
  have htrailing : isTrailingSurrogate c.toNat = false := by
    simp only [isTrailingSurrogate, Bool.and_eq_false_iff, decide_eq_false_iff_not]
    omega
  have hleading : isLeadingSurrogate c.toNat = false := by
    simp only [isLeadingSurrogate, Bool.and_eq_false_iff, decide_eq_false_iff_not]
    omega
  refine ⟨(Rest.tail _ rest).afterFirst.afterFirst.afterFirst, ?_, rfl⟩
  simp [unicodeEscape, hexWord_eq hc, htrailing, hleading, bind, Except.bind, pure, Except.pure]

theorem escaped_cases (c : Char) :
    (∃ d, escaped c = ['\\', d] ∧ simpleEscape? d = some c ∧ d ≠ 'u' ∧ 0x20 ≤ d.toNat) ∨
      (escaped c =
          ['\\', 'u', '0', '0', hexDigit (c.toNat / 16), hexDigit (c.toNat % 16)] ∧
        c.toNat < 0x20) ∨
      (escaped c = [c] ∧ c ≠ '"' ∧ c ≠ '\\' ∧ 0x20 ≤ c.toNat) := by
  unfold escaped
  split_ifs with hquote hbackslash hb ht hn hf hr hlow
  · exact Or.inl ⟨'"', rfl, by rw [hquote]; rfl, by decide, by decide⟩
  · exact Or.inl ⟨'\\', rfl, by rw [hbackslash]; rfl, by decide, by decide⟩
  · exact Or.inl ⟨'b', rfl, by rw [hb]; rfl, by decide, by decide⟩
  · exact Or.inl ⟨'t', rfl, by rw [ht]; rfl, by decide, by decide⟩
  · exact Or.inl ⟨'n', rfl, by rw [hn]; rfl, by decide, by decide⟩
  · exact Or.inl ⟨'f', rfl, by rw [hf]; rfl, by decide, by decide⟩
  · exact Or.inl ⟨'r', rfl, by rw [hr]; rfl, by decide, by decide⟩
  · exact Or.inr (Or.inl ⟨rfl, hlow⟩)
  · exact Or.inr (Or.inr ⟨rfl, hquote, hbackslash, Nat.not_lt.mp hlow⟩)

theorem takes_simpleEscape {c d : Char} (h : simpleEscape? d = some c) (hd : d ≠ 'u')
    (rest : List Char) : Takes (escapeWith unicodeEscape id (d :: rest)) c rest :=
  ⟨Rest.tail d rest, by simp [escapeWith, hd, h], rfl⟩

theorem takes_numericEscape {c : Char} (hc : c.toNat < 0x20) (rest : List Char) :
    Takes
      (escapeWith unicodeEscape id
        ('u' :: '0' :: '0' :: hexDigit (c.toNat / 16) :: hexDigit (c.toNat % 16) :: rest))
      c rest := by
  obtain ⟨r, hr, hrest⟩ := takes_unicodeEscape hc rest
  exact ⟨r.afterFirst, by simp [escapeWith, hr, bind, Except.bind, pure, Except.pure], hrest⟩

section

variable {α : Type} {escape : Reader α} {plain : Char → α} {text behind rest : List Char} {a : α}
  {as : List α}

theorem takes_stringBody_quote : Takes (stringBody escape plain ('"' :: rest)) [] rest := by
  refine ⟨Rest.tail '"' rest, ?_, rfl⟩
  rw [stringBody, if_pos rfl]

theorem takes_stringBody_plain {c : Char} (hquote : c ≠ '"') (hbackslash : c ≠ '\\')
    (hlow : ¬c.toNat < 0x20) (h : Takes (stringBody escape plain text) as rest) :
    Takes (stringBody escape plain (c :: text)) (plain c :: as) rest := by
  obtain ⟨r, hr, rfl⟩ := h
  refine ⟨r.afterFirst, ?_, rfl⟩
  rw [stringBody, if_neg hquote, if_neg hbackslash, if_neg hlow, hr]
  rfl

theorem takes_stringBody_escape (ha : Takes (escape text) a behind)
    (h : Takes (stringBody escape plain behind) as rest) :
    Takes (stringBody escape plain ('\\' :: text)) (a :: as) rest := by
  obtain ⟨r, hr, rfl⟩ := ha
  obtain ⟨r', hr', rfl⟩ := h
  refine ⟨(r.next r').afterFirst, ?_, rfl⟩
  rw [stringBody, if_neg (by decide), if_pos rfl, hr]
  simp only [bind, Except.bind, hr']
  rfl

end

/-- A quoted string is read back, and its last quote is where it ends. -/
theorem takes_stringBody (chars rest : List Char) :
    Takes (stringBody (escapeWith unicodeEscape id) id (chars.flatMap escaped ++ '"' :: rest))
      chars rest := by
  induction chars with
  | nil => exact takes_stringBody_quote
  | cons c chars ih =>
    rw [List.flatMap_cons, List.append_assoc]
    rcases escaped_cases c with ⟨d, hc, hd, hu, -⟩ | ⟨hc, hlow⟩ | ⟨hc, hquote, hbackslash, hlow⟩
    · rw [hc]
      exact takes_stringBody_escape (takes_simpleEscape hd hu _) ih
    · rw [hc]
      exact takes_stringBody_escape (takes_numericEscape hlow _) ih
    · rw [hc]
      exact takes_stringBody_plain hquote hbackslash (Nat.not_lt.mpr hlow) ih

theorem toList_quoted (s : String) :
    (quoted s).toList = '"' :: (s.toList.flatMap escaped ++ ['"']) := by
  simp [quoted]

theorem delimited_quoted (s : String) : Delimited (fun _ => True) (quoted · |>.toList) s := by
  intro t _ rest rest' h
  simp only [toList_quoted, List.cons_append, List.append_assoc, List.nil_append, List.cons.injEq,
    true_and] at h
  have hs := takes_stringBody s.toList rest
  rw [h] at hs
  obtain ⟨hsame, hrest⟩ := hs.unique (takes_stringBody t.toList rest')
  exact ⟨String.toList_inj.mp hsame, hrest⟩

/-- Texts without characters below U+0020. -/
def Printable (text : List Char) : Prop := ∀ c ∈ text, 0x20 ≤ c.toNat

instance : DecidablePred Printable := fun text =>
  List.decidableBAll (fun c : Char => 0x20 ≤ c.toNat) text

theorem printable_append {text more : List Char} :
    Printable (text ++ more) ↔ Printable text ∧ Printable more := List.forall_mem_append

theorem printable_escaped (c : Char) : Printable (escaped c) := by
  have hdigit : ∀ n < 16, 0x20 ≤ (hexDigit n).toNat := by decide
  have hbackslash : 0x20 ≤ '\\'.toNat := by decide
  rcases escaped_cases c with ⟨d, hc, -, -, hd⟩ | ⟨hc, hlow⟩ | ⟨hc, -, -, hc'⟩
  · rw [hc]
    exact List.forall_mem_cons.mpr ⟨hbackslash, List.forall_mem_singleton.mpr hd⟩
  · have hhigh := hdigit (c.toNat / 16) (by omega)
    have hrest := hdigit (c.toNat % 16) (by omega)
    rw [hc]
    simp only [Printable, List.forall_mem_cons]
    exact ⟨hbackslash, by decide, by decide, by decide, hhigh, hrest, nofun⟩
  · rw [hc]
    exact List.forall_mem_singleton.mpr hc'

theorem printable_quoted (s : String) : Printable (quoted s).toList := by
  rw [toList_quoted, ← List.singleton_append, printable_append, printable_append]
  refine ⟨by decide, ?_, by decide⟩
  intro c hc
  obtain ⟨d, -, hc⟩ := List.mem_flatMap.mp hc
  exact printable_escaped d c hc

theorem toList_arrayOf (values : List String) :
    (arrayOf values).toList = '[' :: ([','].intercalate (values.map String.toList) ++ [']']) := by
  simp [arrayOf, String.toList_intercalate]

theorem printable_arrayOf {values : List String} (h : ∀ v ∈ values, Printable v.toList) :
    Printable (arrayOf values).toList := by
  have hseparated : Printable ([','].intercalate (values.map String.toList)) := by
    match values, h with
    | [], _ => decide
    | v :: values, h =>
      obtain ⟨hv, hvalues⟩ := List.forall_mem_cons.mp h
      rw [intercalate_map_cons, printable_append]
      refine ⟨hv, fun c hc => ?_⟩
      obtain ⟨w, hw, hc⟩ := List.mem_flatMap.mp hc
      rcases List.mem_cons.mp hc with rfl | hc
      · decide
      · exact hvalues w hw c hc
  rw [toList_arrayOf, ← List.singleton_append, printable_append, printable_append]
  exact ⟨by decide, hseparated, by decide⟩

end Json

namespace ParseTree

open Json

/-- The name of the one member that the content of a tree has. -/
def jsonKind : ParseTree → String
  | .leaf _ _ => "word"
  | .node _ _ => "children"

def jsonContent : ParseTree → String
  | .leaf _ word => quoted word
  | .node _ ts => arrayOf (ts.map json)

theorem json_eq (t : ParseTree) : t.json = jsonNode t.label t.jsonKind t.jsonContent := by
  cases t with
  | leaf label word => rfl
  | node label ts => rw [json, jsonAll_eq_map]; rfl

theorem toList_jsonNode (label kind content : String) :
    (jsonNode label kind content).toList =
      "\x7b\"label\":".toList ++ ((quoted label).toList ++ (",\"content\":\x7b\"".toList ++
        (kind.toList ++ ("\":".toList ++ (content.toList ++ "\x7d\x7d".toList))))) := by
  simp only [jsonNode, String.toList_append, List.append_assoc]

theorem label_eq_of_json {t u : ParseTree} {rest rest' : List Char}
    (h : t.json.toList ++ rest = u.json.toList ++ rest') :
    t.label = u.label ∧
      t.jsonKind.toList ++ ("\":".toList ++ (t.jsonContent.toList ++ ("\x7d\x7d".toList ++ rest))) =
        u.jsonKind.toList ++
          ("\":".toList ++ (u.jsonContent.toList ++ ("\x7d\x7d".toList ++ rest'))) := by
  rw [json_eq, json_eq, toList_jsonNode, toList_jsonNode] at h
  simp only [List.append_assoc] at h
  obtain ⟨hlabel, hbehind⟩ := delimited_quoted _ _ trivial _ _ (List.append_cancel_left h)
  exact ⟨hlabel, List.append_cancel_left hbehind⟩

theorem exists_toList_json (t : ParseTree) : ∃ more, t.json.toList = '\x7b' :: more := by
  rw [json_eq, toList_jsonNode]
  exact ⟨_, rfl⟩

theorem word_ne_children_append (rest rest' : List Char) :
    "word".toList ++ rest ≠ "children".toList ++ rest' := by simp

theorem delimited_json (t : ParseTree) : Delimited (fun _ => True) (·.json.toList) t := by
  induction t with
  | leaf label word =>
    intro u _ rest rest' h
    obtain ⟨hlabel, hbehind⟩ := label_eq_of_json h
    cases u with
    | leaf label' word' =>
      have hcontent := List.append_cancel_left (List.append_cancel_left hbehind)
      obtain ⟨hword, hrest⟩ := delimited_quoted _ _ trivial _ _ hcontent
      exact ⟨congrArg₂ leaf hlabel hword, List.append_cancel_left hrest⟩
    | node label' us => exact absurd hbehind (word_ne_children_append _ _)
  | node label ts ih =>
    intro u _ rest rest' h
    obtain ⟨hlabel, hbehind⟩ := label_eq_of_json h
    cases u with
    | leaf label' word' => exact absurd hbehind.symm (word_ne_children_append _ _)
    | node label' us =>
      have hcontent := List.append_cancel_left (List.append_cancel_left hbehind)
      simp only [jsonContent, toList_arrayOf, List.map_map, List.cons_append, List.append_assoc,
        List.nil_append, List.cons.injEq, true_and] at hcontent
      obtain ⟨hchildren, hrest⟩ := Delimited.intercalate ih (fun _ _ => trivial) (by decide)
        (by decide) exists_toList_json hcontent
      exact ⟨congrArg₂ node hlabel hchildren, List.append_cancel_left hrest⟩

theorem printable_jsonNode {label kind content : String} (hkind : Printable kind.toList)
    (hcontent : Printable content.toList) : Printable (jsonNode label kind content).toList := by
  have hfixed : Printable "\x7b\"label\":".toList ∧ Printable ",\"content\":\x7b\"".toList ∧
      Printable "\":".toList ∧ Printable "\x7d\x7d".toList := by decide +kernel
  obtain ⟨hopen, hmiddle, hcolon, hclose⟩ := hfixed
  simp only [toList_jsonNode, printable_append]
  exact ⟨hopen, printable_quoted label, hmiddle, hkind, hcolon, hcontent, hclose⟩

theorem printable_json (t : ParseTree) : Printable t.json.toList := by
  induction t with
  | leaf label word => exact printable_jsonNode (by decide +kernel) (printable_quoted word)
  | node label ts ih =>
    rw [json, jsonAll_eq_map]
    refine printable_jsonNode (by decide +kernel) (printable_arrayOf fun v hv => ?_)
    obtain ⟨t, ht, rfl⟩ := List.mem_map.mp hv
    exact ih t ht

end ParseTree

/-- Trees with the same JSON text are the same, and the text has no character below U+0020. -/
theorem ParseTree.eq_of_json_eq :
    (∀ t u : ParseTree, t.json = u.json → t = u) ∧
      ∀ t : ParseTree, ∀ c ∈ t.json.toList, 0x20 ≤ c.toNat := by
  refine ⟨fun t u h => ?_, printable_json⟩
  have htexts : t.json.toList ++ [] = u.json.toList ++ [] := by rw [h]
  exact (delimited_json t u trivial [] [] htexts).1

/-- The tree of one word is known by its JSON text, in which a quote is one of the characters. -/
theorem ParseTree.eq_of_json_eq_single :
    ∃ t, ((Chart.ofTerminals .bracketings [0]).derivations 0).next.1 = some t ∧
      t.json = "\x7b\"label\":\"S\",\"content\":\x7b\"children\":[" ++
        "\x7b\"label\":\"N\",\"content\":\x7b\"word\":\"a\"\x7d\x7d]\x7d\x7d" ∧
      t = .node "S" [.leaf "N" "a"] ∧ '"' ∈ t.json.toList ∧ 0x20 ≤ '"'.toNat := by
  have hform : (((Chart.ofTerminals .bracketings [0]).derivations 0).next.1.map json) =
      some ("\x7b\"label\":\"S\",\"content\":\x7b\"children\":[" ++
        "\x7b\"label\":\"N\",\"content\":\x7b\"word\":\"a\"\x7d\x7d]\x7d\x7d") := by
    decide +kernel
  obtain ⟨t, ht, htext⟩ := Option.map_eq_some_iff.mp hform
  have hquote : '"' ∈ t.json.toList := by
    rw [htext]
    decide +kernel
  refine ⟨t, ht, htext, eq_of_json_eq.1 _ _ (htext.trans ?_), hquote, eq_of_json_eq.2 t _ hquote⟩
  decide +kernel

end PhraseStructure
