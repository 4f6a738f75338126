import Mathlib.Tactic
import PhraseStructure.Chart.Derivations
import PhraseStructure.ParseTree.Drawing
import PhraseStructure.Proofs.UniqueReading
import PhraseStructure.Proofs.WellFormed

/-!
# Reading the box drawing

The lines of a drawing are those of the labels and words of the tree, in the order of their
addresses. A line says for each label above its own, and for itself, whether a sibling follows. The
drawing of one child goes on up to the next line that begins with a tee or a corner, whatever the
labels and words look like, so a tree is read back from the top if none of them has a line feed. A
leaf differs from a node in that a single line hangs below it.
-/

namespace PhraseStructure

/-- Texts without line feeds. -/
def OneLine (text : String) : Prop := '\n' ∉ text.toList

instance : DecidablePred OneLine := fun text => inferInstanceAs (Decidable ('\n' ∉ text.toList))

namespace ParseTree

/-- What stands at an address, which says from the root down the how many-th child to take; the word
of a leaf counts as its child. -/
def part? : ParseTree → List Nat → Option (ParseTree ⊕ String)
  | t, [] => some (.inl t)
  | .leaf _ word, [0] => some (.inr word)
  | .leaf _ _, _ => none
  | .node _ ts, i :: p => ts[i]?.bind (·.part? p)

/-- The text in the line of a subtree or of a word. -/
def caption : ParseTree ⊕ String → String
  | .inl t => t.label
  | .inr word => word

mutual

/-- The addresses of the subtrees and words of a tree, each before those below it. -/
def addresses : ParseTree → List (List Nat)
  | .leaf _ _ => [[], [0]]
  | .node _ children => [] :: addressesAll 0 children

def addressesAll (i : Nat) : List ParseTree → List (List Nat)
  | [] => []
  | t :: ts => t.addresses.map (i :: ·) ++ addressesAll (i + 1) ts

end

/-- Whether a sibling follows what stands at an address. -/
def hasNext (t : ParseTree) (p : List Nat) : Bool :=
  p.getLast?.any fun i => (t.part? (p.dropLast ++ [i + 1])).isSome

/-- Joins a label or word to the label above it, by a tee if a sibling follows. -/
def connector (more : Bool) : String := if more then "├─ " else "└─ "

/-- Passes a line below a label by, with a bar if a sibling of that label follows. -/
def passage (more : Bool) : String := if more then "│   " else "    "

/-- What stands in front of the text in the line at an address: nothing at the root, elsewhere a
passage for each label above but the root and a connector. -/
def lead (t : ParseTree) (p : List Nat) : String :=
  if p = [] then ""
  else
    String.join ((List.range (p.length - 1)).map fun d => passage (t.hasNext (p.take (d + 1)))) ++
      connector (t.hasNext p)

/-- The line at an address. -/
def line? (t : ParseTree) (p : List Nat) : Option String :=
  (t.part? p).map (t.lead p ++ caption ·)

variable {t u : ParseTree} {ts us : List ParseTree} {label : String} {i : Nat} {p : List Nat}

theorem part?_cons (h : ts[i]? = some t) (p : List Nat) :
    (node label ts).part? (i :: p) = t.part? p := by
  rw [part?, h, Option.bind_some]

theorem mem_addressesAll :
    p ∈ addressesAll i ts ↔ ∃ j t q, ts[j]? = some t ∧ q ∈ t.addresses ∧ p = (i + j) :: q := by
  induction ts generalizing i with
  | nil => simp [addressesAll]
  | cons t ts ih =>
    rw [addressesAll, List.mem_append, List.mem_map, ih]
    constructor
    · rintro (⟨q, hq, rfl⟩ | ⟨j, t', q, ht', hq, rfl⟩)
      · exact ⟨0, t, q, rfl, hq, rfl⟩
      · exact ⟨j + 1, t', q, ht', hq, by rw [Nat.add_right_comm, Nat.add_assoc]⟩
    · rintro ⟨_ | j, t', q, ht', hq, rfl⟩
      · obtain rfl := Option.some.inj ht'
        exact Or.inl ⟨q, hq, rfl⟩
      · exact Or.inr ⟨j, t', q, ht', hq, by rw [Nat.add_right_comm, Nat.add_assoc]⟩

theorem exists_addresses_eq_cons (t : ParseTree) :
    ∃ ps, t.addresses = [] :: ps ∧ ∀ p ∈ ps, p ≠ [] := by
  cases t with
  | leaf label word => exact ⟨[[0]], rfl, by simp⟩
  | node label ts =>
    refine ⟨addressesAll 0 ts, rfl, fun p hp => ?_⟩
    obtain ⟨j, t, q, -, -, rfl⟩ := mem_addressesAll.mp hp
    exact List.cons_ne_nil _ _

theorem mem_addresses : p ∈ t.addresses ↔ (t.part? p).isSome := by
  induction t generalizing p with
  | leaf label word =>
    match p with
    | [] | [0] | [_ + 1] | _ :: _ :: _ => simp [addresses, part?]
  | node label ts ih =>
    match p with
    | [] => simp [addresses, part?]
    | i :: q =>
      rw [addresses, List.mem_cons, mem_addressesAll, part?]
      simp only [reduceCtorEq, false_or, Nat.zero_add, List.cons.injEq]
      constructor
      · rintro ⟨j, t, q', ht, hq, rfl, rfl⟩
        rw [ht, Option.bind_some]
        exact (ih t (List.mem_of_getElem? ht)).mp hq
      · intro h
        obtain ⟨part, hpart⟩ := Option.isSome_iff_exists.mp h
        obtain ⟨t, ht, hq⟩ := Option.bind_eq_some_iff.mp hpart
        have hqt := (ih t (List.mem_of_getElem? ht)).mpr (Option.isSome_of_eq_some hq)
        exact ⟨i, t, q, ht, hqt, rfl, rfl⟩

/-- The order of the addresses is the lexicographic one. -/
theorem pairwise_addresses (t : ParseTree) : t.addresses.Pairwise (· < ·) := by
  induction t with
  | leaf label word => simp [addresses]
  | node label ts ih =>
    have hall : ∀ i, (addressesAll i ts).Pairwise (· < ·) := by
      induction ts with
      | nil => exact fun i => List.Pairwise.nil
      | cons t ts ihts =>
        intro i
        obtain ⟨ht, hts⟩ := List.forall_mem_cons.mp ih
        rw [addressesAll, List.pairwise_append, List.pairwise_map]
        refine ⟨ht.imp fun h => List.cons_lt_cons_self.mpr h, ihts hts (i + 1), ?_⟩
        intro p hp q hq
        obtain ⟨p, -, rfl⟩ := List.mem_map.mp hp
        obtain ⟨j, t', q, -, -, rfl⟩ := mem_addressesAll.mp hq
        exact List.cons_lt_cons_iff.mpr (Or.inl (by omega))
    rw [addresses, List.pairwise_cons]
    refine ⟨fun p hp => ?_, hall 0⟩
    obtain ⟨j, t, q, -, -, rfl⟩ := mem_addressesAll.mp hp
    exact List.nil_lt_cons _ _

theorem drop_eq_cons_iff {α : Type} {xs ys : List α} {y : α} :
    xs.drop i = y :: ys ↔ xs[i]? = some y ∧ xs.drop (i + 1) = ys := by
  rw [← List.head?_drop, ← List.tail_drop]
  cases xs.drop i <;> simp

/-- The subtrees and words of a tree, in the order of their addresses. -/
def parts (t : ParseTree) : List (ParseTree ⊕ String) := t.addresses.filterMap t.part?

theorem parts_node (label : String) (ts : List ParseTree) :
    (node label ts).parts = .inl (node label ts) :: ts.flatMap parts := by
  have hall : ∀ us i, ts.drop i = us →
      (addressesAll i us).filterMap (node label ts).part? = us.flatMap parts := by
    intro us
    induction us with
    | nil => exact fun i _ => rfl
    | cons u us ih =>
      intro i h
      obtain ⟨hu, hus⟩ := drop_eq_cons_iff.mp h
      rw [addressesAll, List.filterMap_append, List.filterMap_map, ih (i + 1) hus,
        List.flatMap_cons, parts]
      exact congrArg (· ++ us.flatMap parts) (List.filterMap_congr fun p _ => part?_cons hu p)
  rw [parts, addresses, List.filterMap_cons, hall ts 0 rfl]
  rfl

theorem filterMap_getLeft?_parts (t : ParseTree) : t.parts.filterMap Sum.getLeft? = t.subtrees := by
  induction t with
  | leaf label word => rfl
  | node label ts ih =>
    rw [parts_node, subtrees, subtreesAll_eq_flatMap, List.filterMap_cons, List.filterMap_flatMap]
    exact congrArg _ (List.flatMap_congr ih)

theorem filterMap_getRight?_parts (t : ParseTree) : t.parts.filterMap Sum.getRight? = t.words := by
  induction t with
  | leaf label word => rfl
  | node label ts ih =>
    rw [parts_node, words_node, List.filterMap_cons, List.filterMap_flatMap]
    exact List.flatMap_congr ih

theorem length_addresses (t : ParseTree) :
    t.addresses.length = t.subtrees.length + t.words.length := by
  induction t with
  | leaf label word => rfl
  | node label ts ih =>
    have hall : ∀ i, (addressesAll i ts).length =
        (ts.flatMap subtrees).length + (ts.flatMap words).length := by
      induction ts with
      | nil => exact fun i => rfl
      | cons t ts ihts =>
        intro i
        obtain ⟨ht, hts⟩ := List.forall_mem_cons.mp ih
        rw [addressesAll, List.length_append, List.length_map, ht, ihts hts]
        simp only [List.flatMap_cons, List.length_append]
        omega
    rw [addresses, List.length_cons, hall, subtrees, subtreesAll_eq_flatMap, words_node,
      List.length_cons]
    omega

theorem hasNext_singleton : (node label ts).hasNext [i] = decide (i + 1 < ts.length) := by
  by_cases h : i + 1 < ts.length
  · simp [hasNext, part?, h]
  · simp [hasNext, part?, h]

theorem hasNext_cons (h : ts[i]? = some t) (hp : p ≠ []) :
    (node label ts).hasNext (i :: p) = t.hasNext p := by
  obtain ⟨q, j, rfl⟩ := (List.eq_nil_or_concat' p).resolve_left hp
  rw [hasNext, hasNext, ← List.cons_append, List.dropLast_concat, List.dropLast_concat,
    List.getLast?_concat, List.getLast?_concat]
  simp only [List.cons_append, part?_cons h]

theorem lead_cons (h : ts[i]? = some t) (hp : p ≠ []) :
    (node label ts).lead (i :: p) = passage (decide (i + 1 < ts.length)) ++ t.lead p := by
  obtain ⟨n, hn⟩ : ∃ n, p.length = n + 1 :=
    Nat.exists_eq_succ_of_ne_zero (List.length_eq_zero_iff.not.mpr hp)
  have htake : ∀ d, p.take (d + 1) ≠ [] := by simp [hp]
  rw [lead, lead, if_neg (List.cons_ne_nil _ _), if_neg hp, hasNext_cons h hp, List.length_cons, hn,
    Nat.add_sub_cancel, Nat.add_sub_cancel, List.range_succ_eq_map, List.map_cons, List.map_map,
    String.join_cons, String.append_assoc]
  simp only [List.take_succ_cons, List.take_zero, hasNext_singleton, Function.comp_def,
    hasNext_cons h (htake _)]

theorem lead_singleton :
    (node label ts).lead [i] = connector (decide (i + 1 < ts.length)) := by
  simp [lead, hasNext_singleton]

theorem line?_cons (h : ts[i]? = some t) (hp : p ≠ []) :
    (node label ts).line? (i :: p) =
      (t.line? p).map (passage (decide (i + 1 < ts.length)) ++ ·) := by
  rw [line?, line?, part?_cons h, lead_cons h hp, Option.map_map]
  simp only [Function.comp_def, String.append_assoc]

theorem line?_singleton (h : ts[i]? = some t) :
    (node label ts).line? [i] =
      (t.line? []).map (connector (decide (i + 1 < ts.length)) ++ ·) := by
  rw [line?, line?, part?_cons h, lead_singleton, Option.map_map]
  simp [Function.comp_def, lead]

theorem exists_drawing_eq_cons (t : ParseTree) : ∃ lines, t.drawing = t.label :: lines := by
  cases t with
  | leaf label word => exact ⟨_, rfl⟩
  | node label ts => exact ⟨_, rfl⟩

theorem map_line?_cons (h : ts[i]? = some t) (ih : t.addresses.map t.line? = t.drawing.map some) :
    (t.addresses.map (i :: ·)).map (node label ts).line? =
      (hang (connector (decide (i + 1 < ts.length))) (passage (decide (i + 1 < ts.length)))
        t.drawing).map some := by
  obtain ⟨ps, hps, hne⟩ := t.exists_addresses_eq_cons
  obtain ⟨lines, hlines⟩ := t.exists_drawing_eq_cons
  rw [hps, hlines, List.map_cons, List.map_cons] at ih
  obtain ⟨hfirst, hrest⟩ := List.cons.inj ih
  have hbelow : ps.map ((node label ts).line? ∘ (i :: ·)) =
      (ps.map t.line?).map (Option.map (passage (decide (i + 1 < ts.length)) ++ ·)) := by
    rw [List.map_map]
    exact List.map_congr_left fun p hp => line?_cons h (hne p hp)
  rw [hps, hlines, hang, List.map_cons, List.map_cons, List.map_map, hbelow, line?_singleton h,
    hfirst, hrest]
  simp

theorem drawingAll_cons (t : ParseTree) (ts : List ParseTree) :
    drawingAll (t :: ts) =
      hang (connector (!ts.isEmpty)) (passage (!ts.isEmpty)) t.drawing ++ drawingAll ts := by
  cases ts with
  | nil => exact (List.append_nil _).symm
  | cons u us => rfl

/-- The lines of a drawing are those at the addresses, in their order. -/
theorem map_line?_addresses (t : ParseTree) : t.addresses.map t.line? = t.drawing.map some := by
  induction t with
  | leaf label word => rfl
  | node label ts ih =>
    have hall : ∀ us i, ts.drop i = us →
        (addressesAll i us).map (node label ts).line? = (drawingAll us).map some := by
      intro us
      induction us with
      | nil => exact fun i _ => rfl
      | cons u us ihus =>
        intro i h
        obtain ⟨hu, hus⟩ := drop_eq_cons_iff.mp h
        have hmore : decide (i + 1 < ts.length) = !us.isEmpty := by
          rw [← hus, Bool.eq_iff_iff]
          simp
        rw [addressesAll, List.map_append, drawingAll_cons, List.map_append, ihus (i + 1) hus,
          map_line?_cons hu (ih u (List.mem_of_getElem? hu)), hmore]
    rw [addresses, List.map_cons, hall ts 0 rfl]
    rfl

theorem oneLine_append {a b : String} (ha : OneLine a) (hb : OneLine b) : OneLine (a ++ b) := by
  rw [OneLine, String.toList_append, List.mem_append]
  exact not_or.mpr ⟨ha, hb⟩

theorem oneLine_connector : ∀ more, OneLine (connector more) := by decide

theorem oneLine_passage : ∀ more, OneLine (passage more) := by decide

theorem oneLine_hang {first next : String} (hfirst : OneLine first) (hnext : OneLine next)
    {lines : List String} (h : ∀ line ∈ lines, OneLine line) :
    ∀ line ∈ hang first next lines, OneLine line := by
  cases lines with
  | nil => exact h
  | cons line lines =>
    obtain ⟨hline, hlines⟩ := List.forall_mem_cons.mp h
    rw [hang, List.forall_mem_cons, List.forall_mem_map]
    exact ⟨oneLine_append hfirst hline, fun l hl => oneLine_append hnext (hlines l hl)⟩

theorem oneLine_drawing (hlabels : ∀ s ∈ t.subtrees, OneLine s.label)
    (hwords : ∀ word ∈ t.words, OneLine word) : ∀ line ∈ t.drawing, OneLine line := by
  induction t with
  | leaf label word =>
    have hword := hwords word (List.mem_singleton_self _)
    rw [drawing, hangLast, List.forall_mem_cons]
    exact ⟨hlabels _ (self_mem_subtrees _),
      oneLine_hang (by decide) (by decide) (List.forall_mem_singleton.mpr hword)⟩
  | node label ts ih =>
    have hall : ∀ us ⊆ ts, ∀ line ∈ drawingAll us, OneLine line := by
      intro us
      induction us with
      | nil => exact fun _ => nofun
      | cons u us ihus =>
        intro h
        obtain ⟨hu, hus⟩ := List.cons_subset.mp h
        rw [drawingAll_cons, List.forall_mem_append]
        refine ⟨oneLine_hang (oneLine_connector _) (oneLine_passage _) (ih u hu ?_ ?_), ihus hus⟩
        · exact fun s hs => hlabels s (mem_subtrees_node.mpr (Or.inr ⟨u, hu, hs⟩))
        · intro word hword
          rw [words_node] at hwords
          exact hwords word (List.mem_flatMap.mpr ⟨u, hu, hword⟩)
    rw [drawing, List.forall_mem_cons]
    exact ⟨hlabels _ (self_mem_subtrees _), hall ts (List.Subset.refl _)⟩

theorem splitOn_drawn (h : ∀ line ∈ t.drawing, OneLine line) :
    t.drawn.toList.splitOn '\n' = t.drawing.map String.toList := by
  obtain ⟨lines, hlines⟩ := t.exists_drawing_eq_cons
  rw [drawn, String.toList_intercalate]
  refine List.splitOn_intercalate '\n' ?_ ?_
  · exact List.forall_mem_map.mpr h
  · simp [hlines]

theorem connector_append_inj {more more' : Bool} {a b : String}
    (h : connector more ++ a = connector more' ++ b) : more = more' ∧ a = b := by
  rw [← String.toList_inj, String.toList_append, String.toList_append] at h
  cases more <;> cases more' <;> simp [connector] at h ⊢
  all_goals exact String.toList_inj.mp h

theorem passage_append_ne_connector_append (more more' : Bool) (a b : String) :
    passage more ++ a ≠ connector more' ++ b := by
  rw [Ne, ← String.toList_inj, String.toList_append, String.toList_append]
  cases more <;> cases more' <;> simp [connector, passage]

theorem exists_drawingAll_eq_cons (hne : ts ≠ []) :
    ∃ more line lines, drawingAll ts = (connector more ++ line) :: lines := by
  obtain ⟨t, ts, rfl⟩ := List.exists_cons_of_ne_nil hne
  obtain ⟨lines, hlines⟩ := t.exists_drawing_eq_cons
  rw [drawingAll_cons, hlines, hang]
  exact ⟨_, _, _, rfl⟩

/-- The lines that are passed by end where the next child is joined. -/
theorem eq_of_passages_eq {more : Bool} {lines lines' : List String}
    (h : lines.map (passage more ++ ·) ++ drawingAll ts =
      lines'.map (passage more ++ ·) ++ drawingAll us) :
    lines = lines' ∧ drawingAll ts = drawingAll us := by
  have hstart : ∀ (vs : List ParseTree) line lines,
      drawingAll vs ≠ (passage more ++ line) :: lines := by
    intro vs line lines hvs
    have hne : vs ≠ [] := by
      rintro rfl
      cases hvs
    obtain ⟨more', line', lines', hline⟩ := exists_drawingAll_eq_cons hne
    rw [hvs] at hline
    exact passage_append_ne_connector_append _ _ _ _ (List.head_eq_of_cons_eq hline)
  induction lines generalizing lines' with
  | nil =>
    cases lines' with
    | nil => exact ⟨rfl, h⟩
    | cons line' lines' => exact absurd h (hstart _ _ _)
  | cons line lines ih =>
    cases lines' with
    | nil => exact absurd h.symm (hstart _ _ _)
    | cons line' lines' =>
      obtain ⟨hline, hmore⟩ := List.cons.inj h
      obtain ⟨rfl, hrest⟩ := ih hmore
      exact ⟨congrArg (· :: lines) ((String.append_right_inj _).mp hline), hrest⟩

theorem drawingAll_inj (hts : ∀ t ∈ ts, ∀ u ∈ us, t.drawing = u.drawing → t = u)
    (h : drawingAll ts = drawingAll us) : ts = us := by
  induction ts generalizing us with
  | nil =>
    by_contra hne
    obtain ⟨_, _, _, hcons⟩ := exists_drawingAll_eq_cons (Ne.symm hne)
    rw [hcons] at h
    cases h
  | cons t ts ih =>
    cases us with
    | nil =>
      obtain ⟨_, _, _, hcons⟩ := exists_drawingAll_eq_cons (List.cons_ne_nil t ts)
      rw [hcons] at h
      cases h
    | cons u us =>
      obtain ⟨lines, hlines⟩ := t.exists_drawing_eq_cons
      obtain ⟨lines', hlines'⟩ := u.exists_drawing_eq_cons
      rw [drawingAll_cons, drawingAll_cons, hlines, hlines', hang, hang] at h
      obtain ⟨hfirst, hrest⟩ := List.cons.inj h
      obtain ⟨hmore, hlabel⟩ := connector_append_inj hfirst
      rw [hmore] at hrest
      obtain ⟨hbelow, hbehind⟩ := eq_of_passages_eq hrest
      have htu : t = u := hts t List.mem_cons_self u List.mem_cons_self
        (by rw [hlines, hlines', hlabel, hbelow])
      have hus := ih (fun t ht u hu => hts t (List.mem_cons_of_mem _ ht) u
        (List.mem_cons_of_mem _ hu)) hbehind
      rw [htu, hus]

theorem two_le_length_drawing {q : String → Prop} (h : t.Regular q) : 2 ≤ t.drawing.length := by
  cases t with
  | leaf label word => exact Nat.le_refl 2
  | node label ts =>
    obtain ⟨-, hne, -⟩ := regular_node.mp h
    obtain ⟨_, _, _, hcons⟩ := exists_drawingAll_eq_cons hne
    simp [drawing, hcons]

theorem drawing_leaf_ne_drawing_node {q : String → Prop} {label' word : String}
    (h : (node label' us).Regular q) : (leaf label word).drawing ≠ (node label' us).drawing := by
  obtain ⟨-, hne, hus⟩ := regular_node.mp h
  obtain ⟨u, us, rfl⟩ := List.exists_cons_of_ne_nil hne
  have hu := two_le_length_drawing (hus u List.mem_cons_self)
  intro hsame
  have hlength := congrArg List.length hsame
  simp only [drawing, hangLast, drawingAll_cons, List.length_cons, List.length_append, length_hang,
    List.length_nil] at hlength
  omega

theorem drawing_inj {q : String → Prop} (ht : t.Regular q) (hu : u.Regular q)
    (h : t.drawing = u.drawing) : t = u := by
  induction t generalizing u with
  | leaf label word =>
    cases u with
    | leaf label' word' =>
      obtain ⟨hlabel, hword⟩ := List.cons.inj h
      have hsame := (String.append_right_inj _).mp (List.head_eq_of_cons_eq hword)
      exact congrArg₂ leaf hlabel hsame
    | node label' us => exact absurd h (drawing_leaf_ne_drawing_node hu)
  | node label ts ih =>
    cases u with
    | leaf label' word' => exact absurd h.symm (drawing_leaf_ne_drawing_node ht)
    | node label' us =>
      obtain ⟨hlabel, hbelow⟩ := List.cons.inj h
      obtain ⟨-, -, hts⟩ := regular_node.mp ht
      obtain ⟨-, -, hus⟩ := regular_node.mp hu
      have hsame := drawingAll_inj (fun t htmem u humem => ih t htmem (hts t htmem) (hus u humem))
        hbelow
      exact congrArg₂ node hlabel hsame

theorem Regular.oneLine_drawing (h : t.Regular OneLine) : ∀ line ∈ t.drawing, OneLine line :=
  ParseTree.oneLine_drawing h.label h.word

/-- Trees with the same drawing are the same if neither labels nor words hold a line feed and each
inner node has children. Without line feeds in them, the lines of a drawing are those of the labels
and the words of the tree, one for each, in the order of their addresses. -/
theorem drawn_exact :
    (∀ t u : ParseTree, t.Regular OneLine → u.Regular OneLine → t.drawn = u.drawn → t = u) ∧
      ∀ t : ParseTree, (∀ s ∈ t.subtrees, OneLine s.label) → (∀ word ∈ t.words, OneLine word) →
        (t.drawn.toList.splitOn '\n').map (some ∘ String.ofList) = t.addresses.map t.line? ∧
          (t.drawn.toList.splitOn '\n').length = t.subtrees.length + t.words.length ∧
          t.addresses.Pairwise (· < ·) ∧ (∀ p, p ∈ t.addresses ↔ (t.part? p).isSome) ∧
          (t.addresses.filterMap t.part?).filterMap Sum.getLeft? = t.subtrees ∧
          (t.addresses.filterMap t.part?).filterMap Sum.getRight? = t.words := by
  constructor
  · intro t u ht hu h
    have hlines : t.drawing.map String.toList = u.drawing.map String.toList := by
      rw [← splitOn_drawn ht.oneLine_drawing, ← splitOn_drawn hu.oneLine_drawing, h]
    exact drawing_inj ht hu (List.map_injective_iff.mpr (fun _ _ => String.toList_inj.mp) hlines)
  · intro t hlabels hwords
    have hlines := splitOn_drawn (oneLine_drawing hlabels hwords)
    have haddresses := map_line?_addresses t
    refine ⟨?_, ?_, pairwise_addresses t, fun p => mem_addresses, filterMap_getLeft?_parts t,
      filterMap_getRight?_parts t⟩
    · rw [hlines, List.map_map, haddresses]
      exact List.map_congr_left fun line _ => congrArg some String.ofList_toList
    · rw [hlines, List.length_map, ← length_addresses, ← List.length_map t.line?, haddresses,
        List.length_map]

/-- The tree of two words is known by its drawing, which has a line for each of its five labels and
two words. -/
theorem eq_bracketing_of_drawn :
    ∃ t, ((Chart.ofTerminals .bracketings [0, 0]).derivations 0).next.1 = some t ∧
      t.drawn = "\n".intercalate ["S", "├─ S", "│   └─ N", "│       └─ a", "└─ S", "    └─ N",
        "        └─ a"] ∧ t.Regular OneLine ∧
      t = .node "S" [.node "S" [.leaf "N" "a"], .node "S" [.leaf "N" "a"]] ∧
      (t.drawn.toList.splitOn '\n').length = t.subtrees.length + t.words.length ∧
      t.addresses.map t.line? = (t.drawn.toList.splitOn '\n').map (some ∘ String.ofList) := by
  have hform : ∃ t ∈ ((Chart.ofTerminals .bracketings [0, 0]).derivations 0).next.1,
      t.drawn = "\n".intercalate ["S", "├─ S", "│   └─ N", "│       └─ a", "└─ S", "    └─ N",
        "        └─ a"] ∧ (∀ s ∈ t.subtrees, OneLine s.label) ∧ (∀ word ∈ t.words, OneLine word) ∧
      ∀ s ∈ t.subtrees, s.isLeaf = false → s.children ≠ [] := by decide +kernel
  obtain ⟨t, ht, hdrawn, hlabels, hwords, hchildren⟩ := hform
  have hregular : t.Regular OneLine := ⟨hlabels, hwords, hchildren⟩
  obtain ⟨hlines, hlength, -⟩ := drawn_exact.2 t hlabels hwords
  refine ⟨t, ht, hdrawn, hregular, drawn_exact.1 _ _ hregular ?_ ?_, hlength, hlines.symm⟩
  · simp [regular_node, regular_leaf, OneLine]
  · rw [hdrawn]
    decide +kernel

end ParseTree

end PhraseStructure
