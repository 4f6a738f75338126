import Mathlib.Tactic
import PhraseStructure.Grammar.OfEntries
import PhraseStructure.Proofs.Except

/-!
# The search for unary cycles

A search leaves the non-terminals that it has finished in an order in which the targets of each come
before it, so none is finished twice. The path never uses up the depth of the search: it has no
repetitions and stays among the roots. If the search ends well, all roots are finished, and targets
can be ranked below their sources. If it fails, it names a non-terminal that is on a cycle.
-/

namespace PhraseStructure

namespace UnaryCycle

variable {targets : SymbolId → List SymbolId}

/-- A list without repetitions in which the targets of each element stand behind it. -/
inductive Settled (targets : SymbolId → List SymbolId) : List SymbolId → Prop
  | nil : Settled targets []
  | cons {nt done} : Settled targets done → nt ∉ done → (∀ m ∈ targets nt, m ∈ done) →
      Settled targets (nt :: done)

theorem Settled.nodup {done : List SymbolId} (h : Settled targets done) : done.Nodup := by
  induction h with
  | nil => exact List.nodup_nil
  | cons _ hnew _ ih => exact List.nodup_cons.mpr ⟨hnew, ih⟩

theorem Settled.mem_of_target {done : List SymbolId} (h : Settled targets done)
    {nt m : SymbolId} (hnt : nt ∈ done) (hm : m ∈ targets nt) : m ∈ done := by
  induction h with
  | nil => exact absurd hnt List.not_mem_nil
  | cons _ _ htargets ih =>
    rcases List.mem_cons.mp hnt with rfl | hnt
    · exact List.mem_cons_of_mem _ (htargets m hm)
    · exact List.mem_cons_of_mem _ (ih hnt)

theorem Settled.exists_rank {done : List SymbolId} (h : Settled targets done) :
    ∃ rank : SymbolId → Nat, ∀ nt ∈ done, rank nt < done.length ∧
      ∀ m ∈ targets nt, rank m < rank nt := by
  induction h with
  | nil => exact ⟨fun _ => 0, by simp⟩
  | @cons nt done hdone hnew htargets ih =>
    obtain ⟨rank, hrank⟩ := ih
    have hold : ∀ m ∈ done, Function.update rank nt done.length m = rank m := by
      intro m hm
      exact Function.update_of_ne (ne_of_mem_of_not_mem hm hnew) _ _
    refine ⟨Function.update rank nt done.length, ?_⟩
    intro k hk
    rcases List.mem_cons.mp hk with rfl | hk
    · rw [Function.update_self]
      refine ⟨by simp, ?_⟩
      intro m hm
      rw [hold m (htargets m hm)]
      exact (hrank m (htargets m hm)).1
    · obtain ⟨hlt, hbelow⟩ := hrank k hk
      rw [hold k hk]
      refine ⟨hlt.trans (by simp), ?_⟩
      intro m hm
      rw [hold m (hdone.mem_of_target hk hm)]
      exact hbelow m hm

/-- What a search comes to: the non-terminal that was met again on its own path, if there was one,
and all that the search has left for good, latest first. -/
structure Outcome where
  culprit? : Option SymbolId
  finished : List SymbolId
  deriving DecidableEq, Repr

def Outcome.verdict (o : Outcome) : Except SymbolId (List SymbolId) :=
  match o.culprit? with
  | none => .ok o.finished
  | some culprit => .error culprit

def visitEach (step : List SymbolId → SymbolId → Option Outcome) :
    List SymbolId → List SymbolId → Option Outcome
  | done, [] => some ⟨none, done⟩
  | done, nt :: nts =>
    match step done nt with
    | some ⟨none, done⟩ => visitEach step done nts
    | outcome => outcome

/-- The search below `nt` with all that it has finished, also where it fails. It gives up where its
depth is used up. -/
def visit (targets : SymbolId → List SymbolId) :
    Nat → List SymbolId → List SymbolId → SymbolId → Option Outcome
  | 0, _, _, _ => none
  | depth + 1, path, done, nt =>
    if nt ∈ done then some ⟨none, done⟩
    else if nt ∈ path then some ⟨some nt, done⟩
    else
      match visitEach (visit targets depth (nt :: path)) done (targets nt) with
      | some ⟨none, done⟩ => some ⟨none, nt :: done⟩
      | outcome => outcome

def visitAll (targets : SymbolId → List SymbolId) (roots : List SymbolId) : Option Outcome :=
  visitEach (visit targets (roots.length + 1) []) [] roots

theorem foldlM_eq_verdict {step : List SymbolId → SymbolId → Option Outcome}
    {run : List SymbolId → SymbolId → Except SymbolId (List SymbolId)}
    (hstep : ∀ {done nt o}, step done nt = some o → run done nt = o.verdict)
    {nts done : List SymbolId} {o : Outcome} (h : visitEach step done nts = some o) :
    nts.foldlM run done = o.verdict := by
  induction nts generalizing done with
  | nil =>
    obtain rfl := Option.some.inj h
    rfl
  | cons nt nts ih =>
    rw [visitEach] at h
    rw [List.foldlM_cons]
    split at h
    · next done' hnt =>
      rw [hstep hnt]
      exact ih h
    · next hfail =>
      obtain ⟨_ | culprit, finished⟩ := o
      · exact absurd h (hfail finished)
      · rw [hstep h]
        rfl

/-- A search that does not give up is the search for unary cycles. -/
theorem search_eq_verdict {depth : Nat} {path done : List SymbolId} {nt : SymbolId} {o : Outcome}
    (h : visit targets depth path done nt = some o) :
    search targets depth path done nt = o.verdict := by
  induction depth generalizing path done nt o with
  | zero => cases h
  | succ depth ih =>
    rw [visit] at h
    rw [search]
    split_ifs at h ⊢ with hdone hcycle
    · obtain rfl := Option.some.inj h
      rfl
    · obtain rfl := Option.some.inj h
      rfl
    · split at h
      · next below hbelow =>
        obtain rfl := Option.some.inj h
        rw [foldlM_eq_verdict ih hbelow]
        rfl
      · next hfail =>
        obtain ⟨_ | culprit, finished⟩ := o
        · exact absurd h (hfail finished)
        · rw [foldlM_eq_verdict ih h]
          rfl

theorem searchAll_eq_verdict {roots : List SymbolId} {o : Outcome}
    (h : visitAll targets roots = some o) : searchAll targets roots = o.verdict :=
  foldlM_eq_verdict search_eq_verdict h

/-- What a search below a path does to the non-terminals that are done: it adds to them among the
roots, and adds none that is on the path. -/
structure Extends (targets : SymbolId → List SymbolId) (roots path before after : List SymbolId) :
    Prop where
  settled : Settled targets after
  subset : before ⊆ after
  among : after ⊆ roots
  off_path : ∀ m ∈ path, m ∈ after → m ∈ before

section

variable {roots path before middle after : List SymbolId} {nt : SymbolId}

theorem Extends.refl (hbefore : Settled targets before) (hroots : before ⊆ roots) :
    Extends targets roots path before before :=
  ⟨hbefore, List.Subset.refl _, hroots, fun _ _ hm => hm⟩

theorem Extends.trans (h : Extends targets roots path before middle)
    (h' : Extends targets roots path middle after) : Extends targets roots path before after where
  settled := h'.settled
  subset := List.Subset.trans h.subset h'.subset
  among := h'.among
  off_path m hm hafter := h.off_path m hm (h'.off_path m hm hafter)

theorem Extends.of_cons (h : Extends targets roots (nt :: path) before after) :
    Extends targets roots path before after :=
  { h with off_path := fun m hm => h.off_path m (List.mem_cons_of_mem _ hm) }

theorem Extends.finish (h : Extends targets roots (nt :: path) before after) (hnt : nt ∈ roots)
    (hdone : nt ∉ before) (hpath : nt ∉ path) (htargets : targets nt ⊆ after) :
    Extends targets roots path before (nt :: after) where
  settled :=
    .cons h.settled (fun hm => hdone (h.off_path nt List.mem_cons_self hm)) fun _ hm => htargets hm
  subset := List.subset_cons_of_subset _ h.subset
  among := List.cons_subset.mpr ⟨hnt, h.among⟩
  off_path m hm hafter := by
    rcases List.mem_cons.mp hafter with rfl | hafter
    · exact absurd hm hpath
    · exact h.of_cons.off_path m hm hafter

/-- A search step that does not give up, and finishes the non-terminal searched unless it fails. -/
def Visits (targets : SymbolId → List SymbolId) (roots path : List SymbolId)
    (step : List SymbolId → SymbolId → Option Outcome) : Prop :=
  ∀ before nt, nt ∈ roots → Settled targets before → before ⊆ roots →
    ∃ o, step before nt = some o ∧ Extends targets roots path before o.finished ∧
      (o.culprit? = none → nt ∈ o.finished)

theorem Visits.each {step : List SymbolId → SymbolId → Option Outcome}
    (hstep : Visits targets roots path step) {nts : List SymbolId} (hnts : nts ⊆ roots)
    (hbefore : Settled targets before) (hroots : before ⊆ roots) :
    ∃ o, visitEach step before nts = some o ∧ Extends targets roots path before o.finished ∧
      (o.culprit? = none → nts ⊆ o.finished) := by
  induction nts generalizing before with
  | nil => exact ⟨⟨none, before⟩, rfl, .refl hbefore hroots, fun _ => List.nil_subset _⟩
  | cons nt nts ih =>
    obtain ⟨hnt, hrest⟩ := List.cons_subset.mp hnts
    obtain ⟨⟨culprit?, middle⟩, hvisit, hfirst, hmem⟩ := hstep before nt hnt hbefore hroots
    rw [visitEach, hvisit]
    cases culprit? with
    | some culprit => exact ⟨⟨some culprit, middle⟩, rfl, hfirst, nofun⟩
    | none =>
      obtain ⟨o, ho, hlater, hsub⟩ := ih hrest hfirst.settled hfirst.among
      refine ⟨o, ho, hfirst.trans hlater, fun hnone => ?_⟩
      exact List.cons_subset.mpr ⟨hlater.subset (hmem rfl), hsub hnone⟩

/-- The depth is enough: a path has no repetitions and stays among the roots. -/
theorem visits_visit (hclosed : ∀ nt ∈ roots, targets nt ⊆ roots) (depth : Nat)
    (hnodup : path.Nodup) (hpath : path ⊆ roots) (hdepth : roots.length < path.length + depth) :
    Visits targets roots path (visit targets depth path) := by
  induction depth generalizing path with
  | zero =>
    have hle : path.length ≤ roots.length := hnodup.length_le_of_subset hpath
    omega
  | succ depth ih =>
    intro before nt hnt hbefore hroots
    rw [visit]
    split_ifs with hdone hcycle
    · exact ⟨_, rfl, .refl hbefore hroots, fun _ => hdone⟩
    · exact ⟨_, rfl, .refl hbefore hroots, nofun⟩
    · have hstep := ih (List.nodup_cons.mpr ⟨hcycle, hnodup⟩)
        (List.cons_subset.mpr ⟨hnt, hpath⟩) (by rw [List.length_cons]; omega)
      obtain ⟨⟨culprit?, below⟩, hvisit, hbelow, hsub⟩ :=
        hstep.each (hclosed nt hnt) hbefore hroots
      rw [hvisit]
      cases culprit? with
      | some culprit => exact ⟨⟨some culprit, below⟩, rfl, hbelow.of_cons, nofun⟩
      | none =>
        refine ⟨⟨none, nt :: below⟩, rfl, ?_, fun _ => List.mem_cons_self⟩
        exact hbelow.finish hnt hdone hcycle (hsub rfl)

end

/-- The search comes to an end, and has then finished each non-terminal at most once, and all roots
unless it fails. -/
theorem exists_visitAll {roots : List SymbolId} (hclosed : ∀ nt ∈ roots, targets nt ⊆ roots) :
    ∃ o, visitAll targets roots = some o ∧ Settled targets o.finished ∧ o.finished ⊆ roots ∧
      (o.culprit? = none → roots ⊆ o.finished) := by
  have hstep := visits_visit hclosed (roots.length + 1) List.nodup_nil (List.nil_subset _)
    (by simp)
  obtain ⟨o, ho, hdone, hsub⟩ :=
    hstep.each (List.Subset.refl roots) .nil (List.nil_subset _)
  exact ⟨o, ho, hdone.settled, hdone.among, hsub⟩

/-- If no cycle is found, the roots can be ranked with all targets below their sources. -/
theorem exists_rank_of_searchAll {roots done : List SymbolId}
    (hclosed : ∀ nt ∈ roots, targets nt ⊆ roots) (h : searchAll targets roots = .ok done) :
    ∃ rank : SymbolId → Nat, ∀ nt ∈ roots, rank nt < roots.length ∧
      ∀ m ∈ targets nt, rank m < rank nt := by
  obtain ⟨⟨culprit?, finished⟩, hvisit, hsettled, hamong, hsub⟩ := exists_visitAll hclosed
  rw [searchAll_eq_verdict hvisit] at h
  cases culprit? with
  | some culprit => cases h
  | none =>
    obtain ⟨rank, hrank⟩ := hsettled.exists_rank
    have hle : finished.length ≤ roots.length := hsettled.nodup.length_le_of_subset hamong
    refine ⟨rank, ?_⟩
    intro nt hnt
    obtain ⟨hlt, hbelow⟩ := hrank nt (hsub rfl hnt)
    exact ⟨hlt.trans_le hle, hbelow⟩

/-- A search fails only at a non-terminal that is its own target in one or more steps: each
non-terminal on the path leads to the one that is searched. -/
theorem transGen_of_search {depth : Nat} {path done : List SymbolId} {nt culprit : SymbolId}
    (hpath : ∀ m ∈ path, Relation.TransGen (fun a b => b ∈ targets a) m nt)
    (h : search targets depth path done nt = .error culprit) :
    Relation.TransGen (fun a b => b ∈ targets a) culprit culprit := by
  induction depth generalizing path done nt with
  | zero => cases h
  | succ depth ih =>
    rw [search] at h
    split_ifs at h with hdone hcycle
    · obtain rfl : nt = culprit := Except.error.inj h
      exact hpath nt hcycle
    · rcases Except.bind_eq_error.mp h with hfold | ⟨_, -, h⟩
      · obtain ⟨done', child, hchild, hfail⟩ := Except.exists_of_foldlM_eq_error hfold
        refine ih ?_ hfail
        intro m hm
        rcases List.mem_cons.mp hm with rfl | hm
        · exact .single hchild
        · exact (hpath m hm).tail hchild
      · cases h

theorem transGen_of_searchAll {roots : List SymbolId} {culprit : SymbolId}
    (h : searchAll targets roots = .error culprit) :
    Relation.TransGen (fun a b => b ∈ targets a) culprit culprit := by
  obtain ⟨_, root, -, hfail⟩ := Except.exists_of_foldlM_eq_error h
  exact transGen_of_search (by simp) hfail

end UnaryCycle

end PhraseStructure
