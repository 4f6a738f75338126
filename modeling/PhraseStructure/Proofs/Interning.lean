import Mathlib.Tactic
import PhraseStructure.Proofs.Representation

/-!
# Interning one name after the other

A table that starts empty and is given one name after the other numbers them: each name has as its
id how many different names have come before it. The id with which a name is answered is never
given up, so that it is answered again whenever the name comes again. This needs as many ids as
there are different names, and no more.
-/

namespace List

variable {α : Type} [BEq α] [LawfulBEq α]

/-- Without the repeated ones, elements are in the order in which they first come. -/
theorem pairwise_idxOf_eraseDups (as : List α) :
    as.eraseDups.Pairwise fun a b => as.idxOf a < as.idxOf b := by
  induction as using reverseRecOn with
  | nil => exact Pairwise.nil
  | append_singleton as a ih =>
    have hold : as.eraseDups.Pairwise fun b c => (as ++ [a]).idxOf b < (as ++ [a]).idxOf c := by
      refine ih.imp_of_mem ?_
      intro b c hb hc hlt
      rw [mem_eraseDups] at hb hc
      rwa [idxOf_append_of_mem hb, idxOf_append_of_mem hc]
    rw [eraseDups_concat]
    split_ifs with ha
    · exact hold
    · rw [pairwise_append]
      refine ⟨hold, pairwise_singleton _ _, ?_⟩
      intro b hb c hc
      rw [mem_eraseDups] at hb
      rw [mem_singleton] at hc
      subst hc
      calc (as ++ [c]).idxOf b = as.idxOf b := idxOf_append_of_mem hb
        _ < as.length := idxOf_lt_length_of_mem hb
        _ ≤ (as ++ [c]).idxOf c := by
          rw [idxOf_append_of_notMem ha]
          exact Nat.le_add_right _ _

end List

namespace PhraseStructure.SymbolTable

/-- The ids that are answered when the names are interned one after the other. -/
def answers (t : SymbolTable) : List String → List SymbolId
  | [] => []
  | name :: names => (t.intern name).1 :: (t.intern name).2.answers names

/-- Each time a name is interned, the answer is the id that it has in the end. -/
theorem map_some_answers (t : SymbolTable) (names : List String) :
    (t.answers names).map some = names.map (t.internAll names).id? := by
  induction names generalizing t with
  | nil => rfl
  | cons name names ih =>
    have hid : ((t.intern name).2.internAll names).id? name = some (t.intern name).1 :=
      id?_internAll_of_id? (t.id?_intern_self name) names
    rw [answers, List.map_cons, List.map_cons, internAll_cons, ih, hid]

theorem map_snd_toList (t : SymbolTable) : t.toList.map Prod.snd = t.names.toList := by
  rw [toList, List.map_map]
  exact List.zipIdx_map_fst 0 _

/-- Without wrapping, the names are listed each with its place. -/
theorem map_swap_toList {t : SymbolTable} (hsize : t.size ≤ UInt32.size) :
    t.toList.map (fun entry => (entry.2, entry.1.toNat)) = t.names.toList.zipIdx := by
  rw [toList, List.map_map]
  refine (List.map_congr_left ?_).trans (List.map_id _)
  rintro ⟨name, i⟩ hmem
  have hlt : i < t.size := by simpa [size] using (List.mem_zipIdx hmem).2.1
  simp [UInt32.toNat_ofNat_of_lt' (hlt.trans_le hsize)]

/-- The names that are interned one after the other can be told apart by their ids exactly if there
are at most as many different ones as ids. -/
theorem bijective_internAll_iff {names : List String} :
    ((∅ : SymbolTable).internAll names).Bijective ↔ names.dedup.length ≤ UInt32.size := by
  rw [(lawful_empty.internAll names).bijective_iff, size_internAll]

/-- What a table knows of the names that have been interned one after the other. -/
structure Numbers (t : SymbolTable) (names : List String) : Prop extends t.Bijective where
  size_eq : t.size = names.dedup.length
  /-- The ids in use are those below the number of different names. -/
  exists_id?_iff (id : SymbolId) : (∃ name, t.id? name = some id) ↔ id.toNat < t.size
  /-- An id that a name had after the first of the names is still the id of that name. -/
  id?_of_first (first rest : List String) (name : String) (id : SymbolId) :
    first ++ rest = names → ((∅ : SymbolTable).internAll first).id? name = some id →
      t.id? name = some id
  /-- Each of the names, also one that came before, was answered with the id that it has now. -/
  map_some_answers : ((∅ : SymbolTable).answers names).map some = names.map t.id?
  mem_toList_iff (id : SymbolId) (name : String) : (id, name) ∈ t.toList ↔ t.id? name = some id
  /-- Without the repeated ones, the names are listed with the numbers from zero. -/
  map_swap_toList : t.toList.map (fun entry => (entry.2, entry.1.toNat)) = names.eraseDups.zipIdx
  /-- The names are listed in the order in which they first came. -/
  pairwise_toList :
    t.toList.Pairwise fun entry later => names.idxOf entry.2 < names.idxOf later.2

/-- The table of names that have been interned one after the other numbers them, if there are at
most as many different names as ids. -/
theorem numbers_internAll {names : List String} (hfew : names.dedup.length ≤ UInt32.size) :
    ((∅ : SymbolTable).internAll names).Numbers names := by
  have ht : ((∅ : SymbolTable).internAll names).Lawful := lawful_empty.internAll names
  have hbijective := bijective_internAll_iff.mpr hfew
  refine ⟨hbijective, size_internAll names, ?_, ?_, map_some_answers ∅ names, ?_, ?_, ?_⟩
  · intro id
    simp only [hbijective.lt_size_iff, hbijective.id?_eq_some_iff]
  · rintro first rest name id rfl hid
    rw [internAll_append]
    exact id?_internAll_of_id? hid rest
  · intro id name
    rw [mem_toList, ht.id?_eq_some]
  · rw [SymbolTable.map_swap_toList ((size_internAll names).trans_le hfew),
      toList_names_internAll_empty]
  · have hpairwise := List.pairwise_idxOf_eraseDups names
    rwa [← toList_names_internAll_empty, ← map_snd_toList, List.pairwise_map] at hpairwise

/-- Three names, two of which come again. -/
def repeatedNames : List String := ["S", "NP", "S", "VP", "NP"]

/-- A name that comes again is answered as before, and the name behind it gets the next id. -/
theorem numbers_repeatedNames : repeatedNames.dedup.length ≤ UInt32.size ∧
    ((∅ : SymbolTable).internAll repeatedNames).Numbers repeatedNames ∧
    (∅ : SymbolTable).answers repeatedNames = [0, 1, 0, 2, 1] := by
  have hfew : repeatedNames.dedup.length ≤ UInt32.size := by decide
  exact ⟨hfew, numbers_internAll hfew, by decide +kernel⟩

end PhraseStructure.SymbolTable
