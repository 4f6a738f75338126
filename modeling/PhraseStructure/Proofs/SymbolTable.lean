import Mathlib.Tactic
import PhraseStructure.SymbolTable

/-!
# Symbol tables as numberings

The two halves of a symbol table describe one numbering: a name is stored at most once, and its id
is the place where it is stored, as a word of 32 bits. Names are stored as they first come, so the
place of a name is its rank among the names without the repeated ones. As long as the places fit
into a word, ids and names determine each other.
-/

namespace List

variable {α : Type} [BEq α] [LawfulBEq α]

theorem eraseDups_concat (as : List α) (a : α) :
    (as ++ [a]).eraseDups = if a ∈ as then as.eraseDups else as.eraseDups ++ [a] := by
  rw [eraseDups_append]
  split_ifs with h <;> simp [removeAll, h, eraseDups_cons]

theorem Nodup.eraseDups_eq {as : List α} (h : as.Nodup) : as.eraseDups = as := by
  induction as with
  | nil => rfl
  | cons a as ih =>
    obtain ⟨hnew, hrest⟩ := nodup_cons.mp h
    have hfilter : as.filter (fun b => !b == a) = as := by
      rw [filter_eq_self]
      intro b hb
      simpa using ne_of_mem_of_not_mem hb hnew
    rw [eraseDups_cons, hfilter, ih hrest]

end List

namespace PhraseStructure.SymbolTable

/-- Each name is stored once, and the id of a name is its place. -/
structure Lawful (t : SymbolTable) : Prop where
  nodup : t.names.toList.Nodup
  id?_eq_some {name : String} {id : SymbolId} :
    t.id? name = some id ↔ ∃ i, t.names[i]? = some name ∧ UInt32.ofNat i = id

@[simp] theorem names_empty : (∅ : SymbolTable).names = #[] := rfl

theorem lawful_empty : (∅ : SymbolTable).Lawful where
  nodup := List.nodup_nil
  id?_eq_some := by simp

theorem size_intern (t : SymbolTable) (name : String) :
    (t.intern name).2.size = if t.id? name = none then t.size + 1 else t.size := by
  unfold size
  rw [names_intern]
  split_ifs
  · exact Array.size_push name
  · rfl

theorem size_le_size_intern (t : SymbolTable) (name : String) :
    t.size ≤ (t.intern name).2.size := by
  rw [size_intern]
  split_ifs
  · exact Nat.le_succ _
  · exact le_rfl

theorem size_le_size_internAll (t : SymbolTable) (names : List String) :
    t.size ≤ (t.internAll names).size := by
  induction names generalizing t with
  | nil => exact le_rfl
  | cons name names ih => exact (t.size_le_size_intern name).trans (ih _)

theorem size_internAll_pos {names : List String} (hne : names ≠ []) :
    0 < ((∅ : SymbolTable).internAll names).size := by
  cases names with
  | nil => exact absurd rfl hne
  | cons name names =>
    have hone : ((∅ : SymbolTable).intern name).2.size = 1 := by simp [size_intern]; rfl
    have hle := size_le_size_internAll ((∅ : SymbolTable).intern name).2 names
    rw [internAll_cons]
    omega

theorem intern_fst_of_id? {t : SymbolTable} {name : String} (h : t.id? name = none) :
    (t.intern name).1 = UInt32.ofNat t.size := by
  simp [intern, h]

theorem id?_intern_of_id? {t : SymbolTable} {name other : String} {id : SymbolId}
    (h : t.id? other = some id) : (t.intern name).2.id? other = some id := by
  rw [id?_intern]
  split_ifs with he
  · rw [intern_of_id? t (he ▸ h)]
  · exact h

theorem id?_internAll_of_id? {t : SymbolTable} {other : String} {id : SymbolId}
    (h : t.id? other = some id) (names : List String) :
    (t.internAll names).id? other = some id := by
  induction names generalizing t with
  | nil => exact h
  | cons name names ih => exact ih (id?_intern_of_id? h)

theorem exists_id?_internAll (t : SymbolTable) {name : String} {names : List String}
    (h : name ∈ names) : ∃ id, (t.internAll names).id? name = some id := by
  induction names generalizing t with
  | nil => exact absurd h List.not_mem_nil
  | cons other names ih =>
    rcases List.mem_cons.mp h with rfl | h
    · exact ⟨_, id?_internAll_of_id? (t.id?_intern_self name) names⟩
    · exact ih _ h

theorem internAll_append (t : SymbolTable) (names more : List String) :
    t.internAll (names ++ more) = (t.internAll names).internAll more := List.foldl_append

namespace Lawful

variable {t : SymbolTable} (ht : t.Lawful)
include ht

theorem id?_eq_none {name : String} : t.id? name = none ↔ name ∉ t.names.toList := by
  constructor
  · intro h hmem
    obtain ⟨i, hi⟩ := List.mem_iff_getElem?.mp hmem
    have := ht.id?_eq_some.mpr ⟨i, by simpa using hi, rfl⟩
    simp [h] at this
  · intro h
    by_contra hne
    obtain ⟨id, hid⟩ := Option.ne_none_iff_exists'.mp hne
    obtain ⟨i, hi, -⟩ := ht.id?_eq_some.mp hid
    exact h (List.mem_iff_getElem?.mpr ⟨i, by simpa using hi⟩)

theorem mem_names_iff {name : String} :
    name ∈ t.names.toList ↔ ∃ id, t.id? name = some id := by
  rw [← Option.ne_none_iff_exists', Ne, ht.id?_eq_none, not_not]

/-- An id is below the number of names, even if the ids have wrapped. -/
theorem toNat_lt {name : String} {id : SymbolId} (h : t.id? name = some id) :
    id.toNat < t.size := by
  obtain ⟨i, hi, rfl⟩ := ht.id?_eq_some.mp h
  have hlt : i < t.size := (Array.getElem?_eq_some_iff.mp hi).1
  have hle : (UInt32.ofNat i).toNat ≤ i := by
    rw [UInt32.toNat_ofNat']
    exact Nat.mod_le _ _
  exact hle.trans_lt hlt

theorem intern (name : String) : (t.intern name).2.Lawful := by
  cases hid : t.id? name with
  | some id => rwa [intern_of_id? t hid]
  | none =>
    have hnew : name ∉ t.names.toList := ht.id?_eq_none.mp hid
    have hnames : (t.intern name).2.names = t.names.push name := by simp [names_intern, hid]
    refine ⟨?_, ?_⟩
    · rw [hnames, Array.toList_push, List.nodup_append]
      exact ⟨ht.nodup, List.nodup_singleton _, fun a ha b hb hab => hnew (by simp_all)⟩
    · intro other id
      rw [id?_intern, hnames, intern_fst_of_id? hid]
      simp only [Array.getElem?_push]
      split_ifs with h
      · subst h
        constructor
        · intro h
          exact ⟨t.size, by simp [size], Option.some.inj h⟩
        · rintro ⟨i, hi, rfl⟩
          split_ifs at hi with hsize
          · rw [hsize]
            rfl
          · exact absurd (List.mem_iff_getElem?.mpr ⟨i, by simpa using hi⟩) hnew
      · rw [ht.id?_eq_some]
        apply exists_congr
        intro i
        split_ifs with hsize
        · have hnone : t.names[i]? = none := by simp [hsize]
          simp [hnone, h]
        · rfl

theorem internAll (names : List String) : (t.internAll names).Lawful := by
  induction names generalizing t with
  | nil => exact ht
  | cons name names ih => exact ih (ht.intern name)

theorem toList_names_intern (name : String) :
    (t.intern name).2.names.toList =
      if name ∈ t.names.toList then t.names.toList else t.names.toList ++ [name] := by
  rw [names_intern, apply_ite Array.toList, Array.toList_push]
  simp only [ht.id?_eq_none, ite_not]

/-- Names are stored in the order in which they first come. -/
theorem toList_names_internAll (names : List String) :
    (t.internAll names).names.toList = (t.names.toList ++ names).eraseDups := by
  induction names generalizing t with
  | nil => simp [ht.nodup.eraseDups_eq]
  | cons name names ih =>
    rw [internAll_cons, ih (ht.intern name), ht.toList_names_intern]
    split_ifs with h
    · rw [List.eraseDups_append, List.eraseDups_append, List.cons_removeAll]
      simp [h]
    · rw [List.append_assoc, List.singleton_append]

theorem mem_names_internAll {name : String} {names : List String} :
    name ∈ (t.internAll names).names.toList ↔ name ∈ t.names.toList ∨ name ∈ names := by
  rw [ht.toList_names_internAll, List.mem_eraseDups, List.mem_append]

/-- Without wrapping, ids and names determine each other. -/
theorem id?_eq_some_iff (hsize : t.size ≤ UInt32.size) {name : String} {id : SymbolId} :
    t.id? name = some id ↔ t.name? id = some name := by
  rw [ht.id?_eq_some, name?]
  constructor
  · rintro ⟨i, hi, rfl⟩
    have hlt : i < UInt32.size := (Array.getElem?_eq_some_iff.mp hi).1.trans_le hsize
    rwa [UInt32.toNat_ofNat_of_lt' hlt]
  · intro h
    exact ⟨id.toNat, h, UInt32.ofNat_toNat⟩

theorem eq_of_id? (hsize : t.size ≤ UInt32.size) {name other : String} {id : SymbolId}
    (h : t.id? name = some id) (hother : t.id? other = some id) : name = other := by
  rw [ht.id?_eq_some_iff hsize] at h hother
  exact Option.some.inj (h.symm.trans hother)

end Lawful

theorem toList_names_internAll_empty (names : List String) :
    ((∅ : SymbolTable).internAll names).names.toList = names.eraseDups := by
  rw [lawful_empty.toList_names_internAll, names_empty, List.nil_append]

theorem mem_names_internAll_empty {name : String} {names : List String} :
    name ∈ ((∅ : SymbolTable).internAll names).names.toList ↔ name ∈ names := by
  rw [toList_names_internAll_empty, List.mem_eraseDups]

/-- The id of a name is its rank in the order in which the names first come. -/
theorem id?_internAll_eq_some_iff {names : List String}
    (hsize : ((∅ : SymbolTable).internAll names).size < UInt32.size) {name : String}
    {id : SymbolId} :
    ((∅ : SymbolTable).internAll names).id? name = some id ↔
      names.eraseDups[id.toNat]? = some name := by
  rw [(lawful_empty.internAll names).id?_eq_some_iff hsize.le, name?, ← Array.getElem?_toList,
    toList_names_internAll_empty]

theorem size_internAll (names : List String) :
    ((∅ : SymbolTable).internAll names).size = names.dedup.length := by
  have hlawful := lawful_empty.internAll names
  have hperm : ((∅ : SymbolTable).internAll names).names.toList.Perm names.dedup := by
    rw [List.perm_ext_iff_of_nodup hlawful.nodup names.nodup_dedup]
    intro name
    rw [mem_names_internAll_empty, List.mem_dedup]
  rw [size, ← Array.length_toList, hperm.length_eq]

theorem mem_toList {t : SymbolTable} {name : String} {id : SymbolId} :
    (id, name) ∈ t.toList ↔ ∃ i, t.names[i]? = some name ∧ UInt32.ofNat i = id := by
  simp only [toList, List.mem_map, Prod.exists, List.mem_zipIdx_iff_getElem?, Prod.mk.injEq,
    Array.getElem?_toList]
  constructor
  · intro h
    obtain ⟨other, i, hi, rfl, rfl⟩ := h
    exact ⟨i, hi, rfl⟩
  · rintro ⟨i, hi, rfl⟩
    exact ⟨name, i, hi, rfl, rfl⟩

theorem map_fst_toList (t : SymbolTable) :
    t.toList.map Prod.fst = (List.range t.size).map UInt32.ofNat := by
  apply List.ext_getElem?
  intro i
  by_cases hi : i < t.names.size <;>
    simp [toList, size, hi]

theorem nodup_toList_fst {t : SymbolTable} (hsize : t.size ≤ UInt32.size) :
    (t.toList.map Prod.fst).Nodup := by
  rw [map_fst_toList]
  refine List.Nodup.map_on ?_ List.nodup_range
  intro i hi j hj hij
  rw [List.mem_range] at hi hj
  have hplace := congrArg UInt32.toNat hij
  rwa [UInt32.toNat_ofNat_of_lt' (hi.trans_le hsize),
    UInt32.toNat_ofNat_of_lt' (hj.trans_le hsize)] at hplace

end PhraseStructure.SymbolTable
