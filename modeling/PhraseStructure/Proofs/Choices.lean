import Mathlib.Tactic

/-!
# Choices and runs

A choice takes one element from each of several lists. All choices come in the order of an odometer,
the element of the last list changing fastest. A run is what repeated steps go through; runs over
the elements of each list make up a run over the choices.
-/

namespace PhraseStructure

variable {α β γ : Type}

/-- The lists of one element from each list. -/
def choices : List (List α) → List (List α)
  | [] => [[]]
  | as :: rest => as.flatMap fun a => (choices rest).map (a :: ·)

theorem mem_choices {ls : List (List α)} {as : List α} :
    as ∈ choices ls ↔ List.Forall₂ (fun a l => a ∈ l) as ls := by
  induction ls generalizing as with
  | nil => rw [choices, List.mem_singleton, List.forall₂_nil_right_iff]
  | cons l ls ih =>
    rw [choices, List.mem_flatMap, List.forall₂_cons_right_iff]
    constructor
    · intro h
      obtain ⟨a, ha, has⟩ := h
      obtain ⟨rest, hrest, rfl⟩ := List.mem_map.mp has
      exact ⟨a, rest, ha, ih.mp hrest, rfl⟩
    · rintro ⟨a, rest, ha, hrest, rfl⟩
      exact ⟨a, ha, List.mem_map_of_mem (ih.mpr hrest)⟩

theorem forall₂_of_mem_choices {f : α → List β} {R : β → α → Prop} {xs : List α} {bs : List β}
    (h : bs ∈ choices (xs.map f)) (hR : ∀ x ∈ xs, ∀ b ∈ f x, R b x) : List.Forall₂ R bs xs := by
  have hall := List.forall₂_map_right_iff.mp (mem_choices.mp h)
  clear h
  induction hall with
  | nil => exact .nil
  | cons hb _ ih =>
    obtain ⟨hx, hxs⟩ := List.forall_mem_cons.mp hR
    exact .cons (hx _ hb) (ih hxs)

theorem map_eq_map_of_forall₂ {f : α → γ} {g : β → γ} {as : List α} {bs : List β}
    (h : List.Forall₂ (fun a b => f a = g b) as bs) : as.map f = bs.map g := by
  rw [← List.forall₂_eq_eq_eq, List.forall₂_map_left_iff, List.forall₂_map_right_iff]
  exact h

theorem length_choices (ls : List (List α)) : (choices ls).length = (ls.map List.length).prod := by
  induction ls with
  | nil => rfl
  | cons l ls ih =>
    rw [choices, List.map_cons, List.prod_cons, List.length_flatMap]
    simp [ih]

theorem map_choices (f : α → β) (ls : List (List α)) :
    (choices ls).map (List.map f) = choices (ls.map (List.map f)) := by
  induction ls with
  | nil => rfl
  | cons l ls ih =>
    rw [List.map_cons, choices, choices, ← ih, List.map_flatMap, List.flatMap_map]
    simp only [List.map_map]
    rfl

theorem head?_choices {f : α → List β} {first : α → β} {as : List α}
    (h : ∀ a ∈ as, (f a).head? = some (first a)) :
    (choices (as.map f)).head? = some (as.map first) := by
  induction as with
  | nil => rfl
  | cons a as ih =>
    obtain ⟨ha, has⟩ := List.forall_mem_cons.mp h
    obtain ⟨rest, hrest⟩ := List.head?_eq_some_iff.mp ha
    obtain ⟨more, hmore⟩ := List.head?_eq_some_iff.mp (ih has)
    rw [List.map_cons, choices, hrest, List.flatMap_cons, hmore]
    rfl

theorem count_choices_cons [DecidableEq α] (a : α) (as l : List α) (ls : List (List α)) :
    (choices (l :: ls)).count (a :: as) = l.count a * (choices ls).count as := by
  rw [choices, List.count_flatMap]
  induction l with
  | nil => simp
  | cons b l ih =>
    rw [List.map_cons, List.sum_cons, ih, List.count_cons]
    by_cases h : b = a
    · subst h
      have hinjective : Function.Injective (List.cons b) := List.cons_injective
      rw [Function.comp_apply, List.count_map_of_injective _ _ hinjective]
      simp only [beq_self_eq_true, if_true]
      ring
    · have hnone : ((choices ls).map (b :: ·)).count (a :: as) = 0 := by
        rw [List.count_eq_zero]
        intro hmem
        obtain ⟨_, -, heq⟩ := List.mem_map.mp hmem
        exact h (List.cons.inj heq).1
      rw [Function.comp_apply, hnone]
      simp [h]

/-- How often the choices have a list is the product of how often the lists have its elements. -/
theorem count_choices [DecidableEq β] {f : α → List β} {m : β → Nat} {bs : List β} {as : List α}
    (h : List.Forall₂ (fun b a => (f a).count b = m b) bs as) :
    (choices (as.map f)).count bs = (bs.map m).prod := by
  induction h with
  | nil => rfl
  | cons hb _ ih => rw [List.map_cons, count_choices_cons, hb, ih, List.map_cons, List.prod_cons]

/-- A step leads from each element of a list to the one after it, and from the last to `after`. -/
inductive Runs (step : α → Option α) (after : Option α) : List α → Prop
  | nil : Runs step after []
  | cons {a : α} {as : List α} :
      step a = as.head?.or after → Runs step after as → Runs step after (a :: as)

namespace Runs

variable {step : α → Option α} {after : Option α} {after' : Option β} {as bs : List α}

theorem append (has : Runs step (bs.head?.or after) as) (hbs : Runs step after bs) :
    Runs step after (as ++ bs) := by
  induction has with
  | nil => exact hbs
  | @cons a as hstep _ ih =>
    refine .cons ?_ ih
    rw [hstep, List.append_eq, List.head?_append, Option.or_assoc]

/-- A run is carried over by a map that carries over its steps. Where it ends, the steps of the
image may go on to `after`. -/
theorem map {step' : β → Option β} {f : α → β} (h : Runs step none as)
    (hstep : ∀ a ∈ as, step' (f a) = ((step a).map f).or after') :
    Runs step' after' (as.map f) := by
  induction h with
  | nil => exact .nil
  | @cons a as ha _ ih =>
    obtain ⟨hstepa, hstepas⟩ := List.forall_mem_cons.mp hstep
    refine .cons ?_ (ih hstepas)
    rw [hstepa, ha, Option.or_none, List.head?_map]

theorem tail {a : α} (h : Runs step after (a :: as)) : Runs step after as := by
  cases h with
  | cons _ hrest => exact hrest

theorem of_append (h : Runs step after (as ++ bs)) : Runs step after bs := by
  induction as with
  | nil => exact h
  | cons a as ih => exact ih h.tail

theorem head?_eq {a : α} (h : Runs step none (a :: as)) : as.head? = step a := by
  cases h with
  | cons hstep _ => rw [hstep, Option.or_none]

/-- What a run goes through after an element depends on the element alone. -/
theorem unique {a : α} (has : Runs step none (a :: as)) (hbs : Runs step none (a :: bs)) :
    as = bs := by
  have hhead : as.head? = bs.head? := has.head?_eq.trans hbs.head?_eq.symm
  induction as generalizing a bs with
  | nil => exact (List.head?_eq_none_iff.mp hhead.symm).symm
  | cons a' as ih =>
    obtain ⟨bs, rfl⟩ := List.head?_eq_some_iff.mp hhead.symm
    rw [ih has.tail hbs.tail (has.tail.head?_eq.trans hbs.tail.head?_eq.symm)]

theorem nodup (h : Runs step none as) : as.Nodup := by
  induction as with
  | nil => exact List.nodup_nil
  | cons a as ih =>
    refine List.nodup_cons.mpr ⟨fun hmem => ?_, ih h.tail⟩
    -- If the element came again, the same elements would have to follow it as before.
    obtain ⟨before, after, rfl⟩ := List.append_of_mem hmem
    have hsame := h.unique h.tail.of_append
    have hlength := congrArg List.length hsame
    simp only [List.length_append, List.length_cons] at hlength
    omega

theorem step_eq (h : Runs step none as) {i : Nat} {a : α} (ha : as[i]? = some a) :
    step a = as[i + 1]? := by
  induction as generalizing i with
  | nil => cases ha
  | cons b as ih =>
    cases i with
    | zero =>
      obtain rfl := Option.some.inj ha
      rw [← h.head?_eq, List.head?_eq_getElem?]
      rfl
    | succ i => exact ih h.tail ha

end Runs

end PhraseStructure
