import Mathlib.Tactic

/-!
# Computations that may fail

What it means that a computation composed of others succeeds.
-/

theorem List.Forall₂.exists_of_mem {α β : Type} {R : α → β → Prop} {as : List α} {bs : List β}
    (h : List.Forall₂ R as bs) {b : β} (hb : b ∈ bs) : ∃ a ∈ as, R a b := by
  induction h with
  | nil => exact absurd hb List.not_mem_nil
  | @cons a b' as bs hab _ ih =>
    rcases List.mem_cons.mp hb with rfl | hb
    · exact ⟨a, List.mem_cons_self, hab⟩
    · obtain ⟨a', ha', hb⟩ := ih hb
      exact ⟨a', List.mem_cons_of_mem _ ha', hb⟩

namespace Except

variable {ε ε' α β σ : Type}

theorem bind_eq_ok {x : Except ε α} {f : α → Except ε β} {b : β} :
    (x >>= f) = .ok b ↔ ∃ a, x = .ok a ∧ f a = .ok b := by
  cases x <;> simp [bind, Except.bind]

theorem bind_eq_error {x : Except ε α} {f : α → Except ε β} {e : ε} :
    (x >>= f) = .error e ↔ x = .error e ∨ ∃ a, x = .ok a ∧ f a = .error e := by
  cases x <;> simp [bind, Except.bind]

theorem map_eq_ok {x : Except ε α} {f : α → β} {b : β} :
    x.map f = .ok b ↔ ∃ a, x = .ok a ∧ f a = b := by
  cases x <;> simp [Except.map]

theorem map_eq_error {x : Except ε α} {f : α → β} {e : ε} : x.map f = .error e ↔ x = .error e := by
  cases x <;> simp [Except.map]

theorem mapError_eq_ok {x : Except ε α} {f : ε → ε'} {a : α} :
    x.mapError f = .ok a ↔ x = .ok a := by
  cases x <;> simp [Except.mapError]

theorem mapM_eq_ok {f : α → Except ε β} {as : List α} {bs : List β} :
    as.mapM f = .ok bs ↔ List.Forall₂ (fun a b => f a = .ok b) as bs := by
  induction as generalizing bs with
  | nil => cases bs <;> simp [pure, Except.pure]
  | cons a as ih =>
    simp only [List.mapM_cons, bind_eq_ok, ih, List.forall₂_cons_left_iff]
    constructor
    · rintro ⟨b, hb, bs, hbs, h⟩
      exact ⟨b, bs, hb, hbs, (Except.ok.inj h).symm⟩
    · rintro ⟨b, bs, hb, hbs, rfl⟩
      exact ⟨b, hb, bs, hbs, rfl⟩

theorem exists_of_mem_mapM {f : α → Except ε β} {as : List α} {bs : List β}
    (h : as.mapM f = .ok bs) {b : β} (hb : b ∈ bs) : ∃ a ∈ as, f a = .ok b :=
  (mapM_eq_ok.mp h).exists_of_mem hb

theorem exists_mapM_eq_ok {f : α → Except ε β} {as : List α} :
    (∃ bs, as.mapM f = .ok bs) ↔ ∀ a ∈ as, ∃ b, f a = .ok b := by
  simp only [mapM_eq_ok]
  induction as with
  | nil => simp
  | cons a as ih =>
    rw [List.forall_mem_cons, ← ih]
    simp [List.forall₂_cons_left_iff]

theorem foldlM_invariant {f : σ → α → Except ε σ} {P : σ → Prop} {as : List α}
    (hstep : ∀ s s' a, a ∈ as → P s → f s a = .ok s' → P s') {s s' : σ} (hs : P s)
    (h : as.foldlM f s = .ok s') : P s' := by
  induction as generalizing s with
  | nil => exact Except.ok.inj h ▸ hs
  | cons a as ih =>
    rw [List.foldlM_cons, bind_eq_ok] at h
    obtain ⟨t, ht, h⟩ := h
    refine ih ?_ (hstep s t a List.mem_cons_self hs ht) h
    intro u u' b hb
    exact hstep u u' b (List.mem_cons_of_mem _ hb)

theorem exists_of_foldlM_eq_error {f : σ → α → Except ε σ} {as : List α} {s : σ} {e : ε}
    (h : as.foldlM f s = .error e) : ∃ s', ∃ a ∈ as, f s' a = .error e := by
  induction as generalizing s with
  | nil => cases h
  | cons a as ih =>
    rw [List.foldlM_cons, bind_eq_error] at h
    rcases h with h | ⟨t, -, h⟩
    · exact ⟨s, a, List.mem_cons_self, h⟩
    · obtain ⟨s', b, hb, hfail⟩ := ih h
      exact ⟨s', b, List.mem_cons_of_mem _ hb, hfail⟩

theorem mapM_eq_error {f : α → Except ε β} {error? : α → Option ε} {as : List α}
    (herror : ∀ a ∈ as, ∀ e, f a = .error e ↔ error? a = some e) {e : ε} :
    as.mapM f = .error e ↔ as.findSome? error? = some e := by
  induction as with
  | nil => simp [pure, Except.pure]
  | cons a as ih =>
    obtain ⟨ha, has⟩ := List.forall_mem_cons.mp herror
    rw [List.mapM_cons, bind_eq_error, List.findSome?_cons, ha]
    simp only [bind_eq_error, ih has, pure, Except.pure, reduceCtorEq, and_false, exists_false,
      or_false]
    cases hfirst : error? a with
    | some e' =>
      have hfail := (ha e').mpr hfirst
      simp [hfail]
    | none =>
      cases hf : f a with
      | ok b => simp
      | error e' => simp [(ha e').mp hf] at hfirst

/-- A run fails with the error of its first step that fails, if what decides about a step does not
change on the way. -/
theorem foldlM_eq_error {f : σ → α → Except ε σ} {P : σ → Prop} {error? : α → Option ε}
    {as : List α} (hstep : ∀ s s' a, P s → f s a = .ok s' → P s')
    (herror : ∀ s a, P s → ∀ e, f s a = .error e ↔ error? a = some e) {s : σ} (hs : P s) {e : ε} :
    as.foldlM f s = .error e ↔ as.findSome? error? = some e := by
  induction as generalizing s with
  | nil => simp [pure, Except.pure]
  | cons a as ih =>
    rw [List.foldlM_cons, bind_eq_error, List.findSome?_cons, herror s a hs]
    cases hfirst : error? a with
    | some e' =>
      have hfail := (herror s a hs e').mpr hfirst
      simp [hfail]
    | none =>
      cases hf : f s a with
      | ok s' => simpa using ih (hstep s s' a hs hf)
      | error e' => simp [(herror s a hs e').mp hf] at hfirst

theorem toOption_eq_some {x : Except ε α} {a : α} : x.toOption = some a ↔ x = .ok a := by
  cases x <;> simp [Except.toOption]

theorem eq_ok_get {x : Except ε α} (h : x.toOption.isSome = true) : x = .ok (x.toOption.get h) := by
  cases x with
  | error e => cases h
  | ok a => rfl

end Except
