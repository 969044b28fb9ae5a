import Mathlib.Data.List.Forall2

/-!
# Steps that may fail

What is known of the steps when all of them together gave a result, or an error.
-/

namespace AccessPolicy

variable {α β ε ε' : Type}

theorem bind_eq_ok {x : Except ε α} {f : α → Except ε β} {b : β} :
    x >>= f = .ok b ↔ ∃ a, x = .ok a ∧ f a = .ok b := by
  cases x with
  | error e =>
    constructor
    · intro h
      cases h
    · rintro ⟨_, h, -⟩
      cases h
  | ok a =>
    constructor
    · intro h
      exact ⟨a, rfl, h⟩
    · rintro ⟨_, h, h'⟩
      cases h
      exact h'

/-- What comes after a step matters only if the step gave a result. -/
theorem bind_congr_of_ok {x : Except ε α} {f g : α → Except ε β} (h : ∀ a, x = .ok a → f a = g a) :
    x >>= f = x >>= g := by
  cases x with
  | error e => rfl
  | ok a => exact h a rfl

theorem exists_eq_error_iff {x : Except ε α} : (∃ e, x = .error e) ↔ ¬∃ a, x = .ok a := by
  cases x <;> simp

theorem mapError_eq_ok {x : Except ε α} {f : ε → ε'} {a : α} : x.mapError f = .ok a ↔ x = .ok a := by
  cases x <;> simp [Except.mapError]

theorem bind_eq_error {x : Except ε α} {f : α → Except ε β} {e : ε} :
    x >>= f = .error e ↔ x = .error e ∨ ∃ a, x = .ok a ∧ f a = .error e := by
  cases x with
  | error d =>
    constructor
    · intro h
      cases h
      exact .inl rfl
    · rintro (h | ⟨_, h, -⟩)
      · cases h
        rfl
      · cases h
  | ok a =>
    constructor
    · intro h
      exact .inr ⟨a, rfl, h⟩
    · rintro (h | ⟨_, h, h'⟩)
      · cases h
      · cases h
        exact h'

theorem mapError_eq_error {x : Except ε α} {f : ε → ε'} {e : ε'} :
    x.mapError f = .error e ↔ ∃ d, x = .error d ∧ f d = e := by
  cases x <;> simp [Except.mapError]

section

variable {x : Except ε α} {xs : Except ε (List α)} {f : α → β} {e : ε}

theorem map_isOk : (∃ b, (x >>= fun a => pure (f a)) = .ok b) ↔ ∃ a, x = .ok a := by
  cases x with
  | error e => simp [bind, Except.bind]
  | ok a => exact iff_of_true ⟨f a, rfl⟩ ⟨a, rfl⟩

theorem map_eq_error : (x >>= fun a => pure (f a)) = .error e ↔ x = .error e := by
  rw [bind_eq_error, or_iff_left]
  rintro ⟨_, -, h⟩
  cases h

theorem cons_isOk : (∃ as, (x >>= fun a => xs >>= fun as => pure (a :: as)) = .ok as) ↔
    (∃ a, x = .ok a) ∧ ∃ as, xs = .ok as := by
  constructor
  · rintro ⟨_, h⟩
    obtain ⟨a, ha, h⟩ := bind_eq_ok.1 h
    exact ⟨⟨a, ha⟩, map_isOk.1 ⟨_, h⟩⟩
  · rintro ⟨⟨a, rfl⟩, has⟩
    exact map_isOk.2 has

theorem cons_eq_error : (x >>= fun a => xs >>= fun as => pure (a :: as)) = .error e ↔
    x = .error e ∨ (∃ a, x = .ok a) ∧ xs = .error e := by
  simp only [bind_eq_error (x := x), map_eq_error, exists_and_right]

end

/-- The error is that of the first item that cannot be taken. -/
theorem foldlM_eq_error {f : β → α → Except ε β} {items : List α} {b : β} {e : ε} :
    items.foldlM f b = .error e ↔ ∃ before a after b', items = before ++ a :: after ∧
      before.foldlM f b = .ok b' ∧ f b' a = .error e := by
  induction items generalizing b with
  | nil =>
    refine iff_of_false nofun ?_
    rintro ⟨before, a, after, b', h, -⟩
    simp at h
  | cons a items ih =>
    rw [List.foldlM_cons, bind_eq_error]
    constructor
    · rintro (ha | ⟨b₁, ha, h⟩)
      · exact ⟨[], a, items, b, rfl, rfl, ha⟩
      · obtain ⟨before, x, after, b', rfl, hbefore, hx⟩ := ih.1 h
        refine ⟨a :: before, x, after, b', rfl, ?_, hx⟩
        rw [List.foldlM_cons, ha]
        exact hbefore
    · rintro ⟨before, x, after, b', h, hbefore, hx⟩
      cases before with
      | nil =>
        cases h
        cases hbefore
        exact .inl hx
      | cons y before =>
        cases h
        rw [List.foldlM_cons] at hbefore
        obtain ⟨b₁, ha, hbefore⟩ := bind_eq_ok.1 hbefore
        exact .inr ⟨b₁, ha, ih.2 ⟨before, x, after, b', rfl, hbefore, hx⟩⟩

/-- Item by item. -/
theorem forall₂_of_mapM_eq_ok {f : α → Except ε β} {items : List α} {results : List β}
    (h : items.mapM f = .ok results) : List.Forall₂ (fun a b => f a = .ok b) items results := by
  induction items generalizing results with
  | nil =>
    cases h
    exact .nil
  | cons a items ih =>
    rw [List.mapM_cons] at h
    obtain ⟨b, hb, h⟩ := bind_eq_ok.1 h
    obtain ⟨rest, hrest, h⟩ := bind_eq_ok.1 h
    cases h
    exact .cons hb (ih hrest)

/-- Some item has the one property, and all items before it have the other. -/
def First (before here : α → Prop) (items : List α) : Prop :=
  ∃ earlier a later, items = earlier ++ a :: later ∧ (∀ x ∈ earlier, before x) ∧ here a

variable {before here : α → Prop}

theorem first_nil : ¬First before here [] := by
  rintro ⟨earlier, a, later, h, -⟩
  simp at h

theorem first_cons {a : α} {items : List α} :
    First before here (a :: items) ↔ here a ∨ before a ∧ First before here items := by
  constructor
  · rintro ⟨earlier, x, later, h, hearlier, hx⟩
    cases earlier with
    | nil =>
      cases h
      exact .inl hx
    | cons y earlier =>
      cases h
      exact .inr ⟨hearlier _ List.mem_cons_self, earlier, x, later, rfl,
        fun z hz => hearlier z (List.mem_cons_of_mem _ hz), hx⟩
  · rintro (ha | ⟨ha, earlier, x, later, rfl, hearlier, hx⟩)
    · exact ⟨[], a, items, rfl, nofun, ha⟩
    · refine ⟨a :: earlier, x, later, rfl, ?_, hx⟩
      intro y hy
      rcases List.mem_cons.1 hy with rfl | hy
      · exact ha
      · exact hearlier y hy

theorem first_congr {before' here' : α → Prop} {items : List α} (hbefore : ∀ a, before a ↔ before' a)
    (hhere : ∀ a, here a ↔ here' a) : First before here items ↔ First before' here' items := by
  simp only [First, hbefore, hhere]

theorem mapM_isOk {f : α → Except ε β} {items : List α} :
    (∃ results, items.mapM f = .ok results) ↔ ∀ a ∈ items, ∃ b, f a = .ok b := by
  induction items with
  | nil => simpa using ⟨[], rfl⟩
  | cons a items ih => rw [List.forall_mem_cons, ← ih, List.mapM_cons, cons_isOk]

/-- The error is that of the first item that has one. -/
theorem mapM_eq_error {f : α → Except ε β} {items : List α} {e : ε} :
    items.mapM f = .error e ↔ First (fun a => ∃ b, f a = .ok b) (fun a => f a = .error e) items := by
  induction items with
  | nil =>
    refine iff_of_false ?_ first_nil
    intro h
    cases h
  | cons a items ih => rw [List.mapM_cons, cons_eq_error, first_cons, ih]

end AccessPolicy
