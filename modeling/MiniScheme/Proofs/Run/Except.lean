import Mathlib.Data.List.Forall2

/-! Results and failures of computations without a store, taken apart. -/

namespace MiniScheme

variable {α β ε ε' : Type} {x : Except ε α}

theorem bind_eq_ok {f : α → Except ε β} {b : β} :
    x >>= f = .ok b ↔ ∃ a, x = .ok a ∧ f a = .ok b := by
  cases x <;> simp [bind, Except.bind]

theorem bind_eq_error {f : α → Except ε β} {e : ε} :
    x >>= f = .error e ↔ x = .error e ∨ ∃ a, x = .ok a ∧ f a = .error e := by
  cases x <;> simp [bind, Except.bind]

theorem pure_eq_ok {a b : α} : (pure a : Except ε α) = .ok b ↔ a = b := by
  simp [pure, Except.pure]

theorem pure_ne_error {a : α} {e : ε} : (pure a : Except ε α) ≠ .error e := nofun

theorem map_eq_ok {f : α → β} {b : β} : x.map f = .ok b ↔ ∃ a, x = .ok a ∧ f a = b := by
  cases x <;> simp [Except.map]

theorem map_eq_error {f : α → β} {e : ε} : x.map f = .error e ↔ x = .error e := by
  cases x <;> simp [Except.map]

theorem mapError_eq_ok {f : ε → ε'} {a : α} : x.mapError f = .ok a ↔ x = .ok a := by
  cases x <;> simp [Except.mapError]

theorem mapError_eq_error {f : ε → ε'} {e : ε'} :
    x.mapError f = .error e ↔ ∃ d, x = .error d ∧ f d = e := by
  cases x <;> simp [Except.mapError]

theorem eq_mapM {f : α → Except ε β} {g : List α → Except ε (List β)} (hnil : g [] = .ok [])
    (hcons : ∀ a l, g (a :: l) = do let b ← f a; let bs ← g l; return b :: bs) (l : List α) :
    g l = l.mapM f := by
  induction l with
  | nil => exact hnil
  | cons a l ih => rw [hcons, List.mapM_cons, ih]

theorem mapM_eq_error {f : α → Except ε β} {l : List α} {e : ε} (h : l.mapM f = .error e) :
    ∃ a ∈ l, f a = .error e := by
  induction l with
  | nil => exact absurd h pure_ne_error
  | cons a l ih =>
    rw [List.mapM_cons, bind_eq_error] at h
    rcases h with h | ⟨b, _, h⟩
    · exact ⟨a, List.mem_cons_self, h⟩
    · rcases bind_eq_error.mp h with h | ⟨bs, _, h⟩
      · obtain ⟨a', ha', h⟩ := ih h
        exact ⟨a', List.mem_cons_of_mem a ha', h⟩
      · exact absurd h pure_ne_error

theorem mapM_eq_ok {f : α → Except ε β} {l : List α} {bs : List β} (h : l.mapM f = .ok bs) :
    List.Forall₂ (fun a b => f a = .ok b) l bs := by
  induction l generalizing bs with
  | nil =>
    obtain rfl := pure_eq_ok.mp h
    exact .nil
  | cons a l ih =>
    rw [List.mapM_cons] at h
    obtain ⟨b, hb, h⟩ := bind_eq_ok.mp h
    obtain ⟨cs, hcs, h⟩ := bind_eq_ok.mp h
    obtain rfl := pure_eq_ok.mp h
    exact .cons hb (ih hcs)

theorem foldlM_eq_error_iff {f : β → α → Except ε β} {l : List α} {b : β} {e : ε} :
    l.foldlM f b = .error e ↔
      ∃ front a rest c, l = front ++ a :: rest ∧ front.foldlM f b = .ok c ∧ f c a = .error e := by
  constructor
  · intro h
    induction l generalizing b with
    | nil => exact absurd h pure_ne_error
    | cons a l ih =>
      rw [List.foldlM_cons, bind_eq_error] at h
      rcases h with h | ⟨c, hc, h⟩
      · exact ⟨[], a, l, b, rfl, rfl, h⟩
      · obtain ⟨front, a', rest, d, rfl, hd, h⟩ := ih h
        refine ⟨a :: front, a', rest, d, rfl, ?_, h⟩
        rw [List.foldlM_cons, hc]
        exact hd
  · rintro ⟨front, a, rest, c, rfl, hc, h⟩
    have hstops : (a :: rest).foldlM f c = .error e := by
      rw [List.foldlM_cons]
      exact bind_eq_error.mpr (.inl h)
    rw [List.foldlM_append]
    exact bind_eq_error.mpr (.inr ⟨c, hc, hstops⟩)

theorem foldlM_eq_error {f : β → α → Except ε β} {l : List α} {b : β} {e : ε}
    (h : l.foldlM f b = .error e) : ∃ c, ∃ a ∈ l, f c a = .error e := by
  obtain ⟨front, a, rest, c, rfl, _, h⟩ := foldlM_eq_error_iff.mp h
  exact ⟨c, a, List.mem_append_right front List.mem_cons_self, h⟩

end MiniScheme
