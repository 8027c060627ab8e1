import MiniScheme.Proofs.Store.Reach

/-! The frames that are made from some time on. They are inside one another, so a lookup from one of
them finds nothing but what they bind. -/

namespace MiniScheme
namespace Store

/-- The frames from `base` on are inside one another, and what they bind is made of what has `P`. -/
structure Enclosed (base : Address) (P : Value → Prop) (s : Store) : Prop where
  le_fresh : base ≤ s.fresh
  enclosing : ∀ {a b : Address}, base ≤ a → s.enclosing? a = some b → base ≤ b
  bound : ∀ {a : Address} {name : String} {v : Value}, base ≤ a → s.local? a name = some v →
    v.Every P

variable {P : Value → Prop} {base a b : Address} {s t : Store} {name : String} {v : Value}

theorem Enclosed.of_frames_eq (h : s.Enclosed base P) (hframes : t.frames = s.frames) :
    t.Enclosed base P where
  le_fresh := by
    unfold fresh
    rw [hframes]
    exact h.le_fresh
  enclosing ha hlink := by
    unfold enclosing? at hlink
    rw [hframes] at hlink
    exact h.enclosing ha hlink
  bound ha hlocal := by
    unfold local? at hlocal
    rw [hframes] at hlocal
    exact h.bound ha hlocal

theorem Enclosed.leads (h : s.Enclosed base P) (ha : base ≤ a) (hleads : s.Leads a b) :
    base ≤ b := by
  induction hleads with
  | refl => exact ha
  | tail _ hlink ih => exact h.enclosing ih hlink

theorem Enclosed.lookup? (h : s.Enclosed base P) (ha : base ≤ a)
    (hv : s.lookup? a name = some v) : v.Every P := by
  obtain ⟨b, hleads, hlocal⟩ := leads_of_lookup? hv
  exact h.bound (h.leads ha hleads) hlocal

theorem Enclosed.define (h : s.Enclosed base P) (hv : v.Every P) (a : Address) (name : String) :
    (s.define a name v).Enclosed base P where
  le_fresh := by
    rw [fresh_define]
    exact h.le_fresh
  enclosing hb hlink := by
    rw [enclosing?_define] at hlink
    exact h.enclosing hb hlink
  bound hb hlocal := by
    rcases local?_define_eq_some hlocal with ⟨_, rfl⟩ | hlocal
    · exact hv
    · exact h.bound hb hlocal

theorem Enclosed.assign (h : s.Enclosed base P) (hv : v.Every P) (a : Address) (name : String) :
    (s.assign a name v).2.Enclosed base P := by
  rcases s.assign_eq a name v with heq | ⟨b, _, heq⟩
  · rw [heq]
    exact h
  · rw [heq]
    exact h.define hv b name

theorem Enclosed.alloc (h : s.Enclosed base P) {f : Frame}
    (henclosing : ∀ b, f.enclosing = some b → base ≤ b)
    (hbound : ∀ name v, f.get? name = some v → v.Every P) : (s.alloc f).Enclosed base P where
  le_fresh := h.le_fresh.trans (s.fresh_lt_alloc f).le
  enclosing ha hlink := by
    rw [enclosing?_alloc] at hlink
    split at hlink
    · exact henclosing _ hlink
    · exact h.enclosing ha hlink
  bound ha hlocal := by
    rw [local?_alloc] at hlocal
    split at hlocal
    · exact hbound _ _ hlocal
    · exact h.bound ha hlocal

theorem Enclosed.call (h : s.Enclosed base P) {params : List String} {args : List Value}
    (ha : base ≤ a) (hargs : ∀ v ∈ args, v.Every P) :
    (s.alloc (Frame.ofArguments params args a)).Enclosed base P := by
  refine h.alloc (fun b hb => ?_) fun name v hv => hargs v (Frame.mem_of_get?_ofArguments hv)
  exact Option.some.inj hb ▸ ha

theorem enclosed_fresh (P : Value → Prop) (s : Store) : s.Enclosed s.fresh P where
  le_fresh := Nat.le_refl _
  enclosing ha hlink := absurd (lt_fresh_of_enclosing? hlink) (Nat.not_lt_of_le ha)
  bound ha hlocal := absurd (lt_fresh_of_local? hlocal) (Nat.not_lt_of_le ha)

theorem enclosed_newGlobal (hP : ∀ op home, P (.primitive op home)) (s : Store) :
    (s.alloc (globalFrame s.fresh)).Enclosed s.fresh P := by
  refine (enclosed_fresh P s).alloc (fun _ h => nomatch h) fun name v hv => ?_
  obtain ⟨op, rfl⟩ := eq_primitive_of_globalFrame hv
  exact Value.every_primitive.mpr (hP op _)

end Store
end MiniScheme
