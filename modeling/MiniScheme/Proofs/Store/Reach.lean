import MiniScheme.Proofs.Store.Every
import MiniScheme.Proofs.Store.Extends
import MiniScheme.Proofs.Store.Links
import MiniScheme.Proofs.Value.Leaves

/-! The frames that a frame or a value reaches, along links and through the closures that are bound
in frames, also inside lists; and sets of frames that nothing leads out of. -/

namespace MiniScheme

def Value.MadeIn (R : Address → Prop) (v : Value) : Prop := ∀ c, v = .closure c → R c.env

theorem Value.IsPlain.madeIn {R : Address → Prop} (v : Value) (h : v.IsPlain) : v.MadeIn R := by
  rintro c rfl
  exact h.elim

namespace Store

/-- The frame at the first address names the second: as the frame around it, or as the frame of a
closure in one of its bindings. -/
inductive Refers (s : Store) : Address → Address → Prop
  | enclosing {a b : Address} (h : s.enclosing? a = some b) : Refers s a b
  | closure {a : Address} {name : String} {v : Value} {c : Closure}
      (h : s.local? a name = some v) (hc : .closure c ∈ v.leaves) : Refers s a c.env

def Reaches (s : Store) : Address → Address → Prop := Relation.ReflTransGen s.Refers

def ReachesFrom (s : Store) (v : Value) (b : Address) : Prop :=
  ∃ c : Closure, .closure c ∈ v.leaves ∧ s.Reaches c.env b

def Closed (s : Store) (R : Address → Prop) : Prop := ∀ a b, R a → s.Refers a b → R b

variable {s t : Store} {R R' : Address → Prop} {a b : Address} {name : String} {v : Value}
  {f : Frame}

theorem closed_reaches (s : Store) (a : Address) : s.Closed (s.Reaches a) :=
  fun _ _ h href => h.tail href

theorem Closed.reaches (h : s.Closed R) (ha : R a) (hab : s.Reaches a b) : R b := by
  induction hab with
  | refl => exact ha
  | tail _ href ih => exact h _ _ ih href

theorem Closed.reachesFrom (h : s.Closed R) (hv : v.Every (Value.MadeIn R))
    (hb : s.ReachesFrom v b) : R b := by
  obtain ⟨c, hc, hreach⟩ := hb
  exact h.reaches (hv _ hc c rfl) hreach

theorem Closed.local? (h : s.Closed R) (ha : R a) (hv : s.local? a name = some v) :
    v.Every (Value.MadeIn R) := by
  rintro w hw c rfl
  exact h _ _ ha (.closure hv hw)

theorem closed_iff : s.Closed R ↔ ∀ a, R a →
    (∀ b, s.enclosing? a = some b → R b) ∧
      ∀ name v, s.local? a name = some v → v.Every (Value.MadeIn R) := by
  constructor
  · exact fun h a ha => ⟨fun b hb => h a b ha (.enclosing hb), fun name v hv => h.local? ha hv⟩
  · intro h a b ha href
    cases href with
    | enclosing hlink => exact (h a ha).1 b hlink
    | closure hv hc => exact (h a ha).2 _ _ hv _ hc _ rfl

theorem Closed.congr (h : s.Closed R) (hframes : ∀ a, R a → t.frames[a]? = s.frames[a]?) :
    t.Closed R := by
  rw [closed_iff] at h ⊢
  intro a ha
  unfold enclosing? Store.local? at h ⊢
  rw [hframes a ha]
  exact h a ha

theorem Closed.of_frames_eq (h : s.Closed R) (hframes : t.frames = s.frames) : t.Closed R :=
  h.congr fun _ _ => by rw [hframes]

theorem Closed.define (h : s.Closed R) (hv : v.Every (Value.MadeIn R)) (a : Address)
    (name : String) : (s.define a name v).Closed R := by
  refine closed_iff.mpr fun b hb => ⟨fun c hlink => ?_, fun other w hw => ?_⟩
  · rw [enclosing?_define] at hlink
    exact h b c hb (.enclosing hlink)
  · rcases local?_define_eq_some hw with ⟨_, rfl⟩ | hw
    · exact hv
    · exact h.local? hb hw

theorem Closed.alloc (h : s.Closed R) (hR : ∀ a, R' a ↔ R a ∨ a = s.fresh)
    (henclosing : ∀ b, f.enclosing = some b → R b)
    (hbindings : ∀ name v, f.get? name = some v → v.Every (Value.MadeIn R)) :
    (s.alloc f).Closed R' := by
  have hgrow : ∀ {v : Value}, v.Every (Value.MadeIn R) → v.Every (Value.MadeIn R') :=
    fun hv => hv.mono fun w hw c hc => (hR _).mpr (.inl (hw c hc))
  refine closed_iff.mpr fun a ha => ⟨fun b hlink => ?_, fun name v hv => ?_⟩
  · rw [enclosing?_alloc] at hlink
    split at hlink
    · exact (hR b).mpr (.inl (henclosing b hlink))
    · rename_i hne
      exact (hR b).mpr (.inl (h a b (((hR a).mp ha).resolve_right hne) (.enclosing hlink)))
  · rw [local?_alloc] at hv
    split at hv
    · exact hgrow (hbindings name v hv)
    · rename_i hne
      exact hgrow (h.local? (((hR a).mp ha).resolve_right hne) hv)

theorem Extends.fresh_le (h : s.Extends t) : s.fresh ≤ t.fresh := by
  refine Nat.le_of_not_lt fun hlt => ?_
  obtain ⟨g, hg, _⟩ := h.frames t.fresh _ (Array.getElem?_eq_getElem hlt)
  exact absurd (Array.getElem?_eq_some_iff.mp hg).1 (Nat.lt_irrefl _)

theorem eq_primitive_of_globalFrame {home : Address}
    (h : (globalFrame home).get? name = some v) : ∃ op, v = .primitive op home := by
  obtain ⟨op, _, hop⟩ := List.mem_map.mp (Frame.mem_of_get? h)
  exact ⟨op, (Prod.mk.inj hop).2.symm⟩

theorem closed_globalFrame {home : Address} (h : s.frames[a]? = some (globalFrame home)) :
    s.Closed (· = a) := by
  refine closed_iff.mpr fun b hb => ?_
  subst hb
  refine ⟨fun c hlink => ?_, fun name v hv => ?_⟩
  · rw [enclosing?_eq h] at hlink
    cases hlink
  · rw [local?_eq h] at hv
    obtain ⟨op, rfl⟩ := eq_primitive_of_globalFrame hv
    exact Value.every_primitive.mpr nofun

end Store

theorem Frame.mem_of_get?_ofArguments {params : List String} {args : List Value} {a : Address}
    {name : String} {v : Value} (h : (ofArguments params args a).get? name = some v) : v ∈ args :=
  mem_ofArguments (mem_of_get? h)

end MiniScheme
