import MiniScheme.Proofs.Eval.Frames
import MiniScheme.Proofs.Eval.Top
import MiniScheme.Proofs.Store.Reach

/-! The footprint of a run. It writes and hands out nothing but frames that its environment has
reached before, and frames that it has made itself. -/

namespace MiniScheme
namespace Store

def Grown (s : Store) (R : Address → Prop) (t : Store) (a : Address) : Prop :=
  R a ∨ s.fresh ≤ a ∧ a < t.fresh

/-- What has come out of `s` by work on the frames of `R` alone. -/
structure Confined (s : Store) (R : Address → Prop) (t : Store) : Prop where
  fresh_le : s.fresh ≤ t.fresh
  closed : t.Closed (s.Grown R t)
  frames_eq : ∀ a, ¬s.Grown R t a → t.frames[a]? = s.frames[a]?

variable {s t : Store} {R : Address → Prop} {a : Address} {name : String} {v : Value}

theorem grown_self (s : Store) (R : Address → Prop) (a : Address) : s.Grown R s a ↔ R a :=
  ⟨fun h => h.resolve_right fun h => Nat.not_lt_of_le h.1 h.2, .inl⟩

theorem Grown.mono {u : Store} (h : s.Grown R t a) (htu : t.fresh ≤ u.fresh) : s.Grown R u a :=
  h.imp_right fun h => ⟨h.1, Nat.lt_of_lt_of_le h.2 htu⟩

theorem grown_alloc (h : s.fresh ≤ t.fresh) (f : Frame) (a : Address) :
    s.Grown R (t.alloc f) a ↔ s.Grown R t a ∨ a = t.fresh := by
  have hfresh := t.fresh_alloc f
  constructor
  · rintro (ha | ⟨hle, hlt⟩)
    · exact .inl (.inl ha)
    · rw [hfresh] at hlt
      exact (Nat.lt_succ_iff_lt_or_eq.mp hlt).imp_left fun hlt => .inr ⟨hle, hlt⟩
  · rintro (ha | rfl)
    · exact ha.mono (hfresh ▸ Nat.le_succ _)
    · exact .inr ⟨h, hfresh ▸ Nat.lt_succ_self _⟩

theorem confined_self (h : s.Closed R) : s.Confined R s where
  fresh_le := Nat.le_refl _
  closed a b ha href := (grown_self s R b).mpr (h a b ((grown_self s R a).mp ha) href)
  frames_eq _ _ := rfl

theorem Confined.define (h : s.Confined R t) (ha : s.Grown R t a)
    (hv : v.Every (Value.MadeIn (s.Grown R t))) (name : String) :
    s.Confined R (t.define a name v) := by
  have hgrown : s.Grown R (t.define a name v) = s.Grown R t := by
    unfold Grown
    rw [fresh_define]
  refine ⟨?_, ?_, fun b hb => ?_⟩
  · exact (fresh_define t a name v).symm ▸ h.fresh_le
  · exact hgrown.symm ▸ h.closed.define hv a name
  · rw [hgrown] at hb
    have hne : b ≠ a := by
      rintro rfl
      exact hb ha
    rw [frames_define_of_ne hne]
    exact h.frames_eq b hb

theorem Confined.alloc (h : s.Confined R t) {f : Frame}
    (henclosing : ∀ b, f.enclosing = some b → s.Grown R t b)
    (hbindings : ∀ name v, f.get? name = some v → v.Every (Value.MadeIn (s.Grown R t))) :
    s.Confined R (t.alloc f) := by
  refine ⟨?_, h.closed.alloc (grown_alloc h.fresh_le f) henclosing hbindings, fun a ha => ?_⟩
  · exact Nat.le_trans h.fresh_le (t.fresh_alloc f ▸ Nat.le_succ _)
  · obtain ⟨hold, hnew⟩ := not_or.mp ((grown_alloc h.fresh_le f a).not.mp ha)
    rw [frames_alloc_of_ne hnew]
    exact h.frames_eq a hold

theorem Confined.of_frames_eq {u : Store} (h : s.Confined R t) (hframes : u.frames = t.frames) :
    s.Confined R u := by
  have hfresh : u.fresh = t.fresh := congrArg Array.size hframes
  have hgrown : s.Grown R u = s.Grown R t := by
    unfold Grown
    rw [hfresh]
  refine ⟨hfresh ▸ h.fresh_le, hgrown ▸ h.closed.of_frames_eq hframes, fun a ha => ?_⟩
  rw [hframes]
  exact h.frames_eq a (hgrown ▸ ha)

end Store

def Invariant.confined (s : Store) (R : Address → Prop) : Invariant where
  store := s.Confined R
  env t a := s.Grown R t a
  leaf t v := v.MadeIn (s.Grown R t)
  expr _ := True
  failure _ := True

namespace Invariant

theorem ofFrames_confined (s : Store) (R : Address → Prop) : (confined s R).OfFrames where
  env_extends h ha := ha.mono h.fresh_le
  leaf_extends h hv c hc := (hv c hc).mono h.fresh_le
  frames_eq ht hframes _ := ht.of_frames_eq hframes
  enclosing? ht ha h := ht.closed _ _ ha (.enclosing h)
  local? ht ha h := ht.closed.local? ha h
  define ht ha hv name := ht.define ha hv name
  plain h := Value.IsPlain.madeIn _ h
  closure _ ha _ _ _ hc := Value.closure.inj hc ▸ ha
  call ht hc hargs := by
    refine ⟨ht.alloc ?_ fun name v h => hargs v (Frame.mem_of_get?_ofArguments h), ?_⟩
    · exact fun b hb => Option.some.inj hb ▸ hc _ rfl
    · exact (Store.grown_alloc ht.fresh_le _ _).mpr (.inr rfl)

theorem lawful_confined (s : Store) (R : Address → Prop) : (confined s R).Lawful :=
  (ofFrames_confined s R).lawful (fun _ => trivial) fun _ => trivial

end Invariant

structure Store.Footprint (s : Store) (env : Address) (t : Store) : Prop where
  frames_eq : ∀ a, a < s.fresh → ¬s.Reaches env a → t.frames[a]? = s.frames[a]?
  reaches : ∀ a, t.Reaches env a → s.Reaches env a ∨ s.fresh ≤ a ∧ a < t.fresh

theorem Store.Confined.footprint {s t : Store} {env : Address}
    (h : s.Confined (s.Reaches env) t) : s.Footprint env t where
  frames_eq a ha hnot := by
    refine h.frames_eq a (not_or.mpr ⟨hnot, fun hnew => ?_⟩)
    exact Nat.not_lt_of_le hnew.1 ha
  reaches a ha := h.closed.reaches (.inl .refl) ha

theorem evalProgram_footprint (limit : Nat) (es : List Expr) (env : Address) (s : Store) :
    Run.Ends (evalProgram limit es env) s
      (fun v t => s.Footprint env t ∧
        ∀ a, t.ReachesFrom v a → s.Reaches env a ∨ s.fresh ≤ a ∧ a < t.fresh)
      fun _ t => s.Footprint env t := by
  have hs : s.Confined (s.Reaches env) s := Store.confined_self (s.closed_reaches env)
  have hI := Invariant.lawful_confined s (s.Reaches env)
  have hkeeps : (Invariant.confined s (s.Reaches env)).Keeps s (evalProgram limit es env) _ _ :=
    hI.keeps_evalProgram hs (.inl .refl) fun _ _ => trivial
  refine Run.Ends.mono hkeeps ?_ ?_
  · rintro v t ⟨_, ht, hv⟩
    exact ⟨ht.footprint, fun a ha => ht.closed.reachesFrom hv ha⟩
  · rintro _ t ⟨_, ht, _⟩
    exact ht.footprint

end MiniScheme
