import MiniScheme.Proofs.Eval.Confined
import MiniScheme.Proofs.Store.Path

/-! Frames that are made one after another, each inside an older one, all have chains to the first.
Links stay as they are made, whatever closures the frames come to bind. -/

namespace MiniScheme
namespace Store

abbrev Since (s t : Store) : Address → Prop := s.Grown (fun _ => False) t

/-- What has come out of `s` by work on new frames alone; the first of them is around all others. -/
structure Rooted (s t : Store) : Prop where
  confined : s.Confined (fun _ => False) t
  path : ∀ a, s.Since t a → ∃ l, t.Path a l s.fresh

variable {s t u : Store} {a : Address} {name : String} {v : Value}

theorem Rooted.of_confined (h : s.Rooted t) (hu : s.Confined (fun _ => False) u)
    (htu : t.Extends u) (hnew : ∀ a, t.fresh ≤ a → a < u.fresh → ∃ l, u.Path a l s.fresh) :
    s.Rooted u where
  confined := hu
  path a ha := by
    rcases Nat.lt_or_ge a t.fresh with hlt | hle
    · obtain ⟨l, hl⟩ := h.path a (ha.imp_right fun h => ⟨h.1, hlt⟩)
      exact ⟨l, hl.extends htu⟩
    · exact hnew a hle (ha.resolve_left id).2

theorem Rooted.of_frames_eq (h : s.Rooted t) (hframes : u.frames = t.frames) : s.Rooted u where
  confined := h.confined.of_frames_eq hframes
  path a ha := by
    have hfresh : u.fresh = t.fresh := congrArg Array.size hframes
    obtain ⟨l, hl⟩ := h.path a (ha.imp_right fun h => hfresh ▸ h)
    exact ⟨l, hl.of_frames_eq hframes⟩

theorem Rooted.of_fresh_eq (h : s.Rooted t) (hu : s.Confined (fun _ => False) u)
    (htu : t.Extends u) (hfresh : u.fresh = t.fresh) : s.Rooted u := by
  refine h.of_confined hu htu fun a hle hlt => ?_
  rw [hfresh] at hlt
  exact absurd hlt (Nat.not_lt_of_le hle)

theorem Rooted.alloc (h : s.Rooted t) {f : Frame}
    (ht : s.Confined (fun _ => False) (t.alloc f)) {b : Address} (hb : s.Since t b)
    (henclosing : f.enclosing = some b) : s.Rooted (t.alloc f) := by
  refine h.of_confined ht (t.extends_alloc f) fun a hle hlt => ?_
  rw [fresh_alloc] at hlt
  obtain rfl : a = t.fresh := Nat.le_antisymm (Nat.le_of_lt_succ hlt) hle
  obtain ⟨l, hl⟩ := h.path b hb
  exact ⟨_, .link (t.frames_alloc_fresh f) henclosing (hl.extends (t.extends_alloc f))⟩

theorem rooted_newGlobal (s : Store) : s.Rooted (s.alloc (globalFrame s.fresh)) where
  confined := by
    have hclosed : s.Closed fun _ => False := fun _ _ h _ => h
    refine (confined_self hclosed).alloc (fun _ h => nomatch h) fun name v hv => ?_
    obtain ⟨op, rfl⟩ := eq_primitive_of_globalFrame hv
    exact Value.every_primitive.mpr nofun
  path a ha := by
    obtain ⟨hle, hlt⟩ := ha.resolve_left id
    rw [fresh_alloc] at hlt
    obtain rfl : a = s.fresh := Nat.le_antisymm (Nat.le_of_lt_succ hlt) hle
    exact ⟨_, .last (s.frames_alloc_fresh _) rfl⟩

end Store

def Invariant.rooted (s : Store) : Invariant where
  store := s.Rooted
  env t a := s.Since t a
  leaf t v := v.MadeIn (s.Since t)
  expr _ := True
  failure _ := True

namespace Invariant

theorem ofFrames_rooted (s : Store) : (rooted s).OfFrames where
  env_extends := (ofFrames_confined s _).env_extends
  leaf_extends := (ofFrames_confined s _).leaf_extends
  frames_eq ht hframes _ := ht.of_frames_eq hframes
  enclosing? ht ha h := ht.confined.closed _ _ ha (.enclosing h)
  local? ht ha h := ht.confined.closed.local? ha h
  define {t a v} ht ha hv name :=
    ht.of_fresh_eq (ht.confined.define ha hv name) (t.extends_define a name v)
      (t.fresh_define a name v)
  plain h := Value.IsPlain.madeIn _ h
  closure _ ha _ _ _ hc := Value.closure.inj hc ▸ ha
  call ht hc hargs := by
    obtain ⟨hu, henv⟩ := (ofFrames_confined s _).call ht.confined hc hargs
    exact ⟨ht.alloc hu (hc _ rfl) rfl, henv⟩

theorem lawful_rooted (s : Store) : (rooted s).Lawful :=
  (ofFrames_rooted s).lawful (fun _ => trivial) fun _ => trivial

end Invariant
end MiniScheme
