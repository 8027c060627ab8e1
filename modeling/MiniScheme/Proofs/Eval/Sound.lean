import MiniScheme.Proofs.Eval.Frames
import MiniScheme.Proofs.Eval.Top
import MiniScheme.Proofs.Store.Reach

/-! Stores without dangling addresses. What is made next has an address and a number that nothing
has named before. -/

namespace MiniScheme

/-- A procedure names frames before `n` and numbers before `m` only. -/
def Value.Within (n m : Nat) : Value → Prop
  | .primitive _ home => home < n
  | .closure c => c.env < n ∧ c.id < m
  | _ => True

theorem Value.Within.mono {n m n' m' : Nat} {v : Value} (h : v.Within n m) (hn : n ≤ n')
    (hm : m ≤ m') : v.Within n' m' := by
  cases v with
  | primitive op home => exact Nat.lt_of_lt_of_le h hn
  | closure c => exact ⟨Nat.lt_of_lt_of_le h.1 hn, Nat.lt_of_lt_of_le h.2 hm⟩
  | _ => trivial

theorem Value.IsPlain.within {n m : Nat} (v : Value) (h : v.IsPlain) : v.Within n m := by
  cases v <;> first | exact h.elim | trivial

namespace Store

structure Sound (s : Store) : Prop where
  enclosing? {a b : Address} (h : s.enclosing? a = some b) : b < s.fresh
  local? {a : Address} {name : String} {v : Value} (h : s.local? a name = some v) :
    v.Every (Value.Within s.fresh s.nextClosure)

variable {s t : Store} {a b : Address} {name : String} {v : Value} {f : Frame}

theorem Sound.closed (h : s.Sound) : s.Closed (· < s.fresh) := by
  refine closed_iff.mpr fun a _ => ⟨fun b hlink => h.enclosing? hlink, fun name v hv => ?_⟩
  rintro w hw c rfl
  exact (h.local? hv _ hw).1

theorem Sound.define (h : s.Sound) (hv : v.Every (Value.Within s.fresh s.nextClosure))
    (a : Address) (name : String) : (s.define a name v).Sound where
  enclosing? hlink := by
    rw [enclosing?_define] at hlink
    rw [fresh_define]
    exact h.enclosing? hlink
  local? hw := by
    rw [fresh_define]
    rcases local?_define_eq_some hw with ⟨_, rfl⟩ | hw
    · exact hv
    · exact h.local? hw

theorem Sound.alloc (h : s.Sound) (henclosing : ∀ b, f.enclosing = some b → b < s.fresh)
    (hbindings : ∀ name v, f.get? name = some v →
      v.Every (Value.Within (s.fresh + 1) s.nextClosure)) : (s.alloc f).Sound where
  enclosing? hlink := by
    rw [enclosing?_alloc] at hlink
    rw [fresh_alloc]
    split at hlink
    · exact Nat.lt_succ_of_lt (henclosing _ hlink)
    · exact Nat.lt_succ_of_lt (h.enclosing? hlink)
  local? hv := by
    rw [local?_alloc] at hv
    rw [fresh_alloc]
    split at hv
    · exact hbindings _ _ hv
    · exact (h.local? hv).mono fun w hw => hw.mono (Nat.le_succ _) (Nat.le_refl _)

theorem Sound.of_frames_eq (h : s.Sound) (hframes : t.frames = s.frames)
    (hclosure : s.nextClosure ≤ t.nextClosure) : t.Sound where
  enclosing? hlink := by
    unfold Store.enclosing? at hlink
    rw [hframes] at hlink
    rw [fresh, hframes]
    exact h.enclosing? hlink
  local? hv := by
    unfold Store.local? at hv
    rw [hframes] at hv
    rw [fresh, hframes]
    exact (h.local? hv).mono fun w hw => hw.mono (Nat.le_refl _) hclosure

theorem Sound.newGlobal (h : s.Sound) : (s.alloc (globalFrame s.fresh)).Sound := by
  refine h.alloc (fun _ h => nomatch h) fun name v hv => ?_
  obtain ⟨op, rfl⟩ := eq_primitive_of_globalFrame hv
  exact Value.every_primitive.mpr (Nat.lt_succ_self _)

end Store

def Invariant.sound : Invariant where
  store := Store.Sound
  env s a := a < s.fresh
  leaf s v := v.Within s.fresh s.nextClosure
  expr _ := True
  failure _ := True

namespace Invariant

theorem ofFrames_sound : sound.OfFrames where
  env_extends h ha := Nat.lt_of_lt_of_le ha h.fresh_le
  leaf_extends h hv := Value.Within.mono hv h.fresh_le h.nextClosure
  frames_eq hs hframes hclosure := hs.of_frames_eq hframes hclosure
  enclosing? hs _ h := hs.enclosing? h
  local? hs _ h := hs.local? h
  define hs _ hv name := hs.define hv _ name
  plain h := Value.IsPlain.within _ h
  closure _ ha _ _ := ⟨ha, Nat.lt_succ_self _⟩
  call {s c args} hs hc hargs := by
    refine ⟨hs.alloc (fun b hb => Option.some.inj hb ▸ hc.1) fun name v hv => ?_,
      Store.fresh_lt_alloc _ _⟩
    have hv := hargs v (Frame.mem_of_get?_ofArguments hv)
    exact hv.mono fun w hw => Value.Within.mono hw (Nat.le_succ _) (Nat.le_refl _)

theorem lawful_sound : sound.Lawful := ofFrames_sound.lawful (fun _ => trivial) fun _ => trivial

end Invariant
end MiniScheme
