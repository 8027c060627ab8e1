import MiniScheme.Proofs.Eval.Relabeling
import MiniScheme.Proofs.Eval.Sound
import MiniScheme.Proofs.Expr.Flatten

/-! A correspondence between two runs after one of them has gone on by itself. What stood for one
another before still does, and what is made from now on is paired anew. -/

namespace MiniScheme

def Resumed (R : Nat → Nat → Prop) (m n m' n' a b : Nat) : Prop :=
  R a b ∧ a < m ∧ b < n ∨ Shift m' n' a b

theorem biUnique_resumed {R : Nat → Nat → Prop} (hR : Relator.BiUnique R) {m n m' n' : Nat}
    (hm : m ≤ m') (hn : n ≤ n') : Relator.BiUnique (Resumed R m n m' n') := by
  obtain ⟨hleft, hright⟩ := biUnique_shift m' n'
  constructor
  · rintro a b c (⟨h, ha, hc⟩ | h) (⟨h', hb, _⟩ | h')
    · exact hR.1 h h'
    · obtain ⟨i, rfl, rfl⟩ := h'
      omega
    · obtain ⟨i, rfl, rfl⟩ := h
      omega
    · exact hleft h h'
  · rintro a b c (⟨h, ha, hc⟩ | h) (⟨h', hb, _⟩ | h')
    · exact hR.2 h h'
    · obtain ⟨i, rfl, rfl⟩ := h'
      omega
    · obtain ⟨i, rfl, rfl⟩ := h
      omega
    · exact hright h h'

theorem rel_mono {α β : Type} {R S : α → β → Prop} {x : Option α} {y : Option β}
    (h : Option.Rel R x y) (hRS : ∀ a b, x = some a → y = some b → R a b → S a b) :
    Option.Rel S x y := by
  cases h with
  | none => exact .none
  | some h => exact .some (hRS _ _ rfl rfl h)

namespace Correspondence

variable {addr home addr' home' : Address → Address → Prop} {identity identity' : Nat → Nat → Prop}
  {c c' d d' : Console} {k l m n : Nat}

theorem Matches.relabel (haddr : ∀ a b, addr a b → a < k → b < l → addr' a b)
    (hhome : ∀ a b, home a b → a < k → b < l → home' a b)
    (hidentity : ∀ i j, identity i j → i < m → j < n → identity' i j)
    (v v' : Value) (h : (relabeling addr home identity c c').Matches v v')
    (hv : v.Every (Value.Within k m)) (hv' : v'.Every (Value.Within l n)) :
    (relabeling addr' home' identity' d d').Matches v v' := by
  induction h using Matches.induct with
  | plain h => exact .plain h
  | list h ih =>
    refine .list (List.forall₂_iff_zip.mpr ⟨h.length_eq, fun {w w'} hw => ?_⟩)
    have hmem := List.of_mem_zip hw
    exact ih hw (Value.every_list.mp hv w hmem.1) (Value.every_list.mp hv' w' hmem.2)
  | primitive op h =>
    exact .primitive op (hhome _ _ h (Value.every_primitive.mp hv) (Value.every_primitive.mp hv'))
  | closure hid hbody henv =>
    have hv := Value.every_closure.mp hv
    have hv' := Value.every_closure.mp hv'
    exact .closure (hidentity _ _ hid hv.2 hv'.2) hbody (haddr _ _ henv hv.1 hv'.1)
  | unknown => exact .unknown

theorem Matches.madeIn {C : Correspondence} {v v' : Value} (h : C.Matches v v') :
    v.Every (Value.MadeIn fun a => ∃ b, C.addr a b) := by
  induction h using Matches.induct with
  | plain h => exact Value.every_of_isPlain h (Value.IsPlain.madeIn _ h)
  | @list vs vs' h ih =>
    have hitems :
        List.Forall₂ (fun w _ => w.Every (Value.MadeIn fun a => ∃ b, C.addr a b)) vs vs' :=
      List.forall₂_iff_zip.mpr ⟨h.length_eq, fun {_ _} hw => ih hw⟩
    refine Value.every_list.mpr fun v hv => ?_
    obtain ⟨_, _, hv⟩ := exists_mem_of_forall₂ hitems hv
    exact hv
  | primitive => exact Value.every_primitive.mpr fun _ h => nomatch h
  | closure _ _ henv =>
    refine Value.every_closure.mpr fun _ h => ?_
    obtain rfl := Value.closure.inj h
    exact ⟨_, henv⟩
  | unknown => exact List.forall_mem_singleton.mpr fun _ h => nomatch h

/-- Procedures keep their identities, and closures were made in frames that stand for themselves. -/
theorem matches_self_of_madeIn {v : Value} (hv : v.Every (Value.MadeIn fun a => addr a a)) :
    (relabeling addr Eq Eq c c').Matches v v := by
  refine matches_self v fun w hw hne => ?_
  have hmade := hv w hw
  cases w with
  | list vs => exact absurd rfl (hne vs)
  | primitive op home => exact .primitive op rfl
  | closure k => exact .closure rfl rfl (hmade k rfl)
  | unknown => exact .unknown
  | _ => exact .plain trivial

theorem frames_self {s : Store} {R : Address → Prop} (hR : s.Closed R) {a : Address} (ha : R a)
    (haddr : ∀ b, R b → addr b b) :
    Option.Rel ((relabeling addr Eq Eq c c').FrameMatches a) s.frames[a]? s.frames[a]? := by
  obtain ⟨hlink, hlocal⟩ := Store.closed_iff.mp hR a ha
  cases hf : s.frames[a]? with
  | none => exact .none
  | some f =>
    refine .some ⟨?_, fun name _ => ?_⟩
    · cases hb : f.enclosing with
      | none => exact .none
      | some b => exact .some (haddr b (hlink b ((Store.enclosing?_eq hf).trans hb)))
    · cases hv : f.get? name with
      | none => exact .none
      | some v =>
        have hmade := hlocal name v ((Store.local?_eq hf name).trans hv)
        exact .some (matches_self_of_madeIn (hmade.mono fun w hw k hk => haddr _ (hw k hk)))

variable {t u t' : Store}

theorem Relates.closed {C : Correspondence} (h : C.Relates t u) (hname : ∀ a n, C.name a n) :
    t.Closed fun a => ∃ b, C.addr a b := by
  refine Store.closed_iff.mpr fun a ⟨b, hab⟩ => ⟨fun x hx => ?_, fun name v hv => ?_⟩
  · have hlink := h.enclosing? hab
    rw [hx] at hlink
    obtain ⟨y, _, hxy⟩ := exists_of_rel_some hlink
    exact ⟨y, hxy⟩
  · have hlocal := h.local? hab (hname a name)
    rw [hv] at hlocal
    obtain ⟨w, _, hvw⟩ := exists_of_rel_some hlocal
    exact hvw.madeIn

theorem Relates.resume (h : (relabeling addr home identity c c').Relates t u) (ht : t.Sound)
    (hu : u.Sound)
    (hframes : ∀ a b, addr a b → a < t.fresh → t'.frames[a]? = t.frames[a]?) :
    (relabeling (Resumed addr t.fresh u.fresh t'.fresh u.fresh)
      (Resumed home t.fresh u.fresh t'.fresh u.fresh)
      (Resumed identity t.nextClosure u.nextClosure t'.nextClosure u.nextClosure)
      t'.console u.console).Relates t' u where
  frames a b hab := by
    rcases hab with ⟨hab, ha, hb⟩ | ⟨i, rfl, rfl⟩
    · have hrel := h.frames a b hab
      rw [hframes a b hab ha]
      refine rel_mono hrel fun f g hf hg hfg => ⟨?_, fun name hn => ?_⟩
      · refine rel_mono hfg.enclosing fun x y hx hy hxy => .inl ⟨hxy, ?_, ?_⟩
        · exact ht.enclosing? ((Store.enclosing?_eq hf).trans hx)
        · exact hu.enclosing? ((Store.enclosing?_eq hg).trans hy)
      · refine rel_mono (hfg.get? name hn) fun v w hv hw hvw => ?_
        have hv := ht.local? ((Store.local?_eq hf name).trans hv)
        have hw := hu.local? ((Store.local?_eq hg name).trans hw)
        exact Matches.relabel (fun x y h hx hy => .inl ⟨h, hx, hy⟩)
          (fun x y h hx hy => .inl ⟨h, hx, hy⟩) (fun i j h hi hj => .inl ⟨h, hi, hj⟩) v w hvw hv hw
    · rw [t'.frames_fresh_add, u.frames_fresh_add]
      exact .none
  common _ := False.elim
  fresh i := .inr ⟨i, rfl, rfl⟩
  nextClosure i := .inr ⟨i, rfl, rfl⟩
  console := ⟨"", "", (Console.extend_empty _).symm, (Console.extend_empty _).symm⟩

end Correspondence
end MiniScheme
