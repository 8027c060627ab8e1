import Mathlib.Data.List.Forall2
import MiniScheme.Proofs.Run.Ends

/-! Two computations side by side. Both have a value, or both fail, and the two endings match. -/

namespace MiniScheme

inductive ExceptRel {α β ε δ : Type} (R : α → β → Prop) (E : ε → δ → Prop) :
    Except ε α → Except δ β → Prop
  | ok {a : α} {b : β} (h : R a b) : ExceptRel R E (.ok a) (.ok b)
  | error {e : ε} {e' : δ} (h : E e e') : ExceptRel R E (.error e) (.error e')

section ExceptRel

variable {α β γ δ ε ε' : Type} {R : α → β → Prop} {S : γ → δ → Prop} {E : ε → ε' → Prop}
  {r : Except ε α} {r' : Except ε' β}

theorem ExceptRel.bind {f : α → Except ε γ} {f' : β → Except ε' δ} (h : ExceptRel R E r r')
    (hf : ∀ a b, R a b → ExceptRel S E (f a) (f' b)) :
    ExceptRel S E (r >>= f) (r' >>= f') := by
  cases h with
  | ok h => exact hf _ _ h
  | error h => exact .error h

theorem ExceptRel.bind_eq {r' : Except ε β} {f : α → Except ε γ} {f' : β → Except ε γ}
    (h : ExceptRel R Eq r r') (hf : ∀ a b, R a b → f a = f' b) : (r >>= f) = (r' >>= f') := by
  cases h with
  | ok h => exact hf _ _ h
  | error h =>
    subst h
    rfl

theorem exceptRel_refl {R : α → α → Prop} {E : ε → ε → Prop} (hR : ∀ a, R a a) (hE : ∀ e, E e e)
    (r : Except ε α) : ExceptRel R E r r := by
  cases r with
  | ok a => exact .ok (hR a)
  | error e => exact .error (hE e)

theorem ExceptRel.exists_ok {a : α} (h : ExceptRel R E (.ok a) r') :
    ∃ b, r' = .ok b ∧ R a b := by
  cases h with
  | ok h => exact ⟨_, rfl, h⟩

theorem ExceptRel.exists_error {e : ε} (h : ExceptRel R E (.error e) r') :
    ∃ e', r' = .error e' ∧ E e e' := by
  cases h with
  | error h => exact ⟨_, rfl, h⟩

theorem exceptRel_mapM {f : α → Except ε γ} {g : β → Except ε' δ} {as : List α} {bs : List β}
    (h : List.Forall₂ (fun a b => ExceptRel S E (f a) (g b)) as bs) :
    ExceptRel (List.Forall₂ S) E (as.mapM f) (bs.mapM g) := by
  induction h with
  | nil => exact .ok .nil
  | cons hab _ ih =>
    rw [List.mapM_cons, List.mapM_cons]
    exact hab.bind fun c d hcd => ih.bind fun cs ds hcds => .ok (.cons hcd hcds)

end ExceptRel

namespace Run

variable {α β γ δ ε ε' : Type} {s s' : Store} {m : Run α} {m' : Run β}
  {Q Q' : α → Store → β → Store → Prop} {E E' : Failure → Store → Failure → Store → Prop}

def Pairs (m : Run α) (s : Store) (m' : Run β) (s' : Store) (Q : α → Store → β → Store → Prop)
    (E : Failure → Store → Failure → Store → Prop) : Prop :=
  match m s, m' s' with
  | .ok a t, .ok b t' => Q a t b t'
  | .error f t, .error f' t' => E f t f' t'
  | _, _ => False

theorem Pairs.cases (h : Pairs m s m' s' Q E) :
    (∃ a t b t', m s = .ok a t ∧ m' s' = .ok b t' ∧ Q a t b t') ∨
      ∃ f t f' t', m s = .error f t ∧ m' s' = .error f' t' ∧ E f t f' t' := by
  unfold Pairs at h
  cases hm : m s <;> cases hm' : m' s' <;> rw [hm, hm'] at h
  · exact .inl ⟨_, _, _, _, rfl, rfl, h⟩
  · exact h.elim
  · exact h.elim
  · exact .inr ⟨_, _, _, _, rfl, rfl, h⟩

theorem pairs_of_ok {a : α} {b : β} {t t' : Store} (hm : m s = .ok a t) (hm' : m' s' = .ok b t')
    (h : Q a t b t') : Pairs m s m' s' Q E := by
  unfold Pairs
  rw [hm, hm']
  exact h

theorem pairs_of_error {f f' : Failure} {t t' : Store} (hm : m s = .error f t)
    (hm' : m' s' = .error f' t') (h : E f t f' t') : Pairs m s m' s' Q E := by
  unfold Pairs
  rw [hm, hm']
  exact h

theorem Pairs.mono (h : Pairs m s m' s' Q E) (hQ : ∀ a t b t', Q a t b t' → Q' a t b t')
    (hE : ∀ f t f' t', E f t f' t' → E' f t f' t') : Pairs m s m' s' Q' E' := by
  rcases h.cases with ⟨a, t, b, t', hm, hm', h⟩ | ⟨f, t, f', t', hm, hm', h⟩
  · exact pairs_of_ok hm hm' (hQ a t b t' h)
  · exact pairs_of_error hm hm' (hE f t f' t' h)

theorem Pairs.bind {k : α → Run γ} {k' : β → Run δ} {R : γ → Store → δ → Store → Prop}
    (h : Pairs m s m' s' Q E) (hk : ∀ a t b t', Q a t b t' → Pairs (k a) t (k' b) t' R E) :
    Pairs (m >>= k) s (m' >>= k') s' R E := by
  rcases h.cases with ⟨a, t, b, t', hm, hm', h⟩ | ⟨f, t, f', t', hm, hm', h⟩
  · have hrest := hk a t b t' h
    unfold Pairs at hrest ⊢
    rw [bind_of_ok hm, bind_of_ok hm']
    exact hrest
  · exact pairs_of_error (bind_of_error hm) (bind_of_error hm') h

theorem Pairs.tryCatch {handle : Failure → Run α} {handle' : Failure → Run β}
    (h : Pairs m s m' s' Q E)
    (hhandle : ∀ f t f' t', E f t f' t' → Pairs (handle f) t (handle' f') t' Q E') :
    Pairs (tryCatch m handle) s (tryCatch m' handle') s' Q E' := by
  rcases h.cases with ⟨a, t, b, t', hm, hm', h⟩ | ⟨f, t, f', t', hm, hm', h⟩
  · exact pairs_of_ok (by rw [tryCatch_apply, hm]) (by rw [tryCatch_apply, hm']) h
  · have hrest := hhandle f t f' t' h
    unfold Pairs at hrest ⊢
    rw [tryCatch_apply, tryCatch_apply, hm, hm']
    exact hrest

theorem pairs_ofExcept {R : α → β → Prop} {F : ε → ε' → Prop} {wrap : ε → Failure}
    {wrap' : ε' → Failure} {r : Except ε α} {r' : Except ε' β} (h : ExceptRel R F r r')
    (hok : ∀ a b, R a b → Q a s b s') (herror : ∀ e e', F e e' → E (wrap e) s (wrap' e') s') :
    Pairs (ofExcept wrap r) s (ofExcept wrap' r') s' Q E := by
  cases h with
  | ok h => exact hok _ _ h
  | error h => exact herror _ _ h

theorem pairs_mapM {S : Store → Store → Prop} {R : α → β → Prop} {P : γ → δ → Prop}
    {f : α → Run γ} {f' : β → Run δ} {as : List α} {bs : List β} (h : List.Forall₂ R as bs)
    (hs : S s s') (hf : ∀ a b t t', R a b → S t t' →
      Pairs (f a) t (f' b) t' (fun c u d u' => S u u' ∧ P c d) E) :
    Pairs (as.mapM f) s (bs.mapM f') s' (fun cs t ds t' => S t t' ∧ List.Forall₂ P cs ds) E := by
  induction h generalizing s s' with
  | nil => exact ⟨hs, .nil⟩
  | cons hab _ ih =>
    rw [List.mapM_cons, List.mapM_cons]
    refine (hf _ _ s s' hab hs).bind fun c t d t' ⟨ht, hcd⟩ => ?_
    refine (ih ht).bind fun cs u ds u' ⟨hu, hcds⟩ => ?_
    exact ⟨hu, .cons hcd hcds⟩

end Run
end MiniScheme
