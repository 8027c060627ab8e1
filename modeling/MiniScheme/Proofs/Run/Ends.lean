import MiniScheme.Run

/-! How a computation ends: with a value or with a failure, and in which store. -/

namespace MiniScheme
namespace Run

variable {α β ε : Type} {s : Store} {Q Q' : α → Store → Prop} {E E' : Failure → Store → Prop}

def Ends (m : Run α) (s : Store) (Q : α → Store → Prop) (E : Failure → Store → Prop) : Prop :=
  match m s with
  | .ok a s' => Q a s'
  | .error failure s' => E failure s'

def after (m : Run α) (s : Store) : Store :=
  match m s with
  | .ok _ s' => s'
  | .error _ s' => s'

theorem after_of_ok {m : Run α} {s t : Store} {a : α} (h : m s = .ok a t) : after m s = t := by
  unfold after
  rw [h]

theorem after_of_error {m : Run α} {s t : Store} {failure : Failure}
    (h : m s = .error failure t) : after m s = t := by
  unfold after
  rw [h]

theorem Ends.after {m : Run α} {P : Store → Prop}
    (h : Ends m s (fun _ s' => P s') fun _ s' => P s') : P (after m s) := by
  unfold Ends at h
  unfold Run.after
  cases hm : m s <;> rw [hm] at h <;> exact h

theorem Ends.mono {m : Run α} (h : Ends m s Q E) (hQ : ∀ a s', Q a s' → Q' a s')
    (hE : ∀ failure s', E failure s' → E' failure s') : Ends m s Q' E' := by
  unfold Ends at h ⊢
  cases hm : m s with
  | ok a s' =>
    rw [hm] at h
    exact hQ a s' h
  | error failure s' =>
    rw [hm] at h
    exact hE failure s' h

theorem Ends.with_run {m : Run α} (h : Ends m s Q E) :
    Ends m s (fun a s' => m s = .ok a s' ∧ Q a s') E := by
  unfold Ends at h ⊢
  cases hm : m s with
  | ok a s' =>
    rw [hm] at h
    exact ⟨rfl, h⟩
  | error failure s' =>
    rw [hm] at h
    exact h

theorem ends_get (f : Store → Run α) : Ends (get >>= f) s Q E ↔ Ends (f s) s Q E := .rfl

theorem ends_bind (m : Run β) (f : β → Run α) :
    Ends (m >>= f) s Q E ↔ Ends m s (fun b s' => Ends (f b) s' Q E) E := by
  cases hm : m s <;> simp [Ends, bind, EStateM.bind, hm]

theorem after_bind (m : Run α) (f : α → Run β) (s : Store) :
    after (m >>= f) s = match m s with
      | .ok a t => after (f a) t
      | .error _ t => t := by
  cases hm : m s <;> simp [after, bind, EStateM.bind, hm]

theorem tryCatch_apply (m : Run α) (handle : Failure → Run α) (s : Store) :
    tryCatch m handle s = match m s with
      | .ok a t => .ok a t
      | .error f t => handle f t := by
  simp only [tryCatch, tryCatchThe, MonadExceptOf.tryCatch]
  delta EStateM.tryCatch
  dsimp only
  cases m s <;> rfl

theorem ends_tryCatch (m : Run α) (handle : Failure → Run α) :
    Ends (tryCatch m handle) s Q E ↔
      Ends m s Q fun failure s' => Ends (handle failure) s' Q E := by
  unfold Ends
  rw [tryCatch_apply]
  cases m s <;> rfl

theorem after_tryCatch (m : Run α) (handle : Failure → Run α) (s : Store) :
    after (tryCatch m handle) s = match m s with
      | .ok _ t => t
      | .error failure t => after (handle failure) t := by
  unfold after
  rw [tryCatch_apply]
  cases m s <;> rfl

theorem ends_ofExcept (wrap : ε → Failure) (r : Except ε α) :
    Ends (ofExcept wrap r) s Q E ↔
      (∀ a, r = .ok a → Q a s) ∧ ∀ e, r = .error e → E (wrap e) s := by
  cases r with
  | ok a => exact ⟨fun h => ⟨fun b hb => Except.ok.inj hb ▸ h, nofun⟩, fun h => h.1 a rfl⟩
  | error e => exact ⟨fun h => ⟨nofun, fun b hb => Except.error.inj hb ▸ h⟩, fun h => h.2 e rfl⟩

theorem ends_panic {message : String} (hraises : s.console.raisesPanics = true)
    (hE : E (.panic message) s) : Ends (panic message) s Q E := by
  unfold panic
  rw [ends_get, hraises]
  exact hE

/-! The ways in which a computation comes to fail. -/

section Failures

variable {m : Run α} {t : Store} {failure : Failure}

theorem bind_of_ok {f : α → Run β} {a : α} (h : m s = .ok a t) : (m >>= f) s = f a t := by
  simp only [Bind.bind, EStateM.bind, h]

theorem bind_of_error {f : α → Run β} (h : m s = .error failure t) :
    (m >>= f) s = .error failure t := by
  simp only [Bind.bind, EStateM.bind, h]

theorem bind_error_iff {f : α → Run β} :
    (m >>= f) s = .error failure t ↔
      m s = .error failure t ∨ ∃ a u, m s = .ok a u ∧ f a u = .error failure t := by
  cases hm : m s <;> simp [Bind.bind, EStateM.bind, hm, and_assoc]

theorem ofExcept_error_iff {wrap : ε → Failure} {r : Except ε α} :
    ofExcept wrap r s = .error failure t ↔ ∃ e, r = .error e ∧ wrap e = failure ∧ s = t := by
  constructor
  · intro h
    cases r with
    | ok a => cases h
    | error e =>
      obtain ⟨hfailure, hs⟩ := EStateM.Result.error.inj h
      exact ⟨e, rfl, hfailure, hs⟩
  · rintro ⟨e, rfl, rfl, rfl⟩
    rfl

theorem ofExcept_bind_error_iff {wrap : ε → Failure} {r : Except ε α} {f : α → Run β} :
    (ofExcept wrap r >>= f) s = .error failure t ↔
      (∃ e, r = .error e ∧ wrap e = failure ∧ s = t) ∨
        ∃ a, r = .ok a ∧ f a s = .error failure t := by
  rw [bind_error_iff, ofExcept_error_iff]
  refine or_congr_right ⟨?_, ?_⟩
  · rintro ⟨a, u, hr, h⟩
    cases r with
    | ok b =>
      obtain ⟨rfl, rfl⟩ := EStateM.Result.ok.inj hr
      exact ⟨b, rfl, h⟩
    | error => cases hr
  · rintro ⟨a, rfl, h⟩
    exact ⟨a, s, rfl, h⟩

theorem mapM_error {f : α → Run β} {as : List α} (h : as.mapM f s = .error failure t) :
    ∃ front a rest bs u, as = front ++ a :: rest ∧ front.mapM f s = .ok bs u ∧
      f a u = .error failure t := by
  induction as generalizing s with
  | nil => cases h
  | cons a as ih =>
    rw [List.mapM_cons] at h
    rcases bind_error_iff.mp h with h | ⟨b, u, hb, h⟩
    · exact ⟨[], a, as, [], s, rfl, rfl, h⟩
    · rcases bind_error_iff.mp h with h | ⟨_, _, _, h⟩
      · obtain ⟨front, a', rest, bs, w, rfl, hbs, h⟩ := ih h
        refine ⟨a :: front, a', rest, b :: bs, w, rfl, ?_, h⟩
        rw [List.mapM_cons, bind_of_ok hb, bind_of_ok hbs]
        rfl
      · cases h

theorem foldlM_error {f : β → α → Run β} {as : List α} {b : β}
    (h : as.foldlM f b s = .error failure t) :
    ∃ front a rest c u, as = front ++ a :: rest ∧ front.foldlM f b s = .ok c u ∧
      f c a u = .error failure t := by
  induction as generalizing b s with
  | nil => cases h
  | cons a as ih =>
    rw [List.foldlM_cons] at h
    rcases bind_error_iff.mp h with h | ⟨c, u, hc, h⟩
    · exact ⟨[], a, as, b, s, rfl, rfl, h⟩
    · obtain ⟨front, a', rest, d, w, rfl, hd, h⟩ := ih h
      refine ⟨a :: front, a', rest, d, w, rfl, ?_, h⟩
      rw [List.foldlM_cons, bind_of_ok hc]
      exact hd

end Failures

/-! Writing the store. -/

theorem tryAssign_apply (a : Address) (name : String) (v : Value) (s : Store) :
    tryAssign a name v s = match s.holder? a name with
      | some b => .ok true (s.define b name v)
      | none => .ok false s := by
  change EStateM.Result.ok (s.assign a name v).1 (s.assign a name v).2 = _
  unfold Store.assign
  cases s.holder? a name <;> rfl

theorem assign_apply (a : Address) (name : String) (v : Value) (s : Store) :
    assign a name v s = match s.holder? a name with
      | some b => .ok () (s.define b name v)
      | none => .error (.unbound name) s := by
  have h : assign a name v = (do
    if ← tryAssign a name v then return () else throw (.unbound name)) := rfl
  rw [h]
  cases hholder : s.holder? a name with
  | some b =>
    have htry : tryAssign a name v s = .ok true (s.define b name v) := by
      rw [tryAssign_apply, hholder]
    exact bind_of_ok htry
  | none =>
    have htry : tryAssign a name v s = .ok false s := by rw [tryAssign_apply, hholder]
    exact bind_of_ok htry

end Run
end MiniScheme
