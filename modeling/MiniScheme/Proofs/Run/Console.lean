import MiniScheme.Eval
import MiniScheme.Proofs.Run.Ends

/-! Computations and the console. Most steps of a run leave it alone, and the others print: what
they find there decides nothing, and what they write stands behind it. -/

namespace MiniScheme
namespace Console

theorem print_empty (c : Console) : c.print "" = c := by
  unfold print
  split <;> simp

theorem print_print (c : Console) (first second : String) :
    (c.print first).print second = c.print (first ++ second) := by
  unfold print
  cases c.buffersOutput <;> simp [String.append_assoc]

theorem raisesPanics_print (c : Console) (text : String) :
    (c.print text).raisesPanics = c.raisesPanics := by
  unfold print
  split <;> rfl

theorem stderr_print (c : Console) (text : String) : (c.print text).stderr = c.stderr := by
  unfold print
  split <;> rfl

end Console

def Store.withConsole (s : Store) (c : Console) : Store := { s with console := c }

namespace Store

theorem chainUpTo_withConsole (s : Store) (c : Console) (n : Nat) (a : Address) :
    (s.withConsole c).chainUpTo n a = s.chainUpTo n a := by
  induction n generalizing a with
  | zero => rfl
  | succ n ih =>
    have hframes : (s.withConsole c).frames = s.frames := rfl
    rw [chainUpTo, chainUpTo, hframes]
    simp only [ih]

theorem holder?_withConsole (s : Store) (c : Console) (a : Address) (name : String) :
    (s.withConsole c).holder? a name = s.holder? a name :=
  congrArg (List.find? _) (s.chainUpTo_withConsole c s.frames.size a)

theorem lookup?_withConsole (s : Store) (c : Console) (a : Address) (name : String) :
    (s.withConsole c).lookup? a name = s.lookup? a name :=
  congrArg (Option.bind · _) (s.holder?_withConsole c a name)

theorem assign_withConsole (s : Store) (c : Console) (a : Address) (name : String) (v : Value) :
    (s.withConsole c).assign a name v =
      ((s.assign a name v).1, (s.assign a name v).2.withConsole c) := by
  unfold assign
  rw [holder?_withConsole]
  split <;> rfl

end Store

def Failure.IsInner : Failure → Prop
  | .panic _ | .exit _ => False
  | _ => True

namespace Run

variable {α β ε : Type}

def mapStore (f : Store → Store) : EStateM.Result Failure Store α → EStateM.Result Failure Store α
  | .ok a t => .ok a (f t)
  | .error failure t => .error failure (f t)

structure Silent (m : Run α) : Prop where
  withConsole : ∀ s c, m (s.withConsole c) = mapStore (·.withConsole c) (m s)
  isInner : ∀ s failure t, m s = .error failure t → failure.IsInner

/-- All that it does to any console is to print a text, the same on each. -/
structure Prints (m : Run α) : Prop where
  withConsole : ∀ s, ∃ text, ∀ c,
    m (s.withConsole c) = mapStore (·.withConsole (c.print text)) (m s)
  isInner : ∀ s failure t, m s = .error failure t → failure.IsInner

theorem Silent.prints {m : Run α} (h : m.Silent) : m.Prints where
  withConsole s := ⟨"", fun c => by rw [c.print_empty, h.withConsole]⟩
  isInner := h.isInner

/-! Steps that leave the console alone. -/

theorem silent_pure (a : α) : Silent (pure a : Run α) := ⟨fun _ _ => rfl, fun _ _ _ h => nomatch h⟩

theorem silent_throw {failure : Failure} (h : failure.IsInner) :
    Silent (throw failure : Run α) where
  withConsole _ _ := rfl
  isInner _ _ _ heq := by
    obtain ⟨rfl, _⟩ := EStateM.Result.error.inj heq
    exact h

theorem silent_tooDeep : Silent (throw .tooDeep : Run α) := silent_throw trivial

theorem silent_ofExcept {wrap : ε → Failure} {r : Except ε α}
    (h : ∀ e, r = .error e → (wrap e).IsInner) : Silent (ofExcept wrap r) := by
  cases r with
  | ok a => exact silent_pure a
  | error e => exact silent_throw (h e rfl)

theorem silent_get {f : Store → Run α} (hf : ∀ s, Silent (f s))
    (hconsole : ∀ s c, f (s.withConsole c) = f s) : Silent (get >>= f) where
  withConsole s c := by
    have h := (hf s).withConsole s c
    change f (s.withConsole c) (s.withConsole c) = _
    rw [hconsole]
    exact h
  isInner s := (hf s).isInner s

theorem silent_define (a : Address) (name : String) (v : Value) : Silent (define a name v) :=
  ⟨fun _ _ => rfl, fun _ _ _ h => nomatch h⟩

theorem silent_tryAssign (a : Address) (name : String) (v : Value) :
    Silent (tryAssign a name v) where
  withConsole s c := by
    have heq : ∀ u : Store, tryAssign a name v u =
        .ok (u.assign a name v).1 (u.assign a name v).2 := fun _ => rfl
    rw [heq, heq, s.assign_withConsole]
    rfl
  isInner _ _ _ h := nomatch h

theorem silent_alloc (f : Address → Frame) : Silent (alloc f) :=
  ⟨fun _ _ => rfl, fun _ _ _ h => nomatch h⟩

theorem silent_newClosure (name : String) (params : List String) (body : Expr) (a : Address) :
    Silent (newClosure name params body a) := ⟨fun _ _ => rfl, fun _ _ _ h => nomatch h⟩

/-! Runs that print are put together to runs that print. -/

theorem prints_print (text : String) : Prints (print text) :=
  ⟨fun _ => ⟨text, fun _ => rfl⟩, fun _ _ _ h => nomatch h⟩

theorem Prints.bind {m : Run α} {f : α → Run β} (hm : m.Prints) (hf : ∀ a, (f a).Prints) :
    Prints (m >>= f) where
  withConsole s := by
    obtain ⟨first, hfirst⟩ := hm.withConsole s
    simp only [Bind.bind, EStateM.bind]
    cases hrun : m s with
    | error failure t =>
      rw [hrun] at hfirst
      exact ⟨first, fun c => by rw [hfirst c]; rfl⟩
    | ok a t =>
      rw [hrun] at hfirst
      obtain ⟨second, hsecond⟩ := (hf a).withConsole t
      refine ⟨first ++ second, fun c => ?_⟩
      rw [hfirst c, ← c.print_print]
      exact hsecond (c.print first)
  isInner s failure t h := by
    rcases bind_error_iff.mp h with h | ⟨a, u, _, h⟩
    · exact hm.isInner s failure t h
    · exact (hf a).isInner u failure t h

theorem console_after_eq {m : Run α} {s : Store} {c : Console}
    (h : m s = mapStore (·.withConsole c) (m s)) : (after m s).console = c := by
  unfold after
  cases hrun : m s <;> rw [hrun] at h
  · exact congrArg Store.console (EStateM.Result.ok.inj h).2
  · exact congrArg Store.console (EStateM.Result.error.inj h).2

end Run

theorem Run.Prints.anchored {m : Run Value} (anchor : Option Token) (h : m.Prints) :
    (anchored anchor m).Prints where
  withConsole s := by
    obtain ⟨text, htext⟩ := h.withConsole s
    refine ⟨text, fun c => ?_⟩
    unfold MiniScheme.anchored
    rw [tryCatch_apply, tryCatch_apply, htext c]
    cases m s with
    | ok v t => rfl
    | error failure t => cases failure <;> rfl
  isInner s failure t hrun := by
    unfold MiniScheme.anchored at hrun
    rw [tryCatch_apply] at hrun
    cases hm : m s with
    | ok v u =>
      rw [hm] at hrun
      cases hrun
    | error inner u =>
      rw [hm] at hrun
      have hinner := h.isInner s inner u hm
      cases inner <;> obtain ⟨rfl, _⟩ := EStateM.Result.error.inj hrun <;> exact hinner

end MiniScheme
