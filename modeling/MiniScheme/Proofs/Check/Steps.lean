import MiniScheme.Check.Trace
import MiniScheme.Proofs.Run.Console

/-! What the steps of a check have done if it comes to a value, and which of them cannot end in a
panic. -/

namespace MiniScheme
namespace Check

variable {α β : Type} {m : Check α} {s t : Store} {expected : Option String} {found : String}
  {message : String}

theorem bind_eq_ok {f : α → Check β} {b : β} :
    (m >>= f) s = .ok b t ↔ ∃ a u, m s = .ok a u ∧ f a u = .ok b t := by
  cases hm : m s <;> simp [Bind.bind, EStateM.bind, hm, and_assoc]

theorem then_eq_ok {first : Check Unit} {second : Check β} {b : β} :
    (do first; second) s = .ok b t ↔ ∃ u, first s = .ok () u ∧ second u = .ok b t := by
  rw [bind_eq_ok]
  constructor
  · rintro ⟨_, u, hfirst, hsecond⟩
    exact ⟨u, hfirst, hsecond⟩
  · rintro ⟨u, hfirst, hsecond⟩
    exact ⟨(), u, hfirst, hsecond⟩

theorem bind_eq_error {f : α → Check β} {failure : CheckFailure} :
    (m >>= f) s = .error failure t ↔
      m s = .error failure t ∨ ∃ a u, m s = .ok a u ∧ f a u = .error failure t := by
  cases hm : m s <;> simp [Bind.bind, EStateM.bind, hm, and_assoc]

theorem ofRun_eq_ok {run : Run α} {a : α} : ofRun run s = .ok a t ↔ run s = .ok a t := by
  unfold ofRun
  cases run s <;> simp

theorem ofRun_eq_error {run : Run α} {failure : Failure} :
    ofRun run s = .error (.run failure) t ↔ run s = .error failure t := by
  unfold ofRun
  cases run s <;> simp

theorem ofExcept_eq_ok {r : Except Failure α} {a : α} :
    ofExcept r s = .ok a t ↔ r = .ok a ∧ s = t := by
  cases r with
  | ok b => simp [ofExcept, ofRun_eq_ok, Run.ofExcept, pure, EStateM.pure]
  | error failure => exact iff_of_false nofun nofun

theorem mayEqual_eq_ok :
    mayEqual expected found s = .ok () t ↔ (∀ text ∈ expected, text = found) ∧ s = t := by
  cases expected with
  | none => simp [mayEqual, pure, EStateM.pure]
  | some text =>
    by_cases h : found = text
    · simp [mayEqual, holds, h, pure, EStateM.pure]
    · refine iff_of_false (fun hfails => ?_) fun hmet => h (hmet.1 text rfl).symm
      simp only [mayEqual, holds, beq_iff_eq, if_neg h] at hfails
      cases hfails

theorem mustEqual_eq_ok {key : String} :
    mustEqual key expected found s = .ok () t ↔ expected = some found ∧ s = t := by
  cases expected with
  | none => exact iff_of_false nofun nofun
  | some text =>
    have hmay : mustEqual key (some text) found s = mayEqual (some text) found s := rfl
    rw [hmay, mayEqual_eq_ok, Option.some_inj]
    exact and_congr_left' ⟨fun hmet => hmet text rfl, fun heq t ht => Option.some.inj ht ▸ heq⟩

def NeverPanics (m : Check α) : Prop :=
  ∀ s message t, m s ≠ .error (.run (.panic message)) t

theorem NeverPanics.bind {f : α → Check β} (hm : NeverPanics m) (hf : ∀ a, NeverPanics (f a)) :
    NeverPanics (m >>= f) := by
  intro s message t h
  rcases bind_eq_error.mp h with h | ⟨a, u, _, h⟩
  · exact hm s message t h
  · exact hf a u message t h

theorem neverPanics_line (text : String) : NeverPanics (line text) := nofun

theorem neverPanics_mayEqual (expected : Option String) (found : String) :
    NeverPanics (mayEqual expected found) := by
  intro s message t
  cases expected with
  | none => nofun
  | some text =>
    simp only [mayEqual, holds]
    split <;> nofun

theorem neverPanics_mustEqual (key : String) (expected : Option String) (found : String) :
    NeverPanics (mustEqual key expected found) := by
  cases expected with
  | none => nofun
  | some text => exact neverPanics_mayEqual (some text) found

theorem neverPanics_ofExcept {r : Except Failure α}
    (h : ∀ failure, r = .error failure → failure.IsInner) : NeverPanics (ofExcept r) := by
  intro s message t heq
  obtain ⟨_, rfl, rfl, _⟩ := Run.ofExcept_error_iff.mp (ofRun_eq_error.mp heq)
  exact h _ rfl

theorem tryCatch_eq_ok {handle : CheckFailure → Check α} {a : α} :
    tryCatch m handle s = .ok a t ↔ m s = .ok a t ∨
      ∃ failure u, m s = .error failure u ∧ handle failure u = .ok a t := by
  simp only [tryCatch, tryCatchThe, MonadExceptOf.tryCatch]
  delta EStateM.tryCatch
  dsimp only
  cases hm : m s with
  | ok b u => simp
  | error failure u =>
    simp only [reduceCtorEq, EStateM.Result.error.injEq, false_or]
    constructor
    · intro h
      exact ⟨failure, u, ⟨rfl, rfl⟩, h⟩
    · rintro ⟨_, _, ⟨rfl, rfl⟩, h⟩
      exact h

theorem onPanic_eq_ok {check : Check Unit} {handle : String → Check Unit} :
    onPanic check handle s = .ok () t ↔ check s = .ok () t ∨
      ∃ message u, check s = .error (.run (.panic message)) u ∧ handle message u = .ok () t := by
  rw [onPanic, tryCatch_eq_ok]
  refine or_congr_right ⟨?_, ?_⟩
  · rintro ⟨failure, u, hcheck, h⟩
    cases failure with
    | run failure =>
      cases failure with
      | panic message => exact ⟨message, u, hcheck, h⟩
      | _ => cases h
    | _ => cases h
  · rintro ⟨message, u, hcheck, h⟩
    exact ⟨_, u, hcheck, h⟩

end Check
end MiniScheme
