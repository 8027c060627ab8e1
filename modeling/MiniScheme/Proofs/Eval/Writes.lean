import MiniScheme.Proofs.Eval.Output
import MiniScheme.Proofs.Eval.Relabeling

/-! The texts that a run prints, in their order. They are those of its steps up to where it ends,
and all of them stand behind what was there before. -/

namespace MiniScheme
namespace Console

theorem print_eq_extend (c : Console) (text : String) : c.print text = c.extend text "" := by
  unfold extend
  rw [String.append_empty, ← c.stderr_print text]

theorem extend_extend (c : Console) (text errors more moreErrors : String) :
    (c.extend text errors).extend more moreErrors =
      c.extend (text ++ more) (errors ++ moreErrors) := by
  have hstderr : (c.extend text errors).stderr = c.stderr ++ errors := rfl
  rw [extend, print_extend, hstderr]
  unfold extend
  simp only [String.append_assoc]

theorem buffersOutput_extend (c : Console) (text errors : String) :
    (c.extend text errors).buffersOutput = c.buffersOutput := by
  unfold extend print
  split <;> rfl

theorem buffer_extend {c : Console} (hc : c.buffersOutput = true) (text errors : String) :
    (c.extend text errors).buffer = c.buffer ++ text := by
  simp [extend, print, hc]

end Console

namespace Run

variable {α β : Type} {m : Run α} {s t : Store}

/-- The run from this store prints these texts. They are read off the steps that it is put together
from: of these only `print` prints, and the message of a panic goes another way. -/
inductive Writes : {α : Type} → Run α → Store → List String → Prop
  | silent {α : Type} {m : Run α} {s : Store}
      (h : ∀ c, m (s.withConsole c) = mapStore (·.withConsole c) (m s)) : Writes m s []
  | print (text : String) (s : Store) : Writes (print text) s [text]
  | panic {α : Type} (message : String) (s : Store) : Writes (panic message : Run α) s []
  | bind_ok {α β : Type} {m : Run α} {f : α → Run β} {s t : Store} {a : α}
      {first second : List String} (hrun : m s = .ok a t) (hm : Writes m s first)
      (hf : Writes (f a) t second) : Writes (m >>= f) s (first ++ second)
  | bind_error {α β : Type} {m : Run α} (f : α → Run β) {s t : Store} {failure : Failure}
      {texts : List String} (hrun : m s = .error failure t) (hm : Writes m s texts) :
      Writes (m >>= f) s texts
  | tryCatch_ok {α : Type} {m : Run α} (handle : Failure → Run α) {s t : Store} {a : α}
      {texts : List String} (hrun : m s = .ok a t) (hm : Writes m s texts) :
      Writes (tryCatch m handle) s texts
  | tryCatch_error {α : Type} {m : Run α} {handle : Failure → Run α} {s t : Store}
      {failure : Failure} {first second : List String} (hrun : m s = .error failure t)
      (hm : Writes m s first) (hhandle : Writes (handle failure) t second) :
      Writes (tryCatch m handle) s (first ++ second)

theorem Writes.console_after {texts : List String} (h : m.Writes s texts) :
    ∃ errors, (after m s).console = s.console.extend (String.join texts) errors := by
  induction h with
  | @silent _ m s h =>
    have hconsole : (after m s).console = s.console := console_after_eq (h s.console)
    exact ⟨"", by rw [hconsole, String.join_nil, s.console.extend_empty]⟩
  | print text s =>
    refine ⟨"", ?_⟩
    rw [String.join_cons, String.join_nil, String.append_empty, ← Console.print_eq_extend]
    rfl
  | panic message s =>
    unfold after
    rw [panic_apply, String.join_nil]
    cases s.console.raisesPanics
    · refine ⟨message ++ "\n", ?_⟩
      unfold Console.extend
      rw [s.console.print_empty, ← String.append_assoc]
      rfl
    · exact ⟨"", s.console.extend_empty.symm⟩
  | @bind_ok _ _ m f s t a first second hrun _ _ hm hf =>
    obtain ⟨errors, herrors⟩ := hm
    obtain ⟨more, hmore⟩ := hf
    refine ⟨errors ++ more, ?_⟩
    rw [after_of_ok hrun] at herrors
    simp only [after_bind, hrun, hmore, herrors, Console.extend_extend, String.join_append]
  | bind_error f hrun _ hm =>
    obtain ⟨errors, herrors⟩ := hm
    refine ⟨errors, ?_⟩
    rw [after_of_error hrun] at herrors
    simp only [after_bind, hrun, herrors]
  | tryCatch_ok handle hrun _ hm =>
    obtain ⟨errors, herrors⟩ := hm
    refine ⟨errors, ?_⟩
    rw [after_of_ok hrun] at herrors
    simp only [after_tryCatch, hrun, herrors]
  | tryCatch_error hrun _ _ hm hhandle =>
    obtain ⟨errors, herrors⟩ := hm
    obtain ⟨more, hmore⟩ := hhandle
    refine ⟨errors ++ more, ?_⟩
    rw [after_of_error hrun] at herrors
    simp only [after_tryCatch, hrun, hmore, herrors, Console.extend_extend, String.join_append]

def Traced (m : Run α) : Prop := ∀ s, ∃ texts, m.Writes s texts

theorem Traced.console_after (h : m.Traced) (s : Store) :
    ∃ text errors, (after m s).console = s.console.extend text errors := by
  obtain ⟨texts, htexts⟩ := h s
  exact ⟨String.join texts, htexts.console_after⟩

theorem Silent.traced (h : m.Silent) : m.Traced := fun s => ⟨[], .silent (h.withConsole s)⟩

theorem traced_throw (failure : Failure) : Traced (throw failure : Run α) :=
  fun _ => ⟨[], .silent fun _ => rfl⟩

theorem Traced.bind {f : α → Run β} (hm : m.Traced) (hf : ∀ a, (f a).Traced) :
    Traced (m >>= f) := by
  intro s
  obtain ⟨first, hfirst⟩ := hm s
  cases hrun : m s with
  | ok a t =>
    obtain ⟨second, hsecond⟩ := hf a t
    exact ⟨first ++ second, .bind_ok hrun hfirst hsecond⟩
  | error failure t => exact ⟨first, .bind_error f hrun hfirst⟩

theorem Traced.tryCatch {handle : Failure → Run α} (hm : m.Traced)
    (hhandle : ∀ failure, (handle failure).Traced) : Traced (tryCatch m handle) := by
  intro s
  obtain ⟨first, hfirst⟩ := hm s
  cases hrun : m s with
  | ok a t => exact ⟨first, .tryCatch_ok handle hrun hfirst⟩
  | error failure t =>
    obtain ⟨second, hsecond⟩ := hhandle failure t
    exact ⟨first ++ second, .tryCatch_error hrun hfirst hsecond⟩

theorem traced_print (text : String) : (print text).Traced := fun s => ⟨[text], .print text s⟩

theorem traced_ofExcept (r : Except Failure α) : (ofExcept id r).Traced := by
  cases r with
  | ok a => exact (silent_pure a).traced
  | error failure => exact traced_throw failure

theorem traced_panicWith (text : Except ArithmeticError String) :
    Traced (panicWith text : Run α) := by
  cases text with
  | ok message => exact fun s => ⟨[], .panic message s⟩
  | error e => exact traced_throw _

end Run

open Run

theorem traced_surface (failure : Failure) : (surface failure).Traced := by
  unfold surface
  split
  · exact traced_panicWith _
  · exact traced_panicWith _
  · exact traced_throw _

theorem traced_anchored {m : Run Value} (anchor : Option Token) (h : m.Traced) :
    (anchored anchor m).Traced := by
  refine h.tryCatch fun failure => ?_
  cases failure <;> exact traced_throw _

theorem lifts_traced : Lifts 0 fun m _ => m.Traced where
  silent h := h.traced
  bind hm hf := hm.bind hf
  anchored := traced_anchored
  cut _ := traced_ofExcept _
  print := traced_print
  eval _ _ := silent_tooDeep.traced
  apply _ _ _ := silent_tooDeep.traced
  primitive _ _ := silent_tooDeep.traced

theorem traced_evalTop (limit : Nat) (e : Expr) (env : Address) : (evalTop limit e env).Traced := by
  rw [evalTop_eq]
  exact ((lifts_traced.all limit).1 e env).tryCatch traced_surface

theorem liftsTop_traced (limit : Nat) : LiftsTop limit limit fun m _ => m.Traced where
  silent h := h.traced
  bind hm hf := hm.bind hf
  panicWith := traced_panicWith
  evalTop := traced_evalTop limit

end MiniScheme
