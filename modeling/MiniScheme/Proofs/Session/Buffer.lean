import MiniScheme.Proofs.Eval.Writes

/-! Output that waits in the buffer. Runs only add to it, so that over a whole session what has been
flushed and what still waits is what has been printed. -/

namespace MiniScheme

def Store.withBuffer (s : Store) (text : String) : Store :=
  s.withConsole { s.console with buffer := text }

namespace Run

variable {α : Type}

theorem deliver_withBuffer (c : Console) (before text : String)
    (r : EStateM.Result Failure Store α) :
    deliver { c with buffer := before } text r =
      mapStore (fun t => t.withBuffer (before ++ t.console.buffer))
        (deliver { c with buffer := "" } text r) := by
  have hprint : { c with buffer := before }.print text =
      let d := { c with buffer := "" }.print text
      { d with buffer := before ++ d.buffer } := by
    unfold Console.print
    cases c.buffersOutput <;> simp
  unfold deliver
  rw [hprint]
  cases r with
  | ok a t => rfl
  | error failure t =>
    cases failure with
    | panic message => cases c.raisesPanics <;> rfl
    | _ => rfl

theorem Reports.withBuffer {m : Run α} (h : m.Reports) (s : Store) (before : String) :
    m (s.withBuffer before) =
      mapStore (fun t => t.withBuffer (before ++ t.console.buffer)) (m (s.withBuffer "")) := by
  obtain ⟨r, text, hr⟩ := h s
  have hrun : ∀ buffer, m (s.withBuffer buffer) = deliver { s.console with buffer } text r :=
    fun _ => hr _
  rw [hrun, hrun, deliver_withBuffer]

end Run

inductive HostCall
  | interpret (limit : Nat) (source : String) (env : Option Address)
  | print (text : String)
  | flush

inductive Transcript : List HostCall → Store → List String → List String → Store → Prop
  | nil (s : Store) : Transcript [] s [] [] s
  | interpret {limit : Nat} {source : String} {env : Option Address} {s : Store}
      {texts : List String} (hwrites : (interpret limit source env).Writes s texts)
      {calls : List HostCall} {printed flushed : List String} {t : Store}
      (h : Transcript calls (Run.after (interpret limit source env) s) printed flushed t) :
      Transcript (.interpret limit source env :: calls) s (texts ++ printed) flushed t
  | print {text : String} {s : Store} {calls : List HostCall} {printed flushed : List String}
      {t : Store} (h : Transcript calls (Run.after (Run.print text) s) printed flushed t) :
      Transcript (.print text :: calls) s (text :: printed) flushed t
  | flush {s u : Store} {text : String} (hflush : Run.flush s = .ok text u)
      {calls : List HostCall} {printed flushed : List String} {t : Store}
      (h : Transcript calls u printed flushed t) :
      Transcript (.flush :: calls) s printed (text :: flushed) t

namespace Transcript

theorem exists_of_calls (calls : List HostCall) (s : Store) :
    ∃ printed flushed t, Transcript calls s printed flushed t := by
  induction calls generalizing s with
  | nil => exact ⟨[], [], s, .nil s⟩
  | cons call calls ih =>
    cases call with
    | interpret limit source env =>
      obtain ⟨texts, htexts⟩ := (liftsTop_traced limit).interpret source env s
      obtain ⟨printed, flushed, t, h⟩ := ih (Run.after (MiniScheme.interpret limit source env) s)
      exact ⟨texts ++ printed, flushed, t, .interpret htexts h⟩
    | print text =>
      obtain ⟨printed, flushed, t, h⟩ := ih (Run.after (Run.print text) s)
      exact ⟨text :: printed, flushed, t, .print h⟩
    | flush =>
      obtain ⟨printed, flushed, t, h⟩ := ih (s.withBuffer "")
      exact ⟨printed, s.console.buffer :: flushed, t, .flush rfl h⟩

theorem flushed_append_buffer {calls : List HostCall} {s t : Store} {printed flushed : List String}
    (h : Transcript calls s printed flushed t) (hbuffers : s.console.buffersOutput = true) :
    String.join flushed ++ t.console.buffer = s.console.buffer ++ String.join printed := by
  induction h with
  | nil s => rw [String.join_nil, String.empty_append, String.append_empty]
  | @interpret limit source env s texts hwrites calls printed flushed t _ ih =>
    obtain ⟨errors, hconsole⟩ := hwrites.console_after
    have hbuffer := Console.buffer_extend hbuffers (String.join texts) errors
    rw [← s.console.buffersOutput_extend (String.join texts) errors] at hbuffers
    rw [← hconsole] at hbuffers hbuffer
    rw [ih hbuffers, hbuffer, String.join_append, String.append_assoc]
  | @print text s calls printed flushed t _ ih =>
    have hbuffer := Console.buffer_extend hbuffers text ""
    rw [← s.console.buffersOutput_extend text ""] at hbuffers
    rw [← Console.print_eq_extend] at hbuffers hbuffer
    rw [ih hbuffers, String.join_cons, ← String.append_assoc]
    exact congrArg (· ++ String.join printed) hbuffer
  | @flush s u text hflush calls printed flushed t _ ih =>
    obtain ⟨rfl, rfl⟩ := EStateM.Result.ok.inj hflush
    rw [String.join_cons, String.append_assoc, ih hbuffers]
    exact congrArg (s.console.buffer ++ ·) (String.empty_append)

end Transcript

/-- A program that finds text in the buffer ends as it does with an empty one and leaves its own
text behind that. So in every session, whatever calls fail in it, the flushed texts and the rest in
the buffer are the printed texts in their order. -/
theorem buffer_in_order :
    (∀ (limit : Nat) (es : List Expr) (env : Address) (s : Store) (before : String),
      evalProgram limit es env (s.withBuffer before) =
        Run.mapStore (fun t => t.withBuffer (before ++ t.console.buffer))
          (evalProgram limit es env (s.withBuffer ""))) ∧
      ∀ (calls : List HostCall) (s : Store), s.console.buffersOutput = true →
        (∃ printed flushed t, Transcript calls s printed flushed t) ∧
          ∀ printed flushed t, Transcript calls s printed flushed t →
            String.join flushed ++ t.console.buffer = s.console.buffer ++ String.join printed := by
  refine ⟨fun limit es env s before => ?_, fun calls s hbuffers => ?_⟩
  · exact ((liftsTop_reports limit).evalProgram es env).withBuffer s before
  · exact ⟨Transcript.exists_of_calls calls s, fun _ _ _ h => h.flushed_append_buffer hbuffers⟩

theorem buffer_in_order_after_panic :
    let calls := [.print "a", .interpret 50 "(display 1) (car 1)" none, .flush, .print "b"]
    ∃ printed flushed t, Transcript calls {} printed flushed t ∧
      String.join flushed ++ t.console.buffer = String.join printed := by
  intro calls
  obtain ⟨hexists, horder⟩ := buffer_in_order.2 calls {} rfl
  obtain ⟨printed, flushed, t, h⟩ := hexists
  have heq := horder printed flushed t h
  exact ⟨printed, flushed, t, h, heq.trans String.empty_append⟩

end MiniScheme
