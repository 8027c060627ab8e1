import MiniScheme.Proofs.Eval.Writes

/-! The limit of evaluation does nothing but end runs. With more levels a run that has not come to
its limit is the same run, and one that has come to it goes on from there. -/

namespace MiniScheme

def Console.Within (c d d' : Console) : Prop :=
  ∃ text more errors errors', d = c.extend text errors ∧ d' = c.extend (text ++ more) errors'

namespace Console

variable {c d d' : Console}

theorem within_extend (c : Console) (text errors : String) :
    c.Within (c.extend text errors) (c.extend text errors) :=
  ⟨text, "", errors, errors, rfl, by rw [String.append_empty]⟩

theorem Within.extend_right (h : c.Within d d') (text errors : String) :
    c.Within d (d'.extend text errors) := by
  obtain ⟨first, more, before, before', rfl, rfl⟩ := h
  refine ⟨first, more ++ text, before, before' ++ errors, rfl, ?_⟩
  rw [extend_extend, String.append_assoc]

theorem Within.warn_left (h : c.Within d d') (errors : String) :
    c.Within (d.extend "" errors) d' := by
  obtain ⟨first, more, before, before', rfl, rfl⟩ := h
  refine ⟨first, more, before ++ errors, before', ?_, rfl⟩
  rw [extend_extend, String.append_empty]

theorem Within.of_extend {text errors : String} (h : (c.extend text errors).Within d d') :
    c.Within d d' := by
  obtain ⟨first, more, before, before', rfl, rfl⟩ := h
  refine ⟨text ++ first, more, errors ++ before, errors ++ before', c.extend_extend .., ?_⟩
  rw [extend_extend, String.append_assoc]

end Console

namespace Run

variable {α β : Type}

def Stops (stop : {α : Type} → Run α) : Prop :=
  ∀ {α β : Type} (s : Store), ∃ failure t errors,
    (stop : Run α) s = .error failure t ∧ (stop : Run β) s = .error failure t ∧
      t.console = s.console.extend "" errors

theorem stops_throw (failure : Failure) : Stops (throw failure) :=
  fun s => ⟨failure, s, "", rfl, rfl, s.console.extend_empty.symm⟩

theorem stops_panic (message : String) : Stops (panic message) := by
  intro α β s
  change ∃ failure t errors, (panic message : Run α) s = .error failure t ∧
    (panic message : Run β) s = .error failure t ∧ t.console = s.console.extend "" errors
  rw [panic_apply, panic_apply]
  split
  · exact ⟨_, s, "", rfl, rfl, s.console.extend_empty.symm⟩
  · refine ⟨_, _, message ++ "\n", rfl, rfl, ?_⟩
    unfold Console.extend
    rw [s.console.print_empty, ← String.append_assoc]
    rfl

variable {stop : {α : Type} → Run α} {m m' : Run α}

structure CutShort (stop : {α : Type} → Run α) (m m' : Run α) : Prop where
  traced : m'.Traced
  cut : ∀ s, m s = m' s ∨
    (∃ t, m s = stop t) ∧ s.console.Within (after m s).console (after m' s).console

theorem Traced.cutShort (h : m.Traced) : CutShort stop m m := ⟨h, fun _ => .inl rfl⟩

theorem Traced.cutShort_stop (h : m.Traced) (hstop : Stops stop) : CutShort stop stop m := by
  refine ⟨h, fun s => .inr ⟨⟨s, rfl⟩, ?_⟩⟩
  obtain ⟨failure, t, errors, hleft, _, hconsole⟩ := hstop (α := α) (β := α) s
  obtain ⟨text, errors', hright⟩ := h.console_after s
  exact ⟨"", text, errors, errors', by rw [after_of_error hleft, hconsole],
    by rw [hright, String.empty_append]⟩

theorem CutShort.within (h : CutShort stop m m') (s : Store) :
    s.console.Within (after m s).console (after m' s).console := by
  rcases h.cut s with heq | ⟨_, hwithin⟩
  · obtain ⟨text, errors, hconsole⟩ := h.traced.console_after s
    have hafter : after m s = after m' s := by
      unfold after
      rw [heq]
    rw [hafter, hconsole]
    exact s.console.within_extend text errors
  · exact hwithin

theorem CutShort.eq_of_not_stopped (h : CutShort stop m m') (s : Store)
    (hne : ∀ t, m s ≠ stop t) : m' s = m s := by
  rcases h.cut s with heq | ⟨⟨t, ht⟩, _⟩
  · exact heq.symm
  · exact absurd ht (hne t)

theorem within_bind {c d : Console} {f : α → Run β} {s : Store}
    (h : c.Within d (after m s).console) (hf : ∀ a, (f a).Traced) :
    c.Within d (after (m >>= f) s).console := by
  rw [after_bind]
  cases hrun : m s with
  | error failure t =>
    rw [after_of_error hrun] at h
    exact h
  | ok a t =>
    obtain ⟨text, errors, hconsole⟩ := (hf a).console_after t
    rw [after_of_ok hrun] at h
    simp only [hconsole]
    exact h.extend_right text errors

theorem within_tryCatch {c d : Console} {handle : Failure → Run α} {s : Store}
    (h : c.Within d (after m s).console) (hhandle : ∀ failure, (handle failure).Traced) :
    c.Within d (after (tryCatch m handle) s).console := by
  rw [after_tryCatch]
  cases hrun : m s with
  | ok a t =>
    rw [after_of_ok hrun] at h
    exact h
  | error failure t =>
    obtain ⟨text, errors, hconsole⟩ := Traced.console_after (hhandle failure) t
    rw [after_of_error hrun] at h
    simp only [hconsole]
    exact h.extend_right text errors

theorem CutShort.bind {f f' : α → Run β} (hstop : Stops stop) (hm : CutShort stop m m')
    (hf : ∀ a, CutShort stop (f a) (f' a)) : CutShort stop (m >>= f) (m' >>= f') := by
  refine ⟨hm.traced.bind fun a => (hf a).traced, fun s => ?_⟩
  rcases hm.cut s with heq | ⟨⟨u, hu⟩, hwithin⟩
  · cases hrun : m' s with
    | error failure t =>
      exact .inl ((bind_of_error (heq.trans hrun)).trans (bind_of_error hrun).symm)
    | ok a t =>
      have hleft : (m >>= f) s = f a t := bind_of_ok (heq.trans hrun)
      have hright : (m' >>= f') s = f' a t := bind_of_ok hrun
      rcases (hf a).cut t with heq' | ⟨⟨u, hu⟩, hwithin⟩
      · exact .inl (by rw [hleft, hright, heq'])
      · refine .inr ⟨⟨u, hleft.trans hu⟩, ?_⟩
        -- both have printed the same up to here
        obtain ⟨text, errors, hconsole⟩ := hm.traced.console_after s
        rw [after_of_ok hrun] at hconsole
        rw [hconsole] at hwithin
        simp only [after_bind, heq, hrun]
        exact hwithin.of_extend
  · obtain ⟨failure, t, _, hstopα, hstopβ, _⟩ := hstop (α := α) (β := β) u
    have hfail : m s = .error failure t := hu.trans hstopα
    have hleft : (m >>= f) s = .error failure t := bind_of_error hfail
    refine .inr ⟨⟨u, hleft.trans hstopβ.symm⟩, ?_⟩
    rw [after_of_error hfail] at hwithin
    rw [after_of_error hleft]
    exact within_bind hwithin fun a => (hf a).traced

theorem CutShort.tryCatch {handle : Failure → Run α} (hstop : Stops stop)
    (hm : CutShort (throw .tooDeep) m m') (hhandle : ∀ failure, (handle failure).Traced)
    (htooDeep : handle .tooDeep = stop) :
    CutShort stop (tryCatch m handle) (tryCatch m' handle) := by
  refine ⟨hm.traced.tryCatch hhandle, fun s => ?_⟩
  rcases hm.cut s with heq | ⟨⟨u, hu⟩, hwithin⟩
  · exact .inl (by rw [tryCatch_apply, tryCatch_apply, heq])
  · have hfail : m s = .error .tooDeep u := hu
    have hleft : MonadExcept.tryCatch m handle s = stop u := by
      rw [tryCatch_apply, hfail, ← htooDeep]
    refine .inr ⟨⟨u, hleft⟩, ?_⟩
    obtain ⟨failure, t, errors, hstopα, _, hconsole⟩ := hstop (α := α) (β := α) u
    rw [after_of_error hfail] at hwithin
    rw [after_of_error (hleft.trans hstopα), hconsole]
    exact (within_tryCatch hwithin hhandle).warn_left errors

end Run

open Run

theorem lifts_cutShort (more : Nat) : Lifts more (CutShort (throw .tooDeep)) where
  silent h := h.traced.cutShort
  bind hm hf := hm.bind (stops_throw _) hf
  anchored anchor hm := by
    refine hm.tryCatch (stops_throw _) (fun failure => ?_) rfl
    cases failure <;> exact traced_throw _
  cut {_ _ r'} h := by
    rcases h.eq with rfl | rfl
    · exact (traced_ofExcept r').cutShort_stop (stops_throw _)
    · exact (traced_ofExcept _).cutShort
  print text := (traced_print text).cutShort
  eval e env := ((lifts_traced.all more).1 e env).cutShort_stop (stops_throw _)
  apply anchor f args := ((lifts_traced.all more).2.1 anchor f args).cutShort_stop (stops_throw _)
  primitive op args := ((lifts_traced.all more).2.2 op args).cutShort_stop (stops_throw _)

theorem liftsTop_cutShort (limit more : Nat) : LiftsTop limit (limit + more)
    (CutShort (panic "runtime error: maximum recursion depth exceeded")) where
  silent h := h.traced.cutShort
  bind hm hf := hm.bind (stops_panic _) hf
  panicWith text := (traced_panicWith text).cutShort
  evalTop e env := by
    rw [evalTop_eq, evalTop_eq]
    exact (((lifts_cutShort more).all limit).1 e env).tryCatch (stops_panic _) traced_surface rfl

/-- Under a larger limit an expression, and a program, ends as it does under a smaller one, with the
same value or failure, the same frames and the same output, unless it ends there at the limit; and
then what it has printed by that time is the beginning of what it prints under the larger one. -/
theorem larger_limit {limit larger : Nat} (h : limit ≤ larger) :
    (∀ e env s,
      ((∀ t, eval limit e env s ≠ .error .tooDeep t) → eval larger e env s = eval limit e env s) ∧
        s.console.Within (after (eval limit e env) s).console
          (after (eval larger e env) s).console) ∧
      ∀ es env s,
        ((∀ t, evalProgram limit es env s ≠
            panic "runtime error: maximum recursion depth exceeded" t) →
          evalProgram larger es env s = evalProgram limit es env s) ∧
          s.console.Within (after (evalProgram limit es env) s).console
            (after (evalProgram larger es env) s).console := by
  obtain ⟨more, rfl⟩ := Nat.exists_eq_add_of_le h
  refine ⟨fun e env s => ?_, fun es env s => ?_⟩
  · have hcut := ((lifts_cutShort more).all limit).1 e env
    exact ⟨hcut.eq_of_not_stopped s, hcut.within s⟩
  · have hcut := (liftsTop_cutShort limit more).evalProgram es env
    exact ⟨hcut.eq_of_not_stopped s, hcut.within s⟩

theorem larger_limit_display :
    let s := after newGlobal {}
    let es := [.list 0 [.atom 0 (.symbol "display"), .atom 0 (.boolean true)]]
    evalProgram 4 es 0 s = .ok .noValue (s.withConsole { buffer := "#t" }) ∧
      evalProgram 50 es 0 s = evalProgram 4 es 0 s ∧
      evalProgram 3 es 0 s = panic "runtime error: maximum recursion depth exceeded" s ∧
      s.console.Within (after (evalProgram 3 es 0) s).console
        (after (evalProgram 50 es 0) s).console := by
  intro s es
  have hrun : evalProgram 4 es 0 s = .ok .noValue (s.withConsole { buffer := "#t" }) := rfl
  have hne : ∀ t, evalProgram 4 es 0 s ≠
      panic "runtime error: maximum recursion depth exceeded" t := by
    intro t h
    rw [hrun, panic_apply] at h
    split at h <;> cases h
  have hsame := ((larger_limit (by decide : 4 ≤ 50)).2 es 0 s).1 hne
  have hwithin := ((larger_limit (by decide : 3 ≤ 50)).2 es 0 s).2
  exact ⟨hrun, hsame, rfl, hwithin⟩

end MiniScheme
