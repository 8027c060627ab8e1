import MiniScheme.Proofs.Expr.Nesting
import MiniScheme.Proofs.Expr.Unread

/-! Reading again and again from any tokens, wherever the input ends in them. Each expression
moves the cursor forward over just its own tokens, so that reading fails in the end. -/

namespace MiniScheme

inductive ReadsFrom (ts : List Token) : Nat → List (Expr × List Token) → Nat → Prop
  | refl (c : Nat) : ReadsFrom ts c [] c
  | step {c c' d : Nat} {e : Expr} {reads : List (Expr × List Token)} (hlt : c < c')
      (hle : c' ≤ ts.length) (hfits : List.Forall₂ Mark.Fits e.flatten ((ts.take c').drop c))
      (h : ReadsFrom ts c' reads d) : ReadsFrom ts c ((e, ts.drop c') :: reads) d

theorem ReadsFrom.length_le {ts : List Token} {c d : Nat} {reads : List (Expr × List Token)}
    (h : ReadsFrom ts c reads d) : c + reads.length ≤ d := by
  induction h with
  | refl c => exact le_rfl
  | step hlt _ _ _ ih =>
    rw [List.length_cons]
    omega

namespace Read

variable {limit : Nat} {last : Token} {stack : List Open} {ts us rest : List Token} {n : Nesting}
  {e : Expr}

theorem untilFailure_of_error {stop : Stop} (h : next limit last ts = .error stop) :
    untilFailure limit last ts = ([], stop) := by
  rw [untilFailure]
  split <;> rename_i heq <;> rw [h] at heq <;> cases heq
  rfl

theorem untilFailure_of_ok (h : next limit last ts = .ok (e, rest)) :
    untilFailure limit last ts = (untilFailure limit last rest).map ((e, rest) :: ·) id := by
  rw [untilFailure]
  split <;> rename_i heq <;> rw [h] at heq <;> cases heq
  rfl

theorem shape_ne_endOfInput_of_step {t : Token} {p : Progress}
    (h : step limit stack t = .ok p) : t.shape ≠ .endOfInput := by
  cases takes_of_step h <;> exact Shape.noConfusion

theorem Delivers.within (h : Delivers limit stack ts e rest)
    (hopened : stack.map Open.paren = n.opened) (hnests : n.Within limit ts) :
    Nesting.start.Within limit rest := by
  induction h generalizing n with
  | here hstep =>
    have ht := shape_ne_endOfInput_of_step hstep
    exact (hnests.tail ht).congr (step_nesting hopened hstep).1.symm
  | onward hstep _ ih =>
    have ht := shape_ne_endOfInput_of_step hstep
    exact ih (step_nesting hopened hstep).1 (hnests.tail ht)

theorem Stops.ne_tooDeep {stop : Stop} (h : Stops limit last stack ts stop)
    (hopened : stack.map Open.paren = n.opened) (hnests : n.Within limit ts) :
    stop.failure ≠ .tooDeep := by
  induction h generalizing n with
  | noToken | unclosed => exact Failure.noConfusion
  | refused hstep =>
    rintro rfl
    cases takes_of_step hstep with
    | tooDeep hlen =>
      exact hlen (length_lt_of_leftParen hopened (hnests.head Shape.noConfusion))
  | onward hstep _ ih =>
    have ht := shape_ne_endOfInput_of_step hstep
    exact ih (step_nesting hopened hstep).1 (hnests.tail ht)

theorem Stops.suffix {stop : Stop} (h : Stops limit last stack ts stop) : stop.rest <:+ ts := by
  induction h with
  | noToken => exact List.suffix_refl []
  | unclosed => exact List.suffix_refl _
  | @refused _ t ts => exact List.suffix_cons t ts
  | @onward _ _ t ts _ _ _ ih => exact ih.trans (List.suffix_cons t ts)

theorem readsFrom_untilFailure (last : Token) {c : Nat} (hc : c ≤ ts.length)
    (hnests : Nesting.start.Within limit (ts.drop c)) :
    ∃ d d' err, ReadsFrom ts c (untilFailure limit last (ts.drop c)).1 d ∧ d ≤ d' ∧
      d' ≤ ts.length ∧
        (untilFailure limit last (ts.drop c)).2 = ⟨.read err, ts.drop d'⟩ := by
  generalize hus : ts.drop c = us at hnests
  induction us using untilFailure.induct limit last generalizing c with
  | case1 us stop hnext =>
    subst hus
    rw [untilFailure_of_error hnext]
    obtain ⟨front, hfront⟩ := (stops_of_next hnext).suffix
    rcases next_error hnext with hdeep | ⟨err, herr, _⟩
    · exact absurd hdeep ((stops_of_next hnext).ne_tooDeep (n := .start) rfl hnests)
    · have hlen : front.length + stop.rest.length = ts.length - c := by
        rw [← List.length_append, hfront, List.length_drop]
      refine ⟨c, c + front.length, err, .refl c, Nat.le_add_right c _, by omega, ?_⟩
      rw [← List.drop_drop, ← hfront, List.drop_left, ← herr]
  | case2 us e rest hnext ih =>
    rw [untilFailure_of_ok hnext]
    obtain ⟨taken, htaken, hfits⟩ := flatten_next hnext
    have hshorter := length_next_lt hnext
    have hlen : us.length = ts.length - c := by
      rw [← hus, List.length_drop]
    have hlen' : us.length = taken.length + rest.length := by
      rw [htaken, List.length_append]
    have hrest : ts.drop (c + taken.length) = rest := by
      rw [← List.drop_drop, hus, htaken, List.drop_left]
    have hread : (ts.take (c + taken.length)).drop c = taken := by
      rw [List.drop_take, hus, htaken, Nat.add_sub_cancel_left, List.take_left]
    obtain ⟨d, d', err, hreads, hle, hle', hstop⟩ :=
      ih (by omega) hrest ((delivers_of_next hnext).within (n := .start) rfl hnests)
    refine ⟨d, d', err, ?_, hle, hle', hstop⟩
    rw [← hrest] at hreads ⊢
    refine .step (by omega) (by omega) ?_ hreads
    rwa [hread]

theorem program_eq_ok_iff {es : List Expr} :
    program limit last ts = .ok es ↔
      ∃ front e rest more, (untilFailure limit last ts).1 = front ++ (e, rest) :: more ∧
        atEnd rest ∧ (∀ r ∈ front, ¬atEnd r.2) ∧ es = front.map Prod.fst ++ [e] := by
  induction ts using program.induct limit last generalizing es with
  | case1 ts stop hnext =>
    rw [program_of_error hnext, untilFailure_of_error hnext]
    simp
  | case2 ts e rest hnext hend =>
    rw [program_of_ok hnext, if_pos hend, untilFailure_of_ok hnext]
    constructor
    · intro h
      obtain rfl := Except.ok.inj h
      exact ⟨[], e, rest, _, rfl, hend, List.forall_mem_nil _, rfl⟩
    · rintro ⟨front, e', rest', more, hreads, _, hfront, rfl⟩
      cases front with
      | nil =>
        obtain ⟨rfl, _⟩ := Prod.mk.inj (List.cons.inj hreads).1
        rfl
      | cons r front =>
        obtain rfl := (List.cons.inj hreads).1
        exact absurd hend (hfront _ List.mem_cons_self)
  | case3 ts e rest hnext hend ih =>
    rw [program_of_ok hnext, if_neg hend, untilFailure_of_ok hnext, map_eq_ok]
    constructor
    · rintro ⟨fs, hfs, rfl⟩
      obtain ⟨front, f, rest', more, hreads, hend', hfront, rfl⟩ := ih.mp hfs
      refine ⟨(e, rest) :: front, f, rest', more, ?_, hend', ?_, rfl⟩
      · exact congrArg ((e, rest) :: ·) hreads
      · exact List.forall_mem_cons.mpr ⟨hend, hfront⟩
    · rintro ⟨front, f, rest', more, hreads, hend', hfront, rfl⟩
      cases front with
      | nil =>
        obtain ⟨rfl, rfl⟩ := Prod.mk.inj (List.cons.inj hreads).1
        exact absurd hend' hend
      | cons r front =>
        obtain ⟨rfl, hmore⟩ := List.cons.inj hreads
        have hfront := (List.forall_mem_cons.mp hfront).2
        exact ⟨_, ih.mpr ⟨front, f, rest', more, hmore, hend', hfront, rfl⟩, rfl⟩

end Read

/-- Whatever the tokens, repeated reading only goes forward and ends with an error of the reader,
and a program is what was read when the input first could end. -/
theorem readUntilFailure_progress {limit : Nat} {ts : List Token} (hnests : NestsWithin limit ts) :
    (∃ c d err, ReadsFrom ts 0 (readUntilFailure limit ts).1 c ∧ c ≤ d ∧ d ≤ ts.length ∧
      (readUntilFailure limit ts).2 = ⟨.read err, ts.drop d⟩) ∧
    (readUntilFailure limit ts).1.length ≤ ts.length ∧
    ∀ es, readProgram limit ts = .ok es ↔
      ∃ front e rest more, (readUntilFailure limit ts).1 = front ++ (e, rest) :: more ∧
        Read.atEnd rest ∧ (∀ r ∈ front, ¬Read.atEnd r.2) ∧ es = front.map Prod.fst ++ [e] := by
  obtain ⟨c, d, err, hreads, hcd, hd, hstop⟩ :=
    Read.readsFrom_untilFailure (Read.lastToken ts) (Nat.zero_le ts.length) hnests
  have hlen := hreads.length_le
  refine ⟨⟨c, d, err, hreads, hcd, hd, hstop⟩, ?_, ?_⟩
  · rw [Nat.zero_add] at hlen
    exact hlen.trans (hcd.trans hd)
  · intro es
    rw [readProgram_eq_ok, Read.program_eq_ok_iff]
    rfl

theorem readUntilFailure_inner_end :
    ∃ c d err, ReadsFrom [⟨0, .rightParen⟩, ⟨0, .endOfInput⟩, ⟨1, .leftParen⟩] 0
        (readUntilFailure 1 [⟨0, .rightParen⟩, ⟨0, .endOfInput⟩, ⟨1, .leftParen⟩]).1 c ∧
      c ≤ d ∧ d ≤ 3 ∧
      (readUntilFailure 1 [⟨0, .rightParen⟩, ⟨0, .endOfInput⟩, ⟨1, .leftParen⟩]).2 =
        ⟨.read err, [⟨0, .rightParen⟩, ⟨0, .endOfInput⟩, ⟨1, .leftParen⟩].drop d⟩ := by
  have hnests : NestsWithin 1 [⟨0, .rightParen⟩, ⟨0, .endOfInput⟩, ⟨1, .leftParen⟩] := by decide
  exact (readUntilFailure_progress hnests).1

end MiniScheme
