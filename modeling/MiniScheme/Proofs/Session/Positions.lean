import MiniScheme.Proofs.Eval.Origins
import MiniScheme.Proofs.Eval.Output
import MiniScheme.Proofs.Expr.Positions
import MiniScheme.Proofs.Store.Enclosed

/-! The positions in panics. A program evaluates nothing but what has been read from its source, and
what its closures keep of that, so every position that it names is that of a token of the source. -/

namespace MiniScheme

def Value.Stems (ts : List Token) (base : Address) (v : Value) : Prop :=
  v ≠ .unknown ∧ ∀ c, v = .closure c → base ≤ c.env ∧ c.body.Stems ts

theorem Value.IsPlain.stems {v : Value} (h : v.IsPlain) (ts : List Token) (base : Address) :
    v.Stems ts base := by
  refine ⟨h.ne_unknown, ?_⟩
  rintro c rfl
  exact h.elim

def Invariant.stemming (ts : List Token) (base : Address) : Invariant where
  store s := s.Enclosed base (Value.Stems ts base)
  env _ a := base ≤ a
  leaf _ := Value.Stems ts base
  expr := Expr.Stems ts
  failure failure := failure.Reported ∧ ∀ err, failure = .eval err → ∀ t ∈ err.anchor, t ∈ ts

namespace Invariant

variable {ts : List Token} {base : Address}

theorem orPrimitive_stemming {failure : Failure} (h : failure.OfPrimitive) :
    OrPrimitive (stemming ts base).failure failure := by
  refine h.orPrimitive.imp_right fun hreported => ⟨hreported, ?_⟩
  rintro err rfl
  exact h.elim

theorem known_of_stems {v : Value} (h : v.Every (Value.Stems ts base)) : v.Known :=
  h.mono fun _ hw => hw.1

theorem lawful_stemming (ts : List Token) (base : Address) : (stemming ts base).Lawful where
  env_extends _ h := h
  leaf_extends _ h := h
  lookup hs ha h := hs.lookup? ha h
  define hs _ hv name := hs.define hv _ name
  assign hs _ hv name := hs.assign hv _ name
  print hs _ := hs.of_frames_eq rfl
  warn hs _ := hs.of_frames_eq rfl
  items h := h.items
  quoted _ h := Expr.quoted_every (fun _ hv => hv.stems ts base) _ h
  noValue := Value.IsPlain.stems (v := .noValue) trivial ts base
  lambda hs ha he h := by
    refine ⟨hs.of_frames_eq rfl, nofun, ?_⟩
    rintro c hc
    obtain rfl := Value.closure.inj hc
    exact ⟨ha, he.items _ (Form.exprs_subset h List.mem_cons_self)⟩
  call hs hc hargs _ := by
    obtain ⟨henv, hbody⟩ := hc.2 _ rfl
    exact ⟨hs.call henv hargs, hs.le_fresh, hbody⟩
  result _ hargs _ h := Primitive.result_every (fun _ hv => hv.stems ts base) hargs h
  tooDeep := ⟨trivial, fun _ h => Failure.noConfusion h⟩
  raises he h := by
    refine ⟨fun t ht => (h.anchors ht).isAnchor, ?_⟩
    rintro err heq t ht
    obtain rfl := Failure.eval.inj heq
    exact he.mem t (h.anchors ht)
  ofCall _ := by
    refine ⟨fun _ ht => (nomatch ht), ?_⟩
    rintro err heq t ht
    obtain rfl := Failure.eval.inj heq
    cases ht
  result_error _ hargs hop hcount h :=
    orPrimitive_stemming
      (Primitive.result_error hop hcount (fun v hv => known_of_stems (hargs v hv)) h)
  text_error _ hv h := orPrimitive_stemming (Value.text_error (known_of_stems hv) h)

end Invariant

inductive Located (source : String) : String → Prop
  | parser {t : Token} {name : String} (ht : t ∈ scan source)
      (hline : t.line ≤ source.toList.count '\n')
      (htag : t.shape.tag ∈ ["EOF", "LEFT_PAREN", "NUMBER"]) (hname : t.shape.describe = .ok name)
      (fault : ReadFault) :
      Located source ("parser error at " ++ name ++ " in line " ++ (t.line + 1).repr ++ ": " ++
        fault.message)
  | runtime {t : Token} {name : String} (ht : t ∈ scan source)
      (hline : t.line ≤ source.toList.count '\n')
      (htag : t.shape.tag ∈ ["SYMBOL", "LEFT_PAREN", "RIGHT_PAREN"])
      (hname : t.shape.describe = .ok name) (fault : EvalFault) :
      Located source ("runtime error at " ++ name ++ " in line " ++ (t.line + 1).repr ++ ": " ++
        fault.message)

/-- Why an error of the expression names no token: its evaluation comes to the limit, or an
application is at fault that the primitive `apply` has started. -/
inductive Unlocated (limit : Nat) (e : Expr) (env : Address) (s t : Store) : EvalFault → Prop
  | limit (h : eval limit e env s = .error .tooDeep t) : Unlocated limit e env s t .tooDeep
  | callee {fault : EvalFault} {k : Nat} {f : Value} {args : List Value} {u : Store}
      (h : eval limit e env s = .error (.eval ⟨none, fault⟩) t) (hf : f.isProcedure = true)
      (hreach : Job.Reaches ⟨limit, .eval e env, s⟩ ⟨k + 1, .primitive .apply (f :: args), u⟩)
      (hfault : Job.AtFault ⟨k, .apply none f args, u⟩ (.eval ⟨none, fault⟩) t) :
      Unlocated limit e env s t fault

def ComesTo (limit : Nat) (source : String) (s : Store) (e : Expr) (t : Store) : Prop :=
  ∃ front rest v, readProgram limit (scan source) = .ok (front ++ e :: rest) ∧
    (Run.newGlobal >>= evalProgram limit front) s = .ok v t

section Messages

variable {source message : String} {t : Token}

theorem located_of_read {err : ReadError} (ht : err.anchor ∈ scan source)
    (hanchor : err.anchor.shape.IsReadAnchor) (h : err.text = .ok message) :
    Located source message := by
  obtain ⟨place, hplace, h⟩ := bind_eq_ok.mp h
  obtain ⟨name, hname, rfl⟩ := Token.position_eq_ok hplace
  obtain rfl := pure_eq_ok.mp h
  have hlocated := Located.parser ht (line_le_of_mem_scan ht) hanchor.tag_mem hname err.fault
  simpa only [String.append_assoc] using hlocated

theorem located_of_eval {fault : EvalFault} (ht : t ∈ scan source) (hanchor : t.shape.IsAnchor)
    (h : EvalError.text ⟨some t, fault⟩ = .ok message) : Located source message := by
  obtain ⟨place, hplace, h⟩ := bind_eq_ok.mp h
  obtain ⟨name, hname, rfl⟩ := Token.position_eq_ok hplace
  obtain rfl := pure_eq_ok.mp h
  have hlocated := Located.runtime ht (line_le_of_mem_scan ht) hanchor.tag_mem hname fault
  simpa only [String.append_assoc] using hlocated

end Messages

section Panics

variable {limit : Nat} {source message : String} {s t : Store} {failure : Failure}

theorem located_or_unlocated {e : Expr} {env : Address} {err : EvalError} {base : Address}
    (hs : s.Enclosed base (Value.Stems (scan source) base)) (henv : base ≤ env)
    (he : e.Stems (scan source)) (htext : err.text = .ok message)
    (hrun : eval limit e env s = .error (.eval err) t ∨
      eval limit e env s = .error .tooDeep t ∧ err = ⟨none, .tooDeep⟩) :
    Located source message ∨
      ∃ fault, message = "runtime error: " ++ fault.message ∧ Unlocated limit e env s t fault := by
  have hI := Invariant.lawful_stemming (scan source) base
  rcases hrun with hrun | ⟨hrun, rfl⟩
  · obtain ⟨_, _, hreported, hmem⟩ := (hI.keeps_eval hs henv he).of_error hrun
    obtain ⟨anchor, fault⟩ := err
    cases anchor with
    | some tok => exact .inl (located_of_eval (hmem _ rfl tok rfl) (hreported tok rfl) htext)
    | none =>
      obtain ⟨k, f, args, u, hreach, hf, hfault⟩ :=
        hI.exists_callee (fun _ _ h => h.1) (fun _ h => h.topLevel) hs henv he hrun
      exact .inr ⟨fault, (Except.ok.inj htext).symm, .callee hrun hf hreach hfault⟩
  · exact .inr ⟨.tooDeep, (Except.ok.inj htext).symm, .limit hrun⟩

theorem exists_located_of_unread {unread : Failure}
    (hread : readProgram limit (scan source) = .error unread)
    (h : interpret limit source none s = .error failure t) (hpanic : ¬failure.IsInner) :
    ∃ message, (Run.panic message : Run Value) s = .error failure t ∧ Located source message := by
  unfold interpret readTokens at h
  rw [hread] at h
  rcases readProgram_scan_error hread with rfl | ⟨err, rfl, hanchor⟩
  · cases h
    exact absurd trivial hpanic
  · obtain ⟨_, htext⟩ := ReadError.text_ok hanchor
    unfold Run.read Run.panicWith at h
    dsimp only at h
    rw [htext, Run.panic_bind] at h
    exact ⟨_, h, located_of_read (anchor_mem_scan hread) hanchor htext⟩

theorem stems_of_front {front rest : List Expr} {e : Expr} {v : Value} {w : Store}
    (hread : readProgram limit (scan source) = .ok (front ++ e :: rest))
    (hrun : (Run.newGlobal >>= evalProgram limit front) s = .ok v w) :
    w.Enclosed s.fresh (Value.Stems (scan source) s.fresh) ∧
      w.console.stderr = s.console.stderr := by
  have hes := stems_of_readProgram hread
  have hfront : evalProgram limit front s.fresh (s.alloc (Store.globalFrame s.fresh)) = .ok v w :=
    hrun
  obtain ⟨_, hw, _⟩ := ((Invariant.lawful_stemming (scan source) s.fresh).keeps_evalProgram
    (Store.enclosed_newGlobal (fun _ _ => ⟨nofun, nofun⟩) s) (Nat.le_refl s.fresh)
    fun e he => hes e (List.mem_append_left _ he)).of_ok hfront
  have hreports : (Run.newGlobal >>= evalProgram limit front).Reports :=
    (Run.silent_alloc _).prints.reports.bind fun a => (liftsTop_reports limit).evalProgram front a
  exact ⟨hw, hreports.stderr_of_ok hrun⟩

/-- Every reported position is real. A call that panics, in a fresh global environment, names a
token of its source with the tag, text and line of the token, or its message is without a position,
and then evaluation has come to the limit or the primitive `apply` has started the application that
is at fault. The panic is raised or written out as the console says. -/
theorem interpret_located {limit : Nat} {source : String} {s t : Store} {failure : Failure}
    (h : interpret limit source none s = .error failure t) (hpanic : ¬failure.IsInner) :
    ∃ message u, (Run.panic message : Run Value) u = .error failure t ∧
      u.console.stderr = s.console.stderr ∧
      (Located source message ∨
        ∃ fault e w, message = "runtime error: " ++ fault.message ∧ ComesTo limit source s e w ∧
          Unlocated limit e s.fresh w u fault) := by
  cases hread : readProgram limit (scan source) with
  | error unread =>
    obtain ⟨message, hpanics, hlocated⟩ := exists_located_of_unread hread h hpanic
    exact ⟨message, s, hpanics, rfl, .inl hlocated⟩
  | ok es =>
    rw [interpret_of_read hread] at h
    have hprogram : evalProgram limit es s.fresh (s.alloc (Store.globalFrame s.fresh)) =
        .error failure t := h
    obtain ⟨front, e, rest, v, w, rfl, hfront, htop⟩ := Run.foldlM_error hprogram
    have hrun : (Run.newGlobal >>= evalProgram limit front) s = .ok v w := hfront
    obtain ⟨err, message, u, htext, hpanics, hstderr, hfails⟩ := exists_panic_of_evalTop htop hpanic
    obtain ⟨hw, hquiet⟩ := stems_of_front hread hrun
    have he := stems_of_readProgram hread e (List.mem_append_right _ List.mem_cons_self)
    refine ⟨message, u, hpanics, hstderr.trans hquiet, ?_⟩
    refine (located_or_unlocated hw (Nat.le_refl _) he htext hfails).imp_right ?_
    rintro ⟨fault, hmessage, hunlocated⟩
    exact ⟨fault, e, w, hmessage, ⟨front, rest, v, hread, hrun⟩, hunlocated⟩

theorem interpret_located_second_line :
    let source := "(define f (lambda (x)\n (car x)))\n(f #t)"
    let failure := .panic
      "runtime error at LEFT_PAREN in line 2: car requires a list, now BooleanVal"
    ∃ t, interpret 50 source none {} = .error failure t ∧ ¬failure.IsInner ∧
      ∃ message u, (Run.panic message : Run Value) u = .error failure t ∧ u.console.stderr = "" ∧
        (Located source message ∨
          ∃ fault e w, message = "runtime error: " ++ fault.message ∧ ComesTo 50 source {} e w ∧
            Unlocated 50 e 0 w u fault) := by
  intro source failure
  have hscan : scan source = [⟨0, .leftParen⟩, ⟨0, .atom (.symbol "define")⟩,
      ⟨0, .atom (.symbol "f")⟩, ⟨0, .leftParen⟩, ⟨0, .atom (.symbol "lambda")⟩, ⟨0, .leftParen⟩,
      ⟨0, .atom (.symbol "x")⟩, ⟨0, .rightParen⟩, ⟨1, .leftParen⟩, ⟨1, .atom (.symbol "car")⟩,
      ⟨1, .atom (.symbol "x")⟩, ⟨1, .rightParen⟩, ⟨1, .rightParen⟩, ⟨1, .rightParen⟩,
      ⟨2, .leftParen⟩, ⟨2, .atom (.symbol "f")⟩, ⟨2, .atom (.boolean true)⟩, ⟨2, .rightParen⟩,
      ⟨2, .endOfInput⟩] := by decide +kernel
  have hread : readProgram 50 (scan source) = .ok [.list 0 [.atom 0 (.symbol "define"),
      .atom 0 (.symbol "f"), .list 0 [.atom 0 (.symbol "lambda"), .list 0 [.atom 0 (.symbol "x")],
      .list 1 [.atom 1 (.symbol "car"), .atom 1 (.symbol "x")]]],
      .list 2 [.atom 2 (.symbol "f"), .atom 2 (.boolean true)]] := by
    rw [hscan, readProgram_eq_ok, Read.program_of_ok (Read.next_of_onStack rfl),
      if_neg (by decide), Read.program_of_ok (Read.next_of_onStack rfl), if_pos (by decide)]
    rfl
  have hrun : ∃ t, interpret 50 source none {} = .error failure t := by
    rw [interpret_of_read hread]
    exact ⟨_, rfl⟩
  obtain ⟨t, hrun⟩ := hrun
  exact ⟨t, hrun, id, interpret_located hrun id⟩

end Panics
end MiniScheme
