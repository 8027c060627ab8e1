import MiniScheme.Proofs.Expr.RoundTrip
import MiniScheme.Proofs.Primitive.Doubles
import MiniScheme.Proofs.Session.Positions

/-! Where integers come from. The numbers of a source are doubles, and arithmetic keeps to them. So
a program has integers only if it asks for a length, or for a sum or a product of nothing, and
without integers no number is ever too large. -/

namespace MiniScheme

def Expr.IntFree (e : Expr) : Prop := ∀ n, e.Writes n → n.IsDouble

def Value.IntFree (base : Address) (v : Value) : Prop :=
  v ≠ .unknown ∧ v.IsInexact ∧ ∀ c, v = .closure c → base ≤ c.env ∧ c.body.IntFree

theorem Value.IsPlain.intFree {v : Value} (h : v.IsPlain) (hv : v.IsInexact) (base : Address) :
    v.IntFree base := by
  refine ⟨h.ne_unknown, hv, ?_⟩
  rintro c rfl
  exact h.elim

theorem Value.IntFree.primitive (base : Address) (op : Primitive) (home : Address) :
    (Value.primitive op home).IntFree base :=
  ⟨Value.noConfusion, fun _ => Value.noConfusion, fun _ => Value.noConfusion⟩

theorem intFree_of_readProgram {limit : Nat} {source : String} {es : List Expr}
    (hread : readProgram limit (scan source) = .ok es) : ∀ e ∈ es, e.IntFree := by
  rintro e he n ⟨line, written, hmem⟩
  obtain ⟨text, rest, hlexeme⟩ :=
    scanned_of_readProgram hread (Expr.flatten_subset_flattenEach he hmem)
  cases hlexeme
  exact ⟨_, rfl⟩

def Invariant.intFree (base : Address) : Invariant where
  store := Store.Enclosed base (Value.IntFree base)
  env _ a := base ≤ a
  leaf _ := Value.IntFree base
  expr := Expr.IntFree
  failure failure := failure.Reported ∧ ∀ e, failure ≠ .arithmetic e

namespace Invariant

variable {base : Address} {v : Value} {failure : Failure}

theorem known_of_intFree (h : v.Every (Value.IntFree base)) : v.Known := h.mono fun _ hw => hw.1

theorem isInexact_of_intFree (h : v.Every (Value.IntFree base)) : v.Every Value.IsInexact :=
  h.mono fun _ hw => hw.2.1

theorem orPrimitive_intFree (h : failure.OfPrimitive) (hne : ∀ e, failure ≠ .arithmetic e) :
    OrPrimitive (intFree base).failure failure :=
  h.orPrimitive.imp_right fun hreported => ⟨hreported, hne⟩

theorem carried_intFree (base : Address) : (intFree base).Carried where
  env_extends _ h := h
  leaf_extends _ h := h
  lookup hs ha h := hs.lookup? ha h
  define hs _ hv name := hs.define hv _ name
  assign hs _ hv name := hs.assign hv _ name
  print hs _ := hs.of_frames_eq rfl
  warn hs _ := hs.of_frames_eq rfl
  items h e he n hn := h n (hn.list he _)
  quoted he h :=
    Expr.quoted_every_of _ (fun _ hw hwrites => hw.intFree (fun n hn => he n (hwrites n hn)) base) h
  noValue := Value.IsPlain.intFree (v := .noValue) trivial (fun _ => Value.noConfusion) base
  lambda hs ha he h := by
    refine ⟨hs.of_frames_eq rfl, Value.noConfusion, fun _ => Value.noConfusion, ?_⟩
    rintro c hc
    obtain rfl := Value.closure.inj hc
    have hbody := Form.exprs_subset h List.mem_cons_self
    exact ⟨ha, fun n hn => he n (hn.list hbody _)⟩
  call hs hc hargs _ := by
    obtain ⟨henv, hbody⟩ := hc.2.2 _ rfl
    exact ⟨hs.call henv hargs, hs.le_fresh, hbody⟩
  tooDeep := ⟨trivial, fun _ => Failure.noConfusion⟩
  raises _ h := ⟨fun _ ht => (h.anchors ht).isAnchor, fun _ => Failure.noConfusion⟩
  ofCall _ := ⟨fun _ ht => (nomatch ht), fun _ => Failure.noConfusion⟩
  result_error _ hargs hop hcount h := by
    have hknown := fun v hv => known_of_intFree (hargs v hv)
    refine orPrimitive_intFree (Primitive.result_error hop hcount hknown h) ?_
    rintro e rfl
    exact Primitive.result_ne_arithmetic hop hcount hknown
      (fun v hv => isInexact_of_intFree (hargs v hv)) e h
  text_error _ hv h := by
    refine orPrimitive_intFree (Value.text_error (known_of_intFree hv) h) ?_
    rintro e rfl
    exact Value.text_ne_arithmetic (known_of_intFree hv) (isInexact_of_intFree hv) e h

theorem result_intFree {limit : Nat} {op : Primitive} {args : List Value}
    (hint : ¬op.MakesInt args) (hcount : op.arity.Admits args.length)
    (hargs : ∀ v ∈ args, v.Every (Value.IntFree base)) (h : op.result limit args = .ok v) :
    v.Every (Value.IntFree base) :=
  Primitive.result_every_inexact (fun _ hw hne => hw.intFree hne base) (fun _ hw => hw.2.1) hint
    hcount hargs h

end Invariant

theorem Failure.ofMessage_ne_arithmetic (raises : Bool) (message : String) (e : ArithmeticError) :
    Failure.ofMessage raises (.ok message) ≠ .arithmetic e := by
  cases raises <;> exact Failure.noConfusion

theorem Failure.Reported.surface_ne_arithmetic {failure : Failure} (h : failure.Reported)
    (hne : ∀ e, failure ≠ .arithmetic e) (raises : Bool) (e : ArithmeticError) :
    failure.surface raises ≠ .arithmetic e := by
  rcases h.surface_eq raises with ⟨e', rfl, _⟩ | ⟨rest, heq⟩
  · exact absurd rfl (hne e')
  · exact heq ▸ Failure.ofMessage_ne_arithmetic raises _ e

def FreshApplies (limit : Nat) (source : String) (s : Store) (op : Primitive)
    (args : List Value) : Prop :=
  ∃ e t k u, ComesTo limit source s e t ∧
    Job.Reaches ⟨limit, .eval e s.fresh, t⟩ ⟨k + 1, .primitive op args, u⟩

inductive FreshMeets (limit : Nat) (source : String) (s : Store) : Moment → Prop
  | during {front rest : List Expr} {e : Expr} {v : Value} {t : Store} {m : Moment}
      (hread : readProgram limit (scan source) = .ok (front ++ e :: rest))
      (hfront : (Run.newGlobal >>= evalProgram limit front) s = .ok v t)
      (hm : (Task.eval e s.fresh).Passes limit t m) :
      FreshMeets limit source s ⟨s.fresh :: m.frames, v :: m.values, m.store⟩
  | value {v : Value} {t : Store} (h : interpret limit source none s = .ok v t) :
      FreshMeets limit source s ⟨[s.fresh], [v], t⟩
  | failure {failure : Failure} {t : Store}
      (h : interpret limit source none s = .error failure t) : FreshMeets limit source s ⟨[], [], t⟩

section Calls

variable {limit : Nat} {source : String} {s t : Store} {es : List Expr} {m : Moment}

theorem FreshApplies.yieldsEach
    (hints : ∀ op args, FreshApplies limit source s op args → ¬op.MakesInt args)
    (hread : readProgram limit (scan source) = .ok es) :
    (Invariant.intFree s.fresh).YieldsEach limit es s.fresh
      (s.alloc (Store.globalFrame s.fresh)) := by
  rintro front e rest v t rfl hfront k op args u hreach _ hargs hcount w hresult
  have hcomes : ComesTo limit source s e t := ⟨front, rest, v, hread, hfront⟩
  have hint := hints op args ⟨e, t, k, u, hcomes, hreach⟩
  exact Invariant.result_intFree hint hcount hargs hresult

theorem keeps_intFree
    (hints : ∀ op args, FreshApplies limit source s op args → ¬op.MakesInt args) :
    (Invariant.intFree s.fresh).Keeps s (interpret limit source none)
      (Invariant.intFree s.fresh).value fun failure => ∀ e, failure ≠ .arithmetic e := by
  have hI := Invariant.carried_intFree s.fresh
  cases hread : readProgram limit (scan source) with
  | error failure =>
    have hs : s.Enclosed s.fresh (Value.IntFree s.fresh) := Store.enclosed_fresh _ s
    rcases readProgram_scan_error hread with rfl | ⟨err, rfl, hanchor⟩
    · exact hI.keeps_unread hs hread (fun _ => Failure.noConfusion)
        fun _ _ => Failure.noConfusion
    · obtain ⟨rest, htext⟩ := ReadError.text_ok hanchor
      refine hI.keeps_unread hs hread ?_ fun hne => absurd rfl (hne err)
      rintro _ heq e
      obtain rfl := Failure.read.inj heq
      rw [htext]
      exact Failure.ofMessage_ne_arithmetic _ _ e
  | ok es =>
    have hnew := Store.enclosed_newGlobal (Value.IntFree.primitive s.fresh) s
    refine (hI.keeps_interpret_none ⟨hnew, Nat.le_refl _⟩ hread (intFree_of_readProgram hread)
      (FreshApplies.yieldsEach hints hread)).mono (fun _ _ h => h) ?_
    rintro _ ⟨inner, ⟨hreported, hne⟩, rfl⟩
    exact hreported.surface_ne_arithmetic hne _

theorem FreshMeets.holds
    (hints : ∀ op args, FreshApplies limit source s op args → ¬op.MakesInt args)
    (h : FreshMeets limit source s m) :
    m.store.Enclosed s.fresh (Value.IntFree s.fresh) ∧
      ∀ v ∈ m.values, v.Every (Value.IntFree s.fresh) := by
  have hI := Invariant.carried_intFree s.fresh
  cases h with
  | value h =>
    obtain ⟨_, ht, hv⟩ := (keeps_intFree hints).of_ok h
    exact ⟨ht, List.forall_mem_singleton.mpr hv⟩
  | failure h => exact ⟨((keeps_intFree hints).of_error h).2.1, List.forall_mem_nil _⟩
  | @during front rest e v t m hread hfront hm =>
    have hyields := FreshApplies.yieldsEach hints hread
    have hnew := Store.enclosed_newGlobal (Value.IntFree.primitive s.fresh) s
    have hes := intFree_of_readProgram hread
    obtain ⟨_, hm⟩ := hI.during hnew (Nat.le_refl _) hes hyields hfront hm
    exact ⟨hm.store, hm.values⟩

/-- Where integers come from. If a call in a fresh global environment never applies `len`, nor `+`
or `*` to no operands, then at each of its moments all numbers in its frames, in the operand lists
that are being made and in the result are doubles; neither the call nor printing its result fails
for a number that is too large. -/
theorem interpret_intFree
    (hints : ∀ op args, FreshApplies limit source s op args → ¬op.MakesInt args) :
    (∀ m, FreshMeets limit source s m → (∀ v ∈ m.values, v.Every Value.IsInexact) ∧
      ∀ a name v, s.fresh ≤ a → m.store.local? a name = some v → v.Every Value.IsInexact) ∧
    (∀ v t, interpret limit source none s = .ok v t → v.Every Value.IsInexact ∧
      ∀ k e, v.text k ≠ .error (.arithmetic e)) ∧
    ∀ e t, interpret limit source none s ≠ .error (.arithmetic e) t := by
  refine ⟨fun m hm => ?_, fun v t h => ?_, fun e t h => ?_⟩
  · obtain ⟨hstore, hvalues⟩ := hm.holds hints
    refine ⟨fun v hv => Invariant.isInexact_of_intFree (hvalues v hv), fun a name v ha hv => ?_⟩
    exact Invariant.isInexact_of_intFree (hstore.bound ha hv)
  · obtain ⟨_, _, hv⟩ := (keeps_intFree hints).of_ok h
    have hinexact := Invariant.isInexact_of_intFree hv
    exact ⟨hinexact, fun k => Value.text_ne_arithmetic (Invariant.known_of_intFree hv) hinexact⟩
  · exact ((keeps_intFree hints).of_error h).2.2 e rfl

end Calls

namespace Job

variable {limit line k : Nat} {env home : Address} {s u : Store} {op op' : Primitive}
  {args args' : List Value}

theorem not_reaches_of_atom {a : Atom} :
    ¬Reaches ⟨limit, .eval (.atom line a) env, s⟩ ⟨k, .primitive op args, u⟩ := by
  intro h
  rcases h.cases_head with h | ⟨_, hstart, _⟩
  · cases h
  · cases hstart with
    | mk hstart => cases hstart

theorem eq_of_eval_symbol {name : String} {v w : Value} (hname : s.lookup? env name = some v)
    (h : eval limit (.atom line (.symbol name)) env s = .ok w u) : w = v ∧ s = u := by
  cases limit with
  | zero => cases h
  | succ limit =>
    rw [eval_symbol, hname] at h
    obtain ⟨rfl, rfl⟩ := EStateM.Result.ok.inj h
    exact ⟨rfl, rfl⟩

theorem eq_of_reaches_primitive (hop : op ≠ .apply)
    (h : Reaches ⟨limit, .primitive op args, s⟩ ⟨k, .primitive op' args', u⟩) :
    op' = op ∧ args' = args := by
  rcases h.cases_head with h | ⟨_, hstart, _⟩
  · cases h
    exact ⟨rfl, rfl⟩
  · cases hstart with
    | mk hstart =>
      cases hstart with
      | callee => exact absurd rfl hop

theorem reaches_primitive_of_atoms {nameLine : Nat} {items operands : List Expr} {name : String}
    (hform : Form.ofItems line items = .ok (.call (.atom nameLine (.symbol name)) operands))
    (hatoms : ∀ e ∈ operands, ∃ line a, e = .atom line a)
    (hname : s.lookup? env name = some (.primitive op home)) (hop : op ≠ .apply)
    (h : Reaches ⟨limit, .eval (.list line items) env, s⟩ ⟨k, .primitive op' args, u⟩) :
    op' = op ∧ ∃ inner t, operands.mapM (fun e => eval inner e env) s = .ok args t := by
  rcases h.cases_head with h | ⟨_, ⟨hstart⟩, hreach⟩
  · cases h
  cases hstart with
  | define h | assign h | test h | yes h | no h => cases hform.symm.trans h
  | operator h =>
    obtain ⟨rfl, _⟩ := Form.call.inj (Except.ok.inj (hform.symm.trans h))
    exact absurd hreach not_reaches_of_atom
  | operand h =>
    obtain ⟨_, rfl⟩ := Form.call.inj (Except.ok.inj (hform.symm.trans h))
    obtain ⟨_, _, rfl⟩ := hatoms _ (List.mem_append_right _ List.mem_cons_self)
    exact absurd hreach not_reaches_of_atom
  | call h hf hargs =>
    obtain ⟨rfl, rfl⟩ := Form.call.inj (Except.ok.inj (hform.symm.trans h))
    obtain ⟨rfl, rfl⟩ := eq_of_eval_symbol hname hf
    -- the call is of a primitive, which is applied at once
    rcases hreach.cases_head with h | ⟨_, ⟨hstart⟩, hreach⟩
    · cases h
    cases hstart with
    | primitive =>
      obtain ⟨rfl, rfl⟩ := eq_of_reaches_primitive hop hreach
      exact ⟨rfl, _, _, hargs⟩

end Job

theorem interpret_intFree_sum :
    (∀ op args, FreshApplies 9 "(+ 1 2)" {} op args → ¬op.MakesInt args) ∧
      (∀ m, FreshMeets 9 "(+ 1 2)" {} m → (∀ v ∈ m.values, v.Every Value.IsInexact) ∧
        ∀ a name v, 0 ≤ a → m.store.local? a name = some v → v.Every Value.IsInexact) ∧
      (∀ v t, interpret 9 "(+ 1 2)" none {} = .ok v t → v.Every Value.IsInexact ∧
        ∀ k e, v.text k ≠ .error (.arithmetic e)) ∧
      ∀ e t, interpret 9 "(+ 1 2)" none {} ≠ .error (.arithmetic e) t := by
  have hscan : ∃ x y, scan "(+ 1 2)" = [⟨0, .leftParen⟩, ⟨0, .atom (.symbol "+")⟩,
      ⟨0, .atom (.number "1" (.double x))⟩, ⟨0, .atom (.number "2" (.double y))⟩,
      ⟨0, .rightParen⟩, ⟨0, .endOfInput⟩] :=
    ⟨Numeral.nearest ['1'] [], Numeral.nearest ['2'] [], by decide +kernel⟩
  obtain ⟨x, y, hscan⟩ := hscan
  have hread : readProgram 9 (scan "(+ 1 2)") = .ok [.list 0 [.atom 0 (.symbol "+"),
      .atom 0 (.number "1" (.double x)), .atom 0 (.number "2" (.double y))]] := by
    rw [hscan, readProgram_eq_ok, Read.program_of_ok (Read.next_of_onStack rfl), if_pos (by decide)]
    rfl
  have hints : ∀ op args, FreshApplies 9 "(+ 1 2)" {} op args → ¬op.MakesInt args := by
    rintro op args ⟨e, t, k, u, ⟨front, rest, v, hread', hfront⟩, hreach⟩
    have hsplit := Except.ok.inj (hread'.symm.trans hread)
    rcases List.append_eq_singleton_iff.mp hsplit with ⟨rfl, hsplit⟩ | ⟨_, hnil⟩
    · obtain ⟨rfl, rfl⟩ := List.cons.inj hsplit
      obtain ⟨rfl, rfl⟩ := EStateM.Result.ok.inj hfront
      obtain ⟨rfl, inner, _, hargs⟩ :=
        Job.reaches_primitive_of_atoms rfl (by simp) rfl Primitive.noConfusion hreach
      cases inner with
      | zero => cases hargs
      | succ inner =>
        obtain ⟨rfl, _⟩ := EStateM.Result.ok.inj hargs
        exact id
    · cases hnil
  exact ⟨hints, interpret_intFree hints⟩

end MiniScheme
