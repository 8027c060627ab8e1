import MiniScheme.Proofs.Eval.Settles
import MiniScheme.Proofs.Eval.Shapes
import MiniScheme.Proofs.Session.Bindings
import MiniScheme.Proofs.Session.Moments
import MiniScheme.Proofs.Store.Every
import MiniScheme.Proofs.Store.Opens

/-! Calls of the procedures of a session. That operands and parameters go together one by one rests
on what holds of every procedure since it was made, wherever it is kept: its parameters differ. -/

namespace MiniScheme

def Moment.Has (m : Moment) (c : Closure) : Prop :=
  (∃ a name v, m.store.local? a name = some v ∧ .closure c ∈ v.leaves) ∨
    ∃ v ∈ m.values, .closure c ∈ v.leaves

def Value.Proper : Value → Prop
  | .closure c => c.name = "lambda" ∧ c.params.Nodup
  | _ => True

theorem Value.IsPlain.proper (v : Value) (h : v.IsPlain) : v.Proper := by
  cases v <;> first | exact h.elim | trivial

theorem Form.nodup_of_ofItems_lambda {line : Nat} {items : List Expr} {params : List String}
    {body : Expr} (h : ofItems line items = .ok (.lambda params body)) : params.Nodup := by
  cases ofItems_eq_iff.mp h with
  | lambda hparams =>
    cases hparams with
    | names _ hnodup => exact hnodup

namespace Invariant

def proper : Invariant where
  store := Store.Every (Value.Every Value.Proper)
  env _ _ := True
  leaf _ := Value.Proper
  expr _ := True
  failure _ := True

theorem lawful_proper : proper.Lawful where
  env_extends _ h := h
  leaf_extends _ h := h
  lookup hs _ h := hs.of_lookup? h
  define hs _ hv name := hs.define _ name hv
  assign hs _ hv name := hs.assign _ name hv
  print hs _ := hs
  warn hs _ := hs
  items _ _ _ := trivial
  quoted _ h := Expr.quoted_every Value.IsPlain.proper _ h
  noValue := trivial
  lambda hs _ _ h := ⟨hs, rfl, Form.nodup_of_ofItems_lambda h⟩
  call hs _ hargs _ := ⟨hs.alloc fun _ hb => hargs _ (Frame.mem_ofArguments hb), trivial, trivial⟩
  result _ hargs _ h := Primitive.result_every Value.IsPlain.proper hargs h
  tooDeep := trivial
  raises _ _ := trivial
  ofCall _ := trivial
  result_error _ _ _ _ _ := .inr trivial
  text_error _ _ _ := .inr trivial

theorem ofSession_proper : proper.OfSession where
  toLawful := lawful_proper
  start _ := fun _ _ hf => nomatch hf
  newGlobal hs := ⟨hs.alloc (Store.every_globalFrame fun _ => trivial), trivial⟩
  console hs _ := hs
  env_console _ _ := trivial
  all _ := trivial

variable {I : Invariant} {m : Moment} {c : Closure}

theorem Holds.closure (h : I.Holds m)
    (hlocal : ∀ {a name v}, m.store.local? a name = some v → I.value m.store v) (hc : m.Has c) :
    I.leaf m.store (.closure c) := by
  rcases hc with ⟨a, name, v, hv, hmem⟩ | ⟨v, hv, hmem⟩
  · exact hlocal hv _ hmem
  · exact h.values v hv _ hmem

end Invariant

inductive Store.Next : Store → Store → Prop
  | passes {limit : Nat} {task : Task} {s : Store} {m : Moment} (h : task.Passes limit s m) :
      Next s m.store
  | newGlobal (s : Store) : Next s (Run.after Run.newGlobal s)
  | interpret (s : Store) (limit : Nat) (source : String) (env : Option Address) :
      Next s (Run.after (interpret limit source env) s)
  | console (s : Store) (console : Console) : Next s { s with console := console }

abbrev Store.Later : Store → Store → Prop := Relation.ReflTransGen Store.Next

theorem Store.Later.fresh_le {s t : Store} (h : s.Later t) : s.fresh ≤ t.fresh := by
  induction h with
  | refl => exact Nat.le_refl _
  | @tail u _ _ hnext ih =>
    refine ih.trans ?_
    cases hnext with
    | passes h => exact h.steps.extends.fresh_le
    | newGlobal => exact (u.extends_alloc _).fresh_le
    | interpret _ limit source env => exact (extends_interpret limit source env u).fresh_le
    | console => exact Nat.le_refl _

/-- At every moment of a session the parameters of each procedure differ. A call with another number
of operands fails and leaves the store as it is. A call with as many operands as parameters begins
the body in a frame that is new at that time, binds the parameters to the operands one by one, and
sees all other names as the frame of the procedure sees them then; no later call gets this frame. -/
theorem Session.call_opens {m : Moment} (hm : Session.Meets m) {c : Closure} (hc : m.Has c) :
    c.params.Nodup ∧ ∀ args : List Value,
      (args.length ≠ c.params.length → ∀ limit anchor, ∃ fault : EvalFault,
        apply (limit + 1) anchor (.closure c) args m.store =
          .error (.eval ⟨anchor, fault⟩) m.store ∧
        fault.message = "lambda expect exactly " ++ c.params.length.repr ++
          " arguments, but get " ++ args.length.repr) ∧
      (args.length = c.params.length → ∃ frame t, m.store.Opens c args frame t ∧
        (∀ limit anchor, apply (limit + 1) anchor (.closure c) args m.store =
          eval limit c.body frame t) ∧
        ∀ u, t.Later u → ∀ c' args' frame' t', u.Opens c' args' frame' t' → frame' ≠ frame) := by
  have hproper := Invariant.ofSession_proper.holds hm
  have hsound := Invariant.ofSession_sound.holds hm
  obtain ⟨hname, hnodup⟩ : c.name = "lambda" ∧ c.params.Nodup :=
    hproper.closure (fun h => hproper.store.of_local? h) hc
  have hwithin : Value.Within m.store.fresh m.store.nextClosure (.closure c) :=
    hsound.closure (fun h => hsound.store.local? h) hc
  -- the new frame comes after all frames of that chain, so it stands in nobody's way
  have hframed : m.store.Framed c.env := Store.Sound.framed hsound.store hwithin.1
  refine ⟨hnodup, fun args => ⟨fun hcount limit anchor => ?_, fun hcount => ?_⟩⟩
  · exact ⟨_, apply_closure_error hcount, by rw [hname]; rfl⟩
  · have hopens := hframed.opens hnodup hcount
    exact ⟨_, _, hopens, fun limit anchor => apply_closure hcount,
      fun u hu _ _ _ _ hother => hopens.ne hu.fresh_le hother⟩

theorem Session.call_opens_identity : ∃ m c, Session.Meets m ∧ m.Has c ∧ c.params = ["x"] ∧
    (∃ fault : EvalFault, apply 9 none (.closure c) [] m.store =
        .error (.eval ⟨none, fault⟩) m.store ∧
      fault.message = "lambda expect exactly 1 arguments, but get 0") ∧
    ∃ frame t, m.store.Opens c [.boolean true] frame t ∧
      apply 9 none (.closure c) [.boolean true] m.store = eval 8 c.body frame t := by
  have hscan : scan "(lambda (x) x)" = [⟨0, .leftParen⟩, ⟨0, .atom (.symbol "lambda")⟩,
      ⟨0, .leftParen⟩, ⟨0, .atom (.symbol "x")⟩, ⟨0, .rightParen⟩, ⟨0, .atom (.symbol "x")⟩,
      ⟨0, .rightParen⟩, ⟨0, .endOfInput⟩] := by decide +kernel
  have hread : readProgram 9 (scan "(lambda (x) x)") = .ok ([] ++
      .list 0 [.atom 0 (.symbol "lambda"), .list 0 [.atom 0 (.symbol "x")],
        .atom 0 (.symbol "x")] :: []) := by
    rw [hscan, readProgram_eq_ok, Read.program_of_ok (Read.next_of_onStack rfl), if_pos (by decide)]
    rfl
  have hsession : Session [0] (Run.after Run.newGlobal {}) := .newGlobal (.start {})
  have hleaf : .closure ⟨0, "lambda", ["x"], .atom 0 (.symbol "x"), 0⟩ ∈
      (Value.closure ⟨0, "lambda", ["x"], .atom 0 (.symbol "x"), 0⟩).leaves :=
    List.mem_singleton.mpr rfl
  obtain ⟨m, hmeets, hhas⟩ : ∃ m, Session.Meets m ∧
      m.Has ⟨0, "lambda", ["x"], .atom 0 (.symbol "x"), 0⟩ :=
    ⟨_, .during hsession (List.mem_singleton.mpr rfl) hread rfl (.value rfl),
      .inr ⟨_, List.mem_cons_of_mem _ List.mem_cons_self, hleaf⟩⟩
  obtain ⟨_, hcall⟩ := Session.call_opens hmeets hhas
  obtain ⟨frame, t, hopens, hbody, _⟩ := (hcall [.boolean true]).2 rfl
  exact ⟨m, _, hmeets, hhas, rfl, (hcall []).1 (by decide) 8 none, frame, t, hopens, hbody 8 none⟩

end MiniScheme
