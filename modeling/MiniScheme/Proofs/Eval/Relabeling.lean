import MiniScheme.Proofs.Eval.MatchesTop

/-! Two runs of one program from stores that differ in nothing but the places of frames, the numbers
of closures and what the consoles have shown before. -/

namespace MiniScheme

def Console.extend (c : Console) (text errors : String) : Console :=
  { c.print text with stderr := c.stderr ++ errors }

namespace Console

theorem extend_empty (c : Console) : c.extend "" "" = c := by
  unfold extend print
  split <;> simp

theorem raisesPanics_extend (c : Console) (text errors : String) :
    (c.extend text errors).raisesPanics = c.raisesPanics := by
  unfold extend print
  split <;> rfl

theorem print_extend (c : Console) (text errors more : String) :
    (c.extend text errors).print more = c.extend (text ++ more) errors := by
  unfold extend print
  cases c.buffersOutput <;> simp [String.append_assoc]

theorem warn_extend (c : Console) (text errors message : String) :
    { c.extend text errors with
      stderr := (c.extend text errors).stderr ++ message ++ "\n" } =
      c.extend text (errors ++ message ++ "\n") := by
  unfold extend
  simp [String.append_assoc]

end Console

def Console.SameOutput (c c' d d' : Console) : Prop :=
  ∃ text errors, d = c.extend text errors ∧ d' = c'.extend text errors

theorem Console.SameOutput.print {c c' d d' : Console} (h : c.SameOutput c' d d') (more : String) :
    c.SameOutput c' (d.print more) (d'.print more) := by
  obtain ⟨text, errors, rfl, rfl⟩ := h
  exact ⟨text ++ more, errors, c.print_extend text errors more, c'.print_extend text errors more⟩

theorem Console.SameOutput.warn {c c' d d' : Console} (h : c.SameOutput c' d d')
    (message : String) : c.SameOutput c' { d with stderr := d.stderr ++ message ++ "\n" }
      { d' with stderr := d'.stderr ++ message ++ "\n" } := by
  obtain ⟨text, errors, rfl, rfl⟩ := h
  exact ⟨text, _, c.warn_extend text errors message, c'.warn_extend text errors message⟩

theorem Console.SameOutput.raisesPanics_eq {c c' d d' : Console} (h : c.SameOutput c' d d')
    (hraises : c'.raisesPanics = c.raisesPanics) : d'.raisesPanics = d.raisesPanics := by
  obtain ⟨text, errors, rfl, rfl⟩ := h
  rw [raisesPanics_extend, raisesPanics_extend, hraises]

/-- Both runs have values with one printed form or both fail with the same failure, and both add the
same to their output. -/
def Run.Alike (m : Run Value) (s : Store) (m' : Run Value) (s' : Store) : Prop :=
  Run.Pairs m s m' s'
    (fun v t v' t' => (∀ limit, v'.text limit = v.text limit) ∧
      s.console.SameOutput s'.console t.console t'.console)
    fun failure t failure' t' => failure' = failure ∧
      s.console.SameOutput s'.console t.console t'.console

def Shift (m n a b : Nat) : Prop := ∃ i, a = m + i ∧ b = n + i

theorem biUnique_shift (m n : Nat) : Relator.BiUnique (Shift m n) := by
  constructor
  · rintro _ _ _ ⟨i, rfl, h⟩ ⟨j, rfl, h'⟩
    omega
  · rintro _ _ _ ⟨i, h, rfl⟩ ⟨j, h', rfl⟩
    omega

namespace Correspondence

def relabeling (addr home : Address → Address → Prop) (identity : Nat → Nat → Prop)
    (c c' : Console) : Correspondence where
  addr := addr
  home := home
  identity := identity
  name _ _ := True
  common _ := False
  expr := Eq
  error := Eq
  console := c.SameOutput c'

variable {addr home : Address → Address → Prop} {identity : Nat → Nat → Prop} {c c' : Console}

theorem lawful_relabeling (haddr : Relator.BiUnique addr) (hhome : Relator.BiUnique home)
    (hidentity : Relator.BiUnique identity) (c c' : Console) :
    (relabeling addr home identity c c').Lawful where
  addr_biUnique := haddr
  home_biUnique := hhome
  identity_biUnique := hidentity
  expands h := h ▸ expands_self (fun _ => rfl) (fun _ => rfl) (fun _ _ => trivial) _
  error_refl _ := rfl
  print h text := h.print text

theorem Pairs.alike {s s' : Store} {m m' : Run Value}
    (h : (relabeling addr home identity s.console s'.console).Pairs s s' m m'
      (relabeling addr home identity s.console s'.console).Matches Eq) :
    Run.Alike m s m' s' := by
  refine Run.Pairs.mono h ?_ ?_
  · exact fun v t v' t' ⟨ht, hv⟩ => ⟨hv.text_eq, ht.console⟩
  · exact fun failure t failure' t' ⟨ht, hf⟩ => ⟨hf.symm, ht.console⟩

theorem pairs_panicWith_rel {C : Correspondence} {S : String → String → Prop}
    {F : Failure → Failure → Prop} {α : Type} {P : α → α → Prop}
    (hraises : ∀ d d', C.console d d' → d'.raisesPanics = d.raisesPanics)
    (hwarn : ∀ d d' message message', C.console d d' → S message message' →
      C.console { d with stderr := d.stderr ++ message ++ "\n" }
        { d' with stderr := d'.stderr ++ message' ++ "\n" })
    (hpanic : ∀ message message', S message message' → F (.panic message) (.panic message'))
    (hF : ∀ f, F f f) {s s' : Store} (hs : C.Relates s s')
    {text text' : Except ArithmeticError String} (h : ExceptRel S Eq text text') :
    C.Pairs s s' (Run.panicWith text) (Run.panicWith text') P F := by
  cases h with
  | error h => exact pairs_throw hs (h ▸ hF _)
  | ok hmessage =>
    unfold Run.panicWith Run.panic
    refine pairs_get ?_
    rw [hraises _ _ hs.console]
    cases s.console.raisesPanics with
    | true => exact pairs_throw hs (hpanic _ _ hmessage)
    | false => exact ⟨hs.of_console (hwarn _ _ _ _ hs.console hmessage), hF _⟩

theorem pairs_panicWith {C : Correspondence} {α : Type} (hC : C.console = c.SameOutput c')
    (hraises : c'.raisesPanics = c.raisesPanics) {s s' : Store} (hs : C.Relates s s')
    (text : Except ArithmeticError String) {P : α → α → Prop} :
    C.Pairs s s' (Run.panicWith text) (Run.panicWith text) P Eq := by
  refine pairs_panicWith_rel ?_ ?_ (fun _ _ h => congrArg _ h) (fun _ => rfl) hs
    (exceptRel_refl (fun _ => rfl) (fun _ => rfl) text)
  · rw [hC]
    exact fun _ _ h => h.raisesPanics_eq hraises
  · rw [hC]
    rintro _ _ message _ h rfl
    exact h.warn message

theorem panics_relabeling (hraises : c'.raisesPanics = c.raisesPanics) :
    (relabeling addr home identity c c').Panics Eq := by
  rintro t t' err _ ht rfl
  exact pairs_panicWith rfl hraises ht err.text

theorem frameMatches_globalFrame {C : Correspondence} {a home home' : Address}
    (h : C.home home home') :
    C.FrameMatches a (Store.globalFrame home) (Store.globalFrame home') where
  enclosing := .none
  get? name _ := by
    unfold Frame.get? Store.globalFrame
    induction Primitive.globals with
    | nil => exact .none
    | cons op ops ih =>
      rw [List.map_cons, List.map_cons, List.lookup_cons, List.lookup_cons]
      cases name == op.name with
      | true => exact .some (.primitive op h)
      | false => exact ih

variable {limit : Nat} {source : String} {s s' : Store}

theorem pairs_interpret_of_unread (hraises : c'.raisesPanics = c.raisesPanics)
    (hs : (relabeling addr home identity c c').Relates s s') {failure : Failure}
    (hread : readProgram limit (scan source) = .error failure) (env env' : Option Address) :
    (relabeling addr home identity c c').Pairs s s' (interpret limit source env)
      (interpret limit source env') (relabeling addr home identity c c').Matches Eq := by
  unfold interpret readTokens
  rw [hread]
  refine Pairs.bind (P := fun _ _ => False) ?_ fun _ _ _ _ _ h => h.elim
  cases failure with
  | read err => exact pairs_panicWith rfl hraises hs err.text
  | _ => exact pairs_throw hs rfl

theorem pairs_interpret (haddr : Relator.BiUnique addr) (hhome : Relator.BiUnique home)
    (hidentity : Relator.BiUnique identity) (hraises : c'.raisesPanics = c.raisesPanics)
    (hs : (relabeling addr home identity c c').Relates s s') {a a' : Address} (ha : addr a a') :
    (relabeling addr home identity c c').Pairs s s' (interpret limit source (some a))
      (interpret limit source (some a')) (relabeling addr home identity c c').Matches Eq := by
  cases hread : readProgram limit (scan source) with
  | ok es =>
    rw [interpret_of_read hread, interpret_of_read hread]
    have hes : List.Forall₂ Eq es es := List.forall₂_same.mpr fun _ _ => rfl
    have hC := lawful_relabeling haddr hhome hidentity c c'
    exact hC.pairs_evalProgram (panics_relabeling hraises) (fun _ => rfl) hs ha hes
  | error failure => exact pairs_interpret_of_unread hraises hs hread _ _

end Correspondence
end MiniScheme
