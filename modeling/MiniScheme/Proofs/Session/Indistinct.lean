import MiniScheme.Proofs.Session.Procedures
import MiniScheme.Proofs.Value.Equal

/-! Equal values print alike at every depth, so what prints cannot tell one from the other. Of
procedures this rests on their names, and on nothing else that a procedure has. -/

namespace MiniScheme
namespace Value

def NamesAgree (x y : Value) : Prop :=
  ∀ c d, .closure c ∈ x.leaves → .closure d ∈ y.leaves → c.id = d.id → c.name = d.name

variable {limit : Nat} {x y : Value} {xs ys : List Value}

theorem NamesAgree.of_mem (h : (Value.list xs).NamesAgree (.list ys)) (hx : x ∈ xs)
    (hy : y ∈ ys) : x.NamesAgree y :=
  fun c d hc hd => h c d (mem_leavesEach.mpr ⟨x, hx, hc⟩) (mem_leavesEach.mpr ⟨y, hy, hd⟩)

theorem Equal.text_eq (h : x.Equal y) (hnames : x.NamesAgree y) (limit : Nat) :
    x.text limit = y.text limit := by
  induction h generalizing limit with
  | @list xs ys hlength _ ih =>
    cases limit with
    | zero => rfl
    | succ limit =>
      have htexts : List.Forall₂ (fun x y => x.text limit = y.text limit) xs ys := by
        refine List.forall₂_iff_zip.mpr ⟨hlength, fun hp => ih hp ?_ limit⟩
        exact hnames.of_mem (List.of_mem_zip hp).1 (List.of_mem_zip hp).2
      rw [text, text, mapM_eq_of_forall₂ htexts fun _ _ h => h]
  | number h =>
    cases limit with
    | zero => rfl
    | succ limit => rw [text, text, Number.text_eq_of_eqv h]
  | @closure c d h =>
    have hname : c.name = d.name := hnames c d List.mem_cons_self List.mem_cons_self h
    cases limit with
    | zero => rfl
    | succ limit => rw [text, text, hname]
  | _ => rfl

theorem text_ok_or_tooLarge (hx : x.Known) (hdepth : x.depth ≤ limit) :
    (∃ t, x.text limit = .ok t) ∨ x.text limit = .error (.arithmetic .intTooLarge) := by
  cases h : x.text limit with
  | ok t => exact .inl ⟨t, rfl⟩
  | error failure =>
    refine .inr (congrArg Except.error ?_)
    have hcause : failure = .tooDeep ∨ failure = .arithmetic .intTooLarge := by
      refine text_error_of (F := fun f => f = .tooDeep ∨ f = .arithmetic .intTooLarge)
        (.inl rfl) (hx.mono fun w hw => ⟨hw, ?_⟩) h
      intro n e _ he
      exact .inr (congrArg Failure.arithmetic (Number.text_error he))
    rcases hcause with rfl | hcause
    · exact absurd h (finishes_text hdepth)
    · exact hcause

end Value

namespace Primitive

def Shows (op : Primitive) : Prop := op = .display ∨ op = .stringAppend

variable {op : Primitive} {args args' : List Value}

theorem run_eq_of_texts (hop : op.Shows)
    (h : List.Forall₂ (fun x y => ∀ n, Value.text n x = Value.text n y) args args') (limit : Nat) :
    op.run limit args = op.run limit args' := by
  rcases hop with rfl | rfl
  · rcases h with _ | ⟨hx, _ | ⟨_, _⟩⟩
    · rfl
    · simp only [run, hx]
    · simp only [run, result]
  · simp only [run, result, mapM_eq_of_forall₂ h fun _ _ h => h limit]

theorem apply_eq_of_texts (hop : op.Shows)
    (h : List.Forall₂ (fun x y => ∀ n, Value.text n x = Value.text n y) args args') (limit : Nat)
    (anchor : Option Token) (home : Address) :
    MiniScheme.apply limit anchor (.primitive op home) args =
      MiniScheme.apply limit anchor (.primitive op home) args' := by
  have hne : op ≠ .apply := by
    rintro rfl
    rcases hop with h | h <;> cases h
  have hrun : ∀ limit, applyPrimitive limit op args = applyPrimitive limit op args' := by
    intro limit
    cases limit with
    | zero => rfl
    | succ limit =>
      rw [applyPrimitive_of_ne_apply hne, applyPrimitive_of_ne_apply hne, run_eq_of_texts hop h]
  cases limit with
  | zero => rfl
  | succ limit =>
    unfold MiniScheme.apply
    dsimp only
    rw [h.length_eq, hrun]

end Primitive

theorem Session.namesAgree {m : Moment} (hm : Session.Meets m) {x y : Value}
    (hx : ∀ c, .closure c ∈ x.leaves → m.Has c) (hy : ∀ c, .closure c ∈ y.leaves → m.Has c) :
    x.NamesAgree y := by
  have hproper := Invariant.ofSession_proper.holds hm
  have hname : ∀ c, m.Has c → c.name = "lambda" := by
    intro c hc
    have hleaf : c.name = "lambda" ∧ c.params.Nodup :=
      hproper.closure (fun h => hproper.store.of_local? h) hc
    exact hleaf.1
  intro c d hc hd _
  rw [hname c (hx c hc), hname d (hy d hd)]

open Value

/-- Equal values print the same text, or both hold an integer that is too large to print; and where
a value stands among the operands of `display` or `string-append`, an equal one makes no difference.
All that is asked is that an identity goes with one name, as it does in every session. -/
theorem equal_values_print_alike :
    (∀ (x y : Value) (limit : Nat), x.NamesAgree y → x.equal limit y = .ok true →
      ((∃ t, x.text limit = .ok t ∧ y.text limit = .ok t) ∨
        x.text limit = .error (.arithmetic .intTooLarge) ∧
          y.text limit = .error (.arithmetic .intTooLarge)) ∧
      ∀ op : Primitive, op = .display ∨ op = .stringAppend →
        ∀ (n : Nat) (anchor : Option Token) (home : Address) (front rest : List Value) (s : Store),
          apply n anchor (.primitive op home) (front ++ x :: rest) s =
            apply n anchor (.primitive op home) (front ++ y :: rest) s) ∧
    ∀ (m : Moment) (x y : Value), Session.Meets m → (∀ c, .closure c ∈ x.leaves → m.Has c) →
      (∀ c, .closure c ∈ y.leaves → m.Has c) → x.NamesAgree y := by
  refine ⟨fun x y limit hnames hequal => ?_, fun m x y hm => Session.namesAgree hm⟩
  obtain ⟨hdepth, hequal⟩ := equal_eq_true_iff.mp hequal
  have htext : ∀ n, x.text n = y.text n := hequal.text_eq hnames
  refine ⟨?_, fun op hop n anchor home front rest s => ?_⟩
  · have hknown : x.Known := hequal.every_isDefinite.mono fun _ h => h.1
    rcases text_ok_or_tooLarge hknown hdepth with ⟨t, ht⟩ | hlarge
    · exact .inl ⟨t, ht, htext limit ▸ ht⟩
    · exact .inr ⟨hlarge, htext limit ▸ hlarge⟩
  · have hoperands : List.Forall₂ (fun x y => ∀ n, Value.text n x = Value.text n y)
        (front ++ x :: rest) (front ++ y :: rest) :=
      List.rel_append (List.forall₂_same.mpr fun _ _ _ => rfl)
        (.cons htext (List.forall₂_same.mpr fun _ _ _ => rfl))
    rw [Primitive.apply_eq_of_texts hop hoperands]

end MiniScheme
