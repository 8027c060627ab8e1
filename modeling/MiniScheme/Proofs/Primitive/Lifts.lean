import MiniScheme.Proofs.Run.Console
import MiniScheme.Proofs.Run.Except

/-! Printing, comparing and the primitives under two limits, side by side. Their results are put
together in the same way, so a relation that goes through binding holds of them if it holds of what
is printed and compared one level further in. With fewer levels a result is the same, or it is the
failure at the limit. -/

namespace MiniScheme

structure ResultLifts (R : {α : Type} → Except Failure α → Except Failure α → Prop) : Prop where
  ok {α : Type} (a : α) : R (.ok a) (.ok a)
  error {α : Type} {failure : Failure} (hinner : failure.IsInner) (hlimit : failure ≠ .tooDeep) :
    R (.error failure : Except Failure α) (.error failure)
  bind {α β : Type} {r r' : Except Failure α} {f f' : α → Except Failure β} (h : R r r')
    (hf : ∀ a, R (f a) (f' a)) : R (r >>= f) (r' >>= f')

namespace ResultLifts

variable {R : {α : Type} → Except Failure α → Except Failure α → Prop} {α β : Type}
  {m n : Nat} (hR : ResultLifts R)
include hR

theorem map {r r' : Except Failure α} (h : R r r') (f : α → β) : R (r.map f) (r'.map f) := by
  have hbind := hR.bind h fun a => hR.ok (f a)
  cases r <;> cases r' <;> exact hbind

theorem mapM {f f' : α → Except Failure β} {as : List α} (h : ∀ a ∈ as, R (f a) (f' a)) :
    R (as.mapM f) (as.mapM f') := by
  induction as with
  | nil => exact hR.ok []
  | cons a as ih =>
    obtain ⟨ha, has⟩ := List.forall_mem_cons.mp h
    rw [List.mapM_cons, List.mapM_cons]
    exact hR.bind ha fun b => hR.bind (ih has) fun bs => hR.ok (b :: bs)

theorem foldlM {f : β → α → Except Failure β} (h : ∀ b a, R (f b a) (f b a)) (as : List α)
    (b : β) : R (as.foldlM f b) (as.foldlM f b) := by
  induction as generalizing b with
  | nil => exact hR.ok b
  | cons a as ih =>
    rw [List.foldlM_cons]
    exact hR.bind (h b a) ih

theorem arithmetic (r : Except ArithmeticError α) :
    R (r.mapError .arithmetic) (r.mapError Failure.arithmetic) := by
  cases r with
  | ok a => exact hR.ok a
  | error e => exact hR.error trivial nofun

theorem text {v : Value}
    (h : ∀ vs, v = .list vs → ∀ w ∈ vs, R (w.text m) (w.text n)) :
    R (v.text (m + 1)) (v.text (n + 1)) := by
  cases v with
  | number n => exact hR.arithmetic n.text
  | list vs => exact hR.bind (hR.mapM (h vs rfl)) fun texts => hR.ok _
  | unknown => exact hR.error trivial nofun
  | _ => exact hR.ok _

theorem equal {x : Value} (y : Value)
    (h : ∀ xs, x = .list xs → ∀ v ∈ xs, ∀ w, R (v.equal m w) (v.equal n w)) :
    R (x.equal (m + 1) y) (x.equal (n + 1) y) := by
  cases x with
  | list xs =>
    cases y with
    | list ys =>
      unfold Value.equal
      dsimp only
      split
      · refine hR.bind (hR.mapM fun p hp => ?_) fun same => hR.ok _
        exact h xs rfl p.1 (List.of_mem_zip hp).1 p.2
      · exact hR.ok false
    | _ => exact hR.ok false
  | unknown => cases y <;> first | exact hR.error trivial nofun | exact hR.ok false
  | _ => cases y <;> exact hR.ok _

theorem asNumber (name : String) (v : Value) : R (v.asNumber name) (v.asNumber name) := by
  cases v <;> first | exact hR.ok _ | exact hR.error trivial nofun

theorem asNumbers (name : String) (vs : List Value) :
    R (Value.asNumbers name vs) (Value.asNumbers name vs) := hR.mapM fun v _ => hR.asNumber name v

theorem asItems (name : String) (v : Value) : R (v.asItems name) (v.asItems name) := by
  cases v <;> first | exact hR.ok _ | exact hR.error trivial nofun

theorem fold (step : Number → Number → Except ArithmeticError Number) (seed : Number)
    (ns : List Number) : R (Primitive.fold step seed ns) (Primitive.fold step seed ns) :=
  hR.map (hR.arithmetic _) Value.number

theorem divide (a b : Number) : R (Primitive.divide a b) (Primitive.divide a b) := by
  unfold Primitive.divide
  split
  · exact hR.error trivial nofun
  · exact hR.arithmetic _

theorem compare (name : String) (test : Number → Number → Bool) (x y : Value) :
    R (Primitive.compare name test x y) (Primitive.compare name test x y) :=
  hR.bind (hR.asNumber name x) fun _ => hR.bind (hR.asNumber name y) fun _ => hR.ok _

theorem result {args : List Value} (htext : ∀ v ∈ args, R (v.text m) (v.text n))
    (hequal : ∀ v ∈ args, ∀ w, R (v.equal m w) (v.equal n w)) (op : Primitive) :
    R (op.result m args) (op.result n args) := by
  have hcount : ∀ {α : Type},
      R (.error .operandCount : Except Failure α) (.error .operandCount) :=
    hR.error trivial nofun
  cases op with
  | add | mul => exact hR.bind (hR.asNumbers _ args) fun ns => hR.fold _ _ ns
  | sub =>
    refine hR.bind (hR.asNumbers _ args) fun ns => ?_
    cases ns with
    | nil => exact hcount
    | cons n ns => exact hR.fold _ n ns
  | div =>
    refine hR.bind (hR.asNumbers _ args) fun ns => ?_
    cases ns with
    | nil => exact hcount
    | cons n ns => exact hR.bind (hR.foldlM hR.divide ns n) fun _ => hR.ok _
  | eq | lt | gt =>
    rcases args with _ | ⟨x, _ | ⟨y, rest⟩⟩
    · exact hcount
    · exact hcount
    · exact hR.compare _ _ x y
  | equal =>
    rcases args with _ | ⟨x, _ | ⟨y, _ | _⟩⟩
    · exact hcount
    · exact hcount
    · exact hR.bind (hequal x List.mem_cons_self y) fun _ => hR.ok _
    · exact hcount
  | isNull | len =>
    cases args with
    | nil => exact hcount
    | cons x rest => exact hR.bind (hR.asItems _ x) fun _ => hR.ok _
  | car | cdr =>
    cases args with
    | nil => exact hcount
    | cons x rest =>
      refine hR.bind (hR.asItems _ x) fun vs => ?_
      cases vs with
      | nil => exact hR.error trivial nofun
      | cons v vs => exact hR.ok _
  | cons =>
    rcases args with _ | ⟨x, _ | ⟨y, rest⟩⟩
    · exact hcount
    · exact hcount
    · cases y <;> first | exact hR.ok _ | exact hR.error trivial nofun
  | list | sequence => exact hR.ok _
  | stringAppend => exact hR.bind (hR.mapM htext) fun _ => hR.ok _
  | addTwo =>
    rcases args with _ | ⟨x, _ | ⟨y, _ | ⟨z, rest⟩⟩⟩
    · exact hcount
    · simp only [Primitive.result]
      exact hcount
    · cases x with
      | number a =>
        cases y with
        | number b => exact hR.map (hR.arithmetic _) Value.number
        | _ => exact hR.error trivial nofun
      | _ => exact hR.error trivial nofun
    · simp only [Primitive.result]
      exact hcount
  | apply | display | newline => exact hcount

end ResultLifts

/-- The left result is the right one, or it has been cut short at the limit; and it does not fail in
the way in which a program hands its failures out. -/
structure Cut {α : Type} (r r' : Except Failure α) : Prop where
  eq : r = .error .tooDeep ∨ r = r'
  isInner : ∀ failure, r = .error failure → failure.IsInner

theorem cut_tooDeep {α : Type} (r' : Except Failure α) : Cut (.error .tooDeep) r' :=
  ⟨.inl rfl, fun _ heq => Except.error.inj heq ▸ trivial⟩

theorem resultLifts_cut : ResultLifts Cut where
  ok a := ⟨.inr rfl, fun _ h => nomatch h⟩
  error hinner _ := ⟨.inr rfl, fun _ heq => Except.error.inj heq ▸ hinner⟩
  bind {_ _ r _ _ _} h hf := by
    rcases h.eq with rfl | rfl
    · exact cut_tooDeep _
    · cases r with
      | ok a => exact hf a
      | error failure => exact ⟨.inr rfl, fun _ heq => Except.error.inj heq ▸ h.isInner failure rfl⟩

theorem Value.cut_text (limit more : Nat) (v : Value) :
    Cut (v.text limit) (v.text (limit + more)) := by
  induction limit generalizing v with
  | zero => exact cut_tooDeep _
  | succ limit ih =>
    rw [Nat.add_right_comm]
    exact resultLifts_cut.text fun _ _ w _ => ih w

theorem Value.cut_equal (limit more : Nat) (x y : Value) :
    Cut (x.equal limit y) (x.equal (limit + more) y) := by
  induction limit generalizing x y with
  | zero => exact cut_tooDeep _
  | succ limit ih =>
    rw [Nat.add_right_comm]
    exact resultLifts_cut.equal y fun _ _ v _ w => ih v w

theorem Primitive.cut_result (limit more : Nat) (op : Primitive) (args : List Value) :
    Cut (op.result limit args) (op.result (limit + more) args) :=
  resultLifts_cut.result (fun v _ => v.cut_text limit more)
    (fun v _ w => v.cut_equal limit more w) op

end MiniScheme
