import MiniScheme.Proofs.Eval.Limit

/-! Primitives without a limit. Printing and comparing go no deeper than the lists of the operands
are nested, so with that many levels a primitive never stops at the limit, and with more it does
the same. -/

namespace MiniScheme

def Finishes {α : Type} (r : Except Failure α) : Prop := r ≠ .error .tooDeep

theorem resultLifts_finishes : ResultLifts fun r _ => Finishes r where
  ok _ := nofun
  error _ hlimit heq := hlimit (Except.error.inj heq)
  bind h hf heq := by
    rcases bind_eq_error.mp heq with heq | ⟨a, _, heq⟩
    · exact h heq
    · exact hf a heq

theorem Finishes.ofExcept {α : Type} {r : Except Failure α} (h : Finishes r) (s t : Store) :
    Run.ofExcept id r s ≠ .error .tooDeep t := by
  intro heq
  obtain ⟨_, hfails, rfl, _⟩ := Run.ofExcept_error_iff.mp heq
  exact h hfails

namespace Value

mutual

def depth : Value → Nat
  | .list vs => depthEach vs + 1
  | _ => 1

def depthEach : List Value → Nat
  | [] => 0
  | v :: vs => max v.depth (depthEach vs)

end

theorem depth_le_depthEach {v : Value} {vs : List Value} (h : v ∈ vs) :
    v.depth ≤ depthEach vs := by
  induction vs with
  | nil => cases h
  | cons w vs ih =>
    rw [depthEach]
    rcases List.mem_cons.mp h with rfl | h
    · exact le_max_left ..
    · exact (ih h).trans (le_max_right ..)

theorem depth_pos (v : Value) : 0 < v.depth := by
  cases v <;> exact Nat.succ_pos _

theorem finishes_text {limit : Nat} {v : Value} (h : v.depth ≤ limit) :
    Finishes (v.text limit) := by
  induction limit generalizing v with
  | zero => exact absurd v.depth_pos h.not_gt
  | succ limit ih =>
    refine resultLifts_finishes.text (n := limit) fun vs hvs w hw => ih ?_
    subst hvs
    exact (depth_le_depthEach hw).trans (Nat.le_of_succ_le_succ h)

theorem finishes_equal {limit : Nat} {x y : Value} (h : x.depth ≤ limit) :
    Finishes (x.equal limit y) := by
  induction limit generalizing x y with
  | zero => exact absurd x.depth_pos h.not_gt
  | succ limit ih =>
    refine resultLifts_finishes.equal (n := limit) y fun xs hxs v hv w => ih ?_
    subst hxs
    exact (depth_le_depthEach hv).trans (Nat.le_of_succ_le_succ h)

end Value

namespace Primitive

variable {limit : Nat} {args : List Value}

theorem finishes_result (op : Primitive) (h : Value.depthEach args ≤ limit) :
    Finishes (op.result limit args) := by
  have hdepth : ∀ v ∈ args, v.depth ≤ limit := fun v hv => (Value.depth_le_depthEach hv).trans h
  exact resultLifts_finishes.result (n := limit)
    (fun v hv => Value.finishes_text (hdepth v hv))
    (fun v hv _ => Value.finishes_equal (hdepth v hv)) op

/-- A primitive with as many levels as its operands are deep. -/
def native (op : Primitive) (args : List Value) : Run Value := op.run (Value.depthEach args) args

theorem run_ne_tooDeep (op : Primitive) (h : Value.depthEach args ≤ limit) (s t : Store) :
    op.run limit args s ≠ .error .tooDeep t := by
  have hresult := (finishes_result op h).ofExcept s t
  cases op with
  | display =>
    rcases args with _ | ⟨v, _ | _⟩
    · exact hresult
    · have hfinishes := Value.finishes_text ((Value.depth_le_depthEach List.mem_cons_self).trans h)
      intro heq
      rcases Run.bind_error_iff.mp heq with heq | ⟨_, _, _, heq⟩
      · exact hfinishes.ofExcept s t heq
      · cases heq
    · exact hresult
  | newline =>
    cases args with
    | nil => exact nofun
    | cons => exact hresult
  | _ => exact hresult

theorem native_ne_tooDeep (op : Primitive) (args : List Value) (s t : Store) :
    op.native args s ≠ .error .tooDeep t := op.run_ne_tooDeep (Nat.le_refl _) s t

theorem run_eq_native_or (op : Primitive) (limit : Nat) (args : List Value) (s : Store) :
    op.run limit args s = op.native args s ∨ ∃ t, op.run limit args s = .error .tooDeep t := by
  unfold native
  -- the run with fewer levels is the other one, or it has been cut short
  rcases Nat.le_total limit (Value.depthEach args) with hle | hle
  · obtain ⟨more, hmore⟩ := Nat.exists_eq_add_of_le hle
    rcases ((lifts_cutShort more).run limit op args).cut s with heq | ⟨htooDeep, _⟩
    · exact .inl (hmore ▸ heq)
    · exact .inr htooDeep
  · obtain ⟨more, rfl⟩ := Nat.exists_eq_add_of_le hle
    refine .inl (((lifts_cutShort more).run _ op args).eq_of_not_stopped s fun t => ?_)
    exact op.native_ne_tooDeep args s t

theorem run_eq_native (op : Primitive) (h : Value.depthEach args ≤ limit) (s : Store) :
    op.run limit args s = op.native args s := by
  rcases op.run_eq_native_or limit args s with heq | ⟨t, heq⟩
  · exact heq
  · exact absurd heq (op.run_ne_tooDeep h s t)

end Primitive
end MiniScheme
