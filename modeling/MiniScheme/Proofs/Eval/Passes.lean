import MiniScheme.Proofs.Eval.Top

/-! What a run passes through on its way: an invariant that evaluation carries along holds at every
moment between start and end, and of every task that is started. -/

namespace MiniScheme
namespace Invariant

variable {I : Invariant} {limit : Nat} {s t : Store} {task inner : Task} {held : List Value}

theorem begins_eval {e : Expr} {env : Address} (ha : I.env s env) (he : I.expr e) :
    I.Begins s (.eval e env) := ⟨ha, he⟩

theorem Begins.frames (h : I.Begins s task) : ∀ a ∈ task.frames, I.env s a := by
  cases task with
  | eval e env => exact List.forall_mem_singleton.mpr h.1
  | _ => exact List.forall_mem_nil _

theorem Begins.values (h : I.Begins s task) : ∀ v ∈ task.values, I.value s v := by
  cases task with
  | eval e env => exact List.forall_mem_nil _
  | apply anchor f args => exact List.forall_mem_cons.mpr ⟨h.1, h.2.1⟩
  | primitive op args => exact h.1

theorem Begins.mono (hI : I.Carried) (hst : s.Extends t) (h : I.Begins s task) :
    I.Begins t task := by
  cases task with
  | eval e env => exact ⟨hI.env_extends hst h.1, h.2⟩
  | apply anchor f args =>
    exact ⟨hI.value_extends hst h.1, fun v hv => hI.value_extends hst (h.2.1 v hv), h.2.2⟩
  | primitive op args => exact ⟨fun v hv => hI.value_extends hst (h.1 v hv), h.2⟩

theorem Carried.starts (hI : I.Carried) (hinside : I.KeepsInside limit task s) (hs : I.store s)
    (h : I.Begins s task) (hstart : task.Starts limit s held inner t) :
    s.Extends t ∧ I.store t ∧ (∀ v ∈ held, I.value t v) ∧ I.Begins t inner := by
  have hnone : ∀ u : Store, ∀ v ∈ ([] : List Value), I.value u v := fun u => List.forall_mem_nil _
  cases hstart with
  | define hform | assign hform | test hform | operator hform =>
    have hpart := hI.items h.2 _ (Form.exprs_subset hform List.mem_cons_self)
    exact ⟨.refl s, hs, hnone s, h.1, hpart⟩
  | yes hform htest _ | no hform htest _ =>
    have hparts := fun e he => hI.items h.2 e (Form.exprs_subset hform he)
    have hkeeps := hinside (.test hform) hs ⟨h.1, hparts _ List.mem_cons_self⟩
    obtain ⟨hst, ht, _⟩ := Keeps.of_ok hkeeps htest
    exact ⟨hst, ht, hnone t, hI.env_extends hst h.1, hparts _ (by simp [Form.exprs])⟩
  | operand hform hf hfront =>
    have hparts := fun e he => hI.items h.2 e (Form.exprs_subset hform he)
    have hkeeps := hinside (.operator hform) hs ⟨h.1, hparts _ List.mem_cons_self⟩
    obtain ⟨hst, ht, hvalue⟩ := Keeps.of_ok hkeeps hf
    have henv := hI.env_extends hst h.1
    obtain ⟨htu, hu, hvalues⟩ :=
      (hI.keeps_front hinside hform h.2 hf ht henv rfl).of_ok hfront
    refine ⟨hst.trans htu, hu, ?_, hI.env_extends htu henv, hparts _ (by simp [Form.exprs])⟩
    exact List.forall_mem_cons.mpr ⟨hI.value_extends htu hvalue, hvalues⟩
  | call hform hf hargs =>
    have hparts := fun e he => hI.items h.2 e (Form.exprs_subset hform he)
    have hkeeps := hinside (.operator hform) hs ⟨h.1, hparts _ List.mem_cons_self⟩
    obtain ⟨hst, ht, hvalue⟩ := Keeps.of_ok hkeeps hf
    obtain ⟨htu, hu, hvalues⟩ := (hI.keeps_front hinside hform h.2 hf ht (hI.env_extends hst h.1)
      (List.append_nil _)).of_ok hargs
    exact ⟨hst.trans htu, hu, hnone _, hI.value_extends htu hvalue, hvalues,
      fun _ hfault => hI.raises h.2 (.call _ _ hfault)⟩
  | primitive hcount => exact ⟨.refl s, hs, hnone s, h.2.1, admits_of_checkCount hcount⟩
  | body hcount =>
    obtain ⟨ht, hbody⟩ := hI.begins_body hs h hcount
    exact ⟨s.extends_alloc _, ht, hnone _, hbody⟩
  | callee _ =>
    obtain ⟨hf, hargs⟩ := List.forall_mem_cons.mp h.1
    exact ⟨.refl s, hs, hnone s, hf, hargs, fun _ h => hI.ofCall h⟩

theorem Carried.keepsInside (hI : I.Carried) (h : I.Yields ⟨limit + 1, task, s⟩) :
    I.KeepsInside limit task s :=
  fun _ _ _ hstart => hI.keeps (h.of_reaches (.single (.mk hstart)))

theorem Carried.reaches (hI : I.Carried) {j inner : Job} (hyields : I.Yields j)
    (hs : I.store j.store) (h : I.Begins j.store j.task) (hreach : j.Reaches inner) :
    I.store inner.store ∧ I.Begins inner.store inner.task := by
  induction hreach with
  | refl => exact ⟨hs, h⟩
  | tail hreach hstart ih =>
    cases hstart with
    | mk hstart =>
      have hinside := hI.keepsInside (hyields.of_reaches hreach)
      obtain ⟨_, ht, _, hinner⟩ := hI.starts hinside ih.1 ih.2 hstart
      exact ⟨ht, hinner⟩

structure Holds (I : Invariant) (m : Moment) : Prop where
  store : I.store m.store
  frames : ∀ a ∈ m.frames, I.env m.store a
  values : ∀ v ∈ m.values, I.value m.store v

/-- An invariant that holds when a task is begun holds at every moment of it, if the primitives that
are applied have good results. -/
theorem Carried.passes (hI : I.Carried) {m : Moment} (hyields : I.Yields ⟨limit, task, s⟩)
    (hs : I.store s) (h : I.Begins s task) (hm : task.Passes limit s m) :
    s.Extends m.store ∧ I.Holds m := by
  induction hm with
  | start limit task s => exact ⟨.refl s, hs, h.frames, h.values⟩
  | value hrun =>
    obtain ⟨hst, ht, hv⟩ := Keeps.of_ok (hI.keeps hyields hs h) hrun
    have h := h.mono hI hst
    exact ⟨hst, ht, h.frames, List.forall_mem_cons.mpr ⟨hv, h.values⟩⟩
  | failure hrun =>
    obtain ⟨hst, ht, _⟩ := Keeps.of_error (hI.keeps hyields hs h) hrun
    have h := h.mono hI hst
    exact ⟨hst, ht, h.frames, h.values⟩
  | inside hstart _ ih =>
    obtain ⟨hst, ht, hheld, hinner⟩ := hI.starts (hI.keepsInside hyields) hs h hstart
    obtain ⟨htm, hm⟩ := ih (hyields.of_reaches (.single (.mk hstart))) ht hinner
    have h := h.mono hI (hst.trans htm)
    have hheld := fun v hv => hI.value_extends htm (hheld v hv)
    refine ⟨hst.trans htm, hm.store, ?_, ?_⟩
    · exact List.forall_mem_append.mpr ⟨h.frames, hm.frames⟩
    · exact List.forall_mem_append.mpr ⟨h.values, List.forall_mem_append.mpr ⟨hheld, hm.values⟩⟩

theorem Lawful.passes (hI : I.Lawful) {m : Moment} (hs : I.store s) (h : I.Begins s task)
    (hm : task.Passes limit s m) : s.Extends m.store ∧ I.Holds m :=
  hI.toCarried.passes (hI.yields _) hs h hm

/-! The moments of an expression of a program, at which the value of the one before it is still
held. -/

section Programs

variable {front rest : List Expr} {e : Expr} {a : Address} {v : Value} {m : Moment}

theorem Carried.during (hI : I.Carried) (hs : I.store s) (ha : I.env s a)
    (hes : ∀ e' ∈ front ++ e :: rest, I.expr e')
    (hyields : I.YieldsEach limit (front ++ e :: rest) a s)
    (hfront : evalProgram limit front a s = .ok v t) (hm : (Task.eval e a).Passes limit t m) :
    s.Extends m.store ∧ I.Holds ⟨a :: m.frames, v :: m.values, m.store⟩ := by
  obtain ⟨hfrontExpr, hrest⟩ := List.forall_mem_append.mp hes
  obtain ⟨hst, ht, hv⟩ := (hI.keeps_evalProgram hs ha hfrontExpr hyields.front).of_ok hfront
  have hbegins : I.Begins t (.eval e a) :=
    begins_eval (hI.env_extends hst ha) (hrest e List.mem_cons_self)
  obtain ⟨htm, hm⟩ := hI.passes (hyields rfl hfront) ht hbegins hm
  have ha := hI.env_extends (hst.trans htm) ha
  exact ⟨hst.trans htm, hm.store, List.forall_mem_cons.mpr ⟨ha, hm.frames⟩,
    List.forall_mem_cons.mpr ⟨hI.value_extends htm hv, hm.values⟩⟩

theorem Lawful.during (hI : I.Lawful) (hs : I.store s) (ha : I.env s a)
    (hes : ∀ e' ∈ front ++ e :: rest, I.expr e') (hfront : evalProgram limit front a s = .ok v t)
    (hm : (Task.eval e a).Passes limit t m) :
    s.Extends m.store ∧ I.Holds ⟨a :: m.frames, v :: m.values, m.store⟩ :=
  hI.toCarried.during hs ha hes (fun _ _ _ _ _ _ _ => hI.yields _) hfront hm

end Programs

end Invariant
end MiniScheme
