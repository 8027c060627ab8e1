import MiniScheme.Proofs.Eval.Passes
import MiniScheme.Proofs.Eval.Rooted
import MiniScheme.Proofs.Expr.Program

/-! Calls of the interpreter on one environment, with every moment that they pass through. All
frames that are then in use have chains to that environment. -/

namespace MiniScheme

inductive Calls (root : Address) : List Value → Store → Prop
  | start {s : Store} (h : s.fresh = root) : Calls root [] (Run.after Run.newGlobal s)
  | value {vs : List Value} {s t : Store} (h : Calls root vs s) {limit : Nat} {source : String}
      {v : Value} (hrun : interpret limit source (some root) s = .ok v t) :
      Calls root (v :: vs) t
  | failure {vs : List Value} {s t : Store} (h : Calls root vs s) {limit : Nat}
      {source : String} {failure : Failure}
      (hrun : interpret limit source (some root) s = .error failure t) : Calls root vs t
  | console {vs : List Value} {s : Store} (h : Calls root vs s) (console : Console) :
      Calls root vs { s with console := console }

inductive Calls.Meets (root : Address) : Moment → Prop
  | between {vs : List Value} {s : Store} (h : Calls root vs s) : Meets root ⟨[root], vs, s⟩
  | during {vs : List Value} {s t : Store} (h : Calls root vs s) {limit : Nat} {source : String}
      {front rest : List Expr} {e : Expr} {v : Value} {m : Moment}
      (hread : readProgram limit (scan source) = .ok (front ++ e :: rest))
      (hfront : evalProgram limit front root s = .ok v t)
      (hm : (Task.eval e root).Passes limit t m) :
      Meets root ⟨root :: m.frames, v :: vs ++ m.values, m.store⟩

def Moment.Reaches (m : Moment) (a : Address) : Prop :=
  (∃ b ∈ m.frames, m.store.Reaches b a) ∨ ∃ v ∈ m.values, m.store.ReachesFrom v a

namespace Calls

variable {root : Address} {vs : List Value} {s : Store} {m : Moment}

theorem exists_holds (h : Calls root vs s) :
    ∃ s₀ : Store, s₀.fresh = root ∧ (Invariant.rooted s₀).Holds ⟨[root], vs, s⟩ := by
  induction h with
  | @start s₀ h =>
    subst h
    refine ⟨s₀, rfl, s₀.rooted_newGlobal, List.forall_mem_singleton.mpr ?_, List.forall_mem_nil _⟩
    exact .inr ⟨Nat.le_refl _, s₀.fresh_lt_alloc _⟩
  | value _ hrun ih =>
    obtain ⟨s₀, hroot, hs, hframes, hvalues⟩ := ih
    have hI := Invariant.lawful_rooted s₀
    obtain ⟨hst, ht, hv⟩ := (hI.keeps_interpret_some hs (hframes root List.mem_cons_self)
      fun _ _ _ _ => trivial).of_ok hrun
    refine ⟨s₀, hroot, ht, fun a ha => hI.env_extends hst (hframes a ha), ?_⟩
    exact List.forall_mem_cons.mpr ⟨hv, fun w hw => hI.value_extends hst (hvalues w hw)⟩
  | failure _ hrun ih =>
    obtain ⟨s₀, hroot, hs, hframes, hvalues⟩ := ih
    have hI := Invariant.lawful_rooted s₀
    obtain ⟨hst, ht, _⟩ := (hI.keeps_interpret_some hs (hframes root List.mem_cons_self)
      fun _ _ _ _ => trivial).of_error hrun
    exact ⟨s₀, hroot, ht, fun a ha => hI.env_extends hst (hframes a ha),
      fun w hw => hI.value_extends hst (hvalues w hw)⟩
  | console _ console ih =>
    obtain ⟨s₀, hroot, hs, hframes, hvalues⟩ := ih
    exact ⟨s₀, hroot, hs.of_frames_eq rfl, hframes, hvalues⟩

/-- Every frame in use or in reach at any moment has a chain that comes to an end, visits no frame
twice and ends with the environment of the calls; so a search for a name from it comes to an end
too, and finds what the lookup finds. -/
theorem path_of_meets (h : Meets root m) {a : Address} (ha : m.Reaches a) :
    ∃ l, m.store.Path a l root ∧ l.Nodup ∧
      ∀ name, m.store.Finds name a (m.store.holder? a name) := by
  have hholds : ∃ s₀ : Store, s₀.fresh = root ∧ (Invariant.rooted s₀).Holds m := by
    cases h with
    | between h => exact h.exists_holds
    | during h hread hfront hm =>
      obtain ⟨s₀, hroot, hs, hframes, hvalues⟩ := h.exists_holds
      have hI := Invariant.lawful_rooted s₀
      have henv := hframes root List.mem_cons_self
      obtain ⟨hst, ht, hv⟩ :=
        (hI.keeps_evalProgram hs henv fun _ _ => trivial).of_ok hfront
      have henv := hI.env_extends hst henv
      obtain ⟨htm, hm⟩ := hI.passes ht (Invariant.begins_eval henv trivial) hm
      refine ⟨s₀, hroot, hm.store, ?_, ?_⟩
      · exact List.forall_mem_cons.mpr ⟨hI.env_extends htm henv, hm.frames⟩
      · refine List.forall_mem_append.mpr ⟨List.forall_mem_cons.mpr ⟨?_, ?_⟩, hm.values⟩
        · exact hI.value_extends htm hv
        · exact fun w hw => hI.value_extends (hst.trans htm) (hvalues w hw)
  obtain ⟨s₀, rfl, hs, hframes, hvalues⟩ := hholds
  have hsince : s₀.Since m.store a := by
    rcases ha with ⟨b, hb, hreach⟩ | ⟨v, hv, hreach⟩
    · exact hs.confined.closed.reaches (hframes b hb) hreach
    · exact hs.confined.closed.reachesFrom (hvalues v hv) hreach
  obtain ⟨l, hl⟩ := hs.path a hsince
  exact ⟨l, hl, hl.nodup, hl.finds⟩

theorem path_of_meets_body : ∃ m, Meets 0 m ∧ m.frames = [0, 0, 1] ∧ m.Reaches 1 ∧
    ∃ l, m.store.Path 1 l 0 ∧ l.Nodup ∧
      ∀ name, m.store.Finds name 1 (m.store.holder? 1 name) := by
  have hscan : scan "((lambda (x) x) #t)" = [⟨0, .leftParen⟩, ⟨0, .leftParen⟩,
      ⟨0, .atom (.symbol "lambda")⟩, ⟨0, .leftParen⟩, ⟨0, .atom (.symbol "x")⟩, ⟨0, .rightParen⟩,
      ⟨0, .atom (.symbol "x")⟩, ⟨0, .rightParen⟩, ⟨0, .atom (.boolean true)⟩, ⟨0, .rightParen⟩,
      ⟨0, .endOfInput⟩] := by decide +kernel
  have hread : readProgram 9 (scan "((lambda (x) x) #t)") = .ok ([] ++
      .list 0 [.list 0 [.atom 0 (.symbol "lambda"), .list 0 [.atom 0 (.symbol "x")],
        .atom 0 (.symbol "x")], .atom 0 (.boolean true)] :: []) := by
    rw [hscan, readProgram_eq_ok, Read.program_of_ok (Read.next_of_onStack rfl), if_pos (by decide)]
    rfl
  have hcalls : Calls 0 [] (Run.after Run.newGlobal {}) := .start rfl
  have hcall : (Task.eval (.list 0 [.list 0 [.atom 0 (.symbol "lambda"),
      .list 0 [.atom 0 (.symbol "x")], .atom 0 (.symbol "x")], .atom 0 (.boolean true)]) 0).Starts
      8 (Run.after Run.newGlobal {}) []
      (.apply (some ⟨0, .leftParen⟩) (.closure ⟨0, "lambda", ["x"], .atom 0 (.symbol "x"), 0⟩)
        [.boolean true])
      { Run.after Run.newGlobal {} with nextClosure := 1 } := .call rfl rfl rfl
  have hbody := Meets.during hcalls hread rfl (.inside hcall (.inside (.body rfl) (.start 7 _ _)))
  have hframe : (1 : Address) ∈ [0, 0, 1] := by decide
  exact ⟨_, hbody, rfl, .inl ⟨1, hframe, .refl⟩, path_of_meets hbody (.inl ⟨1, hframe, .refl⟩)⟩

end Calls
end MiniScheme
