import MiniScheme.Proofs.Eval.Top
import MiniScheme.Proofs.Expr.Concat

/-! A program that is run in two parts, one call for each. -/

namespace MiniScheme

open Lexical

theorem evalProgram_append (limit : Nat) (es : List Expr) {fs : List Expr} (hfs : fs ≠ [])
    (env : Address) :
    evalProgram limit (es ++ fs) env = (do
      let _ ← evalProgram limit es env
      evalProgram limit fs env) := by
  obtain ⟨f, fs, rfl⟩ := List.exists_cons_of_ne_nil hfs
  unfold evalProgram
  -- the value of the first part is dropped as soon as the second part is begun
  simp only [List.foldlM_append, List.foldlM_cons]

def emptyLines (k : Nat) : String := .ofList (List.replicate k '\n')

theorem scan_emptyLines (k : Nat) (source : String) :
    scan (emptyLines k ++ source) = (scan source).map (Token.shift k) := by
  have hblank : ∀ c ∈ List.replicate k '\n', IsBlank c := fun c hc =>
    List.eq_of_mem_replicate hc ▸ (by decide)
  have hline : 0 + (List.replicate k '\n').count '\n' = 0 + k := by
    rw [List.count_replicate_self]
  unfold scan emptyLines
  rw [String.toList_append, String.toList_ofList, tokens_blanks hblank, hline, tokens_shift]

theorem scan_append {first second : String} {b : Char} (hb : IsBlank b)
    (hclosed : ∀ t ∈ scan first, t.shape.IsClosed) :
    ∃ front last, scan first = front ++ [⟨last, .endOfInput⟩] ∧
      scan (first.push b ++ second) =
        front ++ scan (emptyLines ((first.push b).toList.count '\n') ++ second) := by
  obtain ⟨front, last, hfront, happend⟩ := tokens_append hb second.toList 0 first.toList hclosed
  refine ⟨front, last, hfront, ?_⟩
  rw [scan_emptyLines, scan, scan, ← tokens_shift]
  simpa using happend

variable {limit : Nat} {first second : String} {es fs : List Expr} {b : Char}

theorem readProgram_scan_append (hfirst : readProgram limit (scan first) = .ok es)
    (hsecond : readProgram limit (scan second) = .ok fs) (hb : IsBlank b)
    (hclosed : ∀ t ∈ scan first, t.shape.IsClosed) :
    ∃ gs, gs ≠ [] ∧
      readProgram limit
        (scan (emptyLines ((first.push b).toList.count '\n') ++ second)) = .ok gs ∧
      readProgram limit (scan (first.push b ++ second)) = .ok (es ++ gs) := by
  obtain ⟨front, last, hfront, happend⟩ := @scan_append first second b hb hclosed
  obtain ⟨us, last', hscan, hus⟩ := scan_eq_append second
  have hts : ∀ t ∈ front, t.shape ≠ .endOfInput := by
    obtain ⟨ts, line, hscan, hts⟩ := scan_eq_append first
    obtain ⟨rfl, _⟩ := List.append_inj' (hfront.symm.trans hscan) rfl
    exact hts
  rw [hscan] at hsecond
  rw [hfront] at hfirst
  rw [scan_emptyLines, hscan, List.map_append, List.map_singleton] at happend
  rw [happend, scan_emptyLines, hscan, List.map_append, List.map_singleton]
  generalize (first.push b).toList.count '\n' = k
  have hgs : readProgram limit (us.map (Token.shift k) ++ [⟨last' + k, .endOfInput⟩]) = _ :=
    readProgram_shift k hus hsecond
  have hus' : ∀ t ∈ us.map (Token.shift k), t.shape ≠ .endOfInput := by
    intro t ht
    obtain ⟨u, hu, rfl⟩ := List.mem_map.mp ht
    exact hus u hu
  refine ⟨_, ((readProgram_eq_ok_iff hus').mp hgs).1, hgs, ?_⟩
  rw [← List.append_assoc]
  exact readProgram_append hts hus' hfirst hgs

/-- To run two sources with a blank between them is to run the first, and if that has a value the
second, which starts on the line that the first has come to. A first part that fails is all that
is run. -/
theorem interpret_append (hfirst : readProgram limit (scan first) = .ok es)
    (hsecond : readProgram limit (scan second) = .ok fs)
    (hclosed : ∀ t ∈ scan first, t.shape.IsClosed) (hb : IsBlank b) (env : Address) :
    (interpret limit (first.push b ++ second) (some env) = do
      let _ ← interpret limit first (some env)
      interpret limit (emptyLines ((first.push b).toList.count '\n') ++ second) (some env)) ∧
    ∀ s failure t, interpret limit first (some env) s = .error failure t →
      interpret limit (first.push b ++ second) (some env) s = .error failure t := by
  obtain ⟨gs, hgs, hlater, hboth⟩ := readProgram_scan_append hfirst hsecond hb hclosed
  have hparts : interpret limit (first.push b ++ second) (some env) = (do
      let _ ← interpret limit first (some env)
      interpret limit (emptyLines ((first.push b).toList.count '\n') ++ second) (some env)) := by
    rw [interpret_of_read hboth, interpret_of_read hfirst, interpret_of_read hlater]
    exact evalProgram_append limit es hgs env
  refine ⟨hparts, fun s failure t hfail => ?_⟩
  rw [hparts]
  simp only [bind, EStateM.bind, hfail]

theorem interpret_append_third_line :
    (interpret 10 ("(define x \"a\nb\")".push '\n' ++ "x )") (some 0) = do
      let _ ← interpret 10 "(define x \"a\nb\")" (some 0)
      interpret 10 (emptyLines 2 ++ "x )") (some 0)) ∧
    ∀ s failure t, interpret 10 "(define x \"a\nb\")" (some 0) s = .error failure t →
      interpret 10 ("(define x \"a\nb\")".push '\n' ++ "x )") (some 0) s = .error failure t := by
  have hscan : scan "(define x \"a\nb\")" = [⟨0, .leftParen⟩, ⟨0, .atom (.symbol "define")⟩,
      ⟨0, .atom (.symbol "x")⟩, ⟨1, .atom (.string "a\nb" true)⟩, ⟨1, .rightParen⟩,
      ⟨1, .endOfInput⟩] := by decide +kernel
  have hscan' : scan "x )" = [⟨0, .atom (.symbol "x")⟩, ⟨0, .rightParen⟩, ⟨0, .endOfInput⟩] := by
    decide +kernel
  have hfirst : readProgram 10 (scan "(define x \"a\nb\")") = .ok [.list 0
      [.atom 0 (.symbol "define"), .atom 0 (.symbol "x"), .atom 1 (.string "a\nb" true)]] := by
    rw [hscan, readProgram_eq_ok, Read.program_of_ok (Read.next_of_onStack rfl), if_pos (by decide)]
    rfl
  have hsecond : readProgram 10 (scan "x )") =
      .ok [.atom 0 (.symbol "x"), .stray 0 "unexpected )"] := by
    rw [hscan', readProgram_eq_ok, Read.program_of_ok (Read.next_of_onStack rfl),
      if_neg (by decide), Read.program_of_ok (Read.next_of_onStack rfl), if_pos (by decide)]
    rfl
  have hclosed : ∀ t ∈ scan "(define x \"a\nb\")", t.shape.IsClosed := by
    rw [hscan]
    simp [Shape.IsClosed]
  have hlines : ("(define x \"a\nb\")".push '\n').toList.count '\n' = 2 := by decide +kernel
  have h := interpret_append hfirst hsecond hclosed (b := '\n') (by decide) 0
  rw [hlines] at h
  exact h

end MiniScheme
