import MiniScheme.Proofs.Expr.Program
import MiniScheme.Proofs.Token.Concat

/-! Programs that stand one behind the other. Reading depends on lines in nothing but the lines of
what is read, and two programs that can be read are read together as one. -/

namespace MiniScheme

def Mark.shift (k : Nat) (m : Mark) : Mark := ⟨m.line.map (· + k), m.shape⟩

theorem Mark.Fits.shift {m : Mark} {t : Token} (h : m.Fits t) (k : Nat) :
    (m.shift k).Fits (t.shift k) := by
  refine ⟨h.1, fun line hline => ?_⟩
  obtain ⟨line', hline', rfl⟩ := Option.map_eq_some_iff.mp hline
  exact congrArg (· + k) (h.2 line' hline')

namespace Expr

mutual

def shift (k : Nat) : Expr → Expr
  | .atom line a => .atom (line + k) a
  | .stray line message => .stray (line + k) message
  | .list line items => .list (line + k) (shiftEach k items)
  | .unknown => .unknown

def shiftEach (k : Nat) : List Expr → List Expr
  | [] => []
  | e :: es => e.shift k :: shiftEach k es

end

theorem mem_shiftEach {k : Nat} {es : List Expr} {e : Expr} (h : e ∈ shiftEach k es) :
    ∃ f ∈ es, e = f.shift k := by
  induction es with
  | nil => exact absurd h List.not_mem_nil
  | cons f es ih =>
    rcases List.mem_cons.mp h with rfl | h
    · exact ⟨f, List.mem_cons_self, rfl⟩
    · obtain ⟨g, hg, heq⟩ := ih h
      exact ⟨g, List.mem_cons_of_mem f hg, heq⟩

mutual

theorem flatten_shift (k : Nat) : (e : Expr) → (e.shift k).flatten = e.flatten.map (Mark.shift k)
  | .atom _ _ => rfl
  | .stray _ _ => rfl
  | .list line items => by
    rw [shift, flatten, flatten, flattenEach_shiftEach k items, List.map_cons, List.map_append]
    rfl
  | .unknown => rfl

theorem flattenEach_shiftEach (k : Nat) :
    (es : List Expr) → flattenEach (shiftEach k es) = (flattenEach es).map (Mark.shift k)
  | [] => rfl
  | e :: es => by
    rw [shiftEach, flattenEach, flattenEach, flatten_shift k e, flattenEach_shiftEach k es,
      List.map_append]

end

mutual

theorem depth_shift (k : Nat) : (e : Expr) → (e.shift k).depth = e.depth
  | .atom _ _ => rfl
  | .stray _ _ => rfl
  | .list _ items => congrArg (· + 1) (depthEach_shiftEach k items)
  | .unknown => rfl

theorem depthEach_shiftEach (k : Nat) : (es : List Expr) → depthEach (shiftEach k es) = depthEach es
  | [] => rfl
  | e :: es => by
    rw [shiftEach, depthEach, depthEach, depth_shift k e, depthEach_shiftEach k es]

end

theorem Every.shift {P : Atom → Prop} {e : Expr} (h : e.Every P) (k : Nat) :
    (e.shift k).Every P := by
  induction h with
  | atom line h => exact .atom _ h
  | list line _ ih =>
    refine .list _ fun e he => ?_
    obtain ⟨f, hf, rfl⟩ := mem_shiftEach he
    exact ih f hf

theorem TopLevel.shift {e : Expr} (h : e.TopLevel) (k : Nat) : (e.shift k).TopLevel := by
  cases h with
  | clean h => exact .clean (h.shift k)
  | stray line => exact .stray _

end Expr

variable {limit line line' : Nat} {ts us : List Token} {es fs : List Expr}

theorem readProgram_shift (k : Nat) (hts : ∀ t ∈ ts, t.shape ≠ .endOfInput)
    (h : readProgram limit (ts ++ [⟨line, .endOfInput⟩]) = .ok es) :
    readProgram limit (ts.map (Token.shift k) ++ [⟨line', .endOfInput⟩]) =
      .ok (Expr.shiftEach k es) := by
  obtain ⟨hne, hes, hfits⟩ := (readProgram_eq_ok_iff hts).mp h
  refine (readProgram_eq_ok_iff ?_).mpr ⟨?_, ?_, ?_⟩
  · intro t ht
    obtain ⟨u, hu, rfl⟩ := List.mem_map.mp ht
    exact hts u hu
  · obtain ⟨e, es', rfl⟩ := List.exists_cons_of_ne_nil hne
    exact List.cons_ne_nil _ _
  · intro e he
    obtain ⟨f, hf, rfl⟩ := Expr.mem_shiftEach he
    exact ⟨(hes f hf).1.shift k, (Expr.depth_shift k f).trans_le (hes f hf).2⟩
  · rw [Expr.flattenEach_shiftEach]
    have hshift : ∀ m t, Mark.Fits m t → Mark.Fits (m.shift k) (t.shift k) := fun _ _ h => h.shift k
    exact List.forall₂_map_left_iff.mpr (List.forall₂_map_right_iff.mpr (hfits.imp hshift))

/-- The tokens of two programs together are read as both programs together. -/
theorem readProgram_append (hts : ∀ t ∈ ts, t.shape ≠ .endOfInput)
    (hus : ∀ t ∈ us, t.shape ≠ .endOfInput)
    (hes : readProgram limit (ts ++ [⟨line, .endOfInput⟩]) = .ok es)
    (hfs : readProgram limit (us ++ [⟨line', .endOfInput⟩]) = .ok fs) :
    readProgram limit (ts ++ us ++ [⟨line', .endOfInput⟩]) = .ok (es ++ fs) := by
  obtain ⟨hne, hes, hfits⟩ := (readProgram_eq_ok_iff hts).mp hes
  obtain ⟨_, hfs, hfits'⟩ := (readProgram_eq_ok_iff hus).mp hfs
  refine (readProgram_eq_ok_iff (List.forall_mem_append.mpr ⟨hts, hus⟩)).mpr ⟨?_, ?_, ?_⟩
  · exact fun h => hne (List.append_eq_nil_iff.mp h).1
  · exact List.forall_mem_append.mpr ⟨hes, hfs⟩
  · rw [Expr.flattenEach_append]
    exact List.rel_append hfits hfits'

end MiniScheme
