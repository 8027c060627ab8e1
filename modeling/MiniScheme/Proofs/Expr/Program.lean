import MiniScheme.Proofs.Expr.OpenLists
import MiniScheme.Proofs.Run.Except

/-! Whole programs: reading and flattening undo each other. -/

namespace MiniScheme
namespace Read

open MiniScheme.Expr

theorem program_of_error {limit : Nat} {last : Token} {ts : List Token} {stop : Stop}
    (h : next limit last ts = .error stop) : program limit last ts = .error stop := by
  rw [program]
  split <;> rename_i heq <;> rw [h] at heq <;> cases heq
  rfl

theorem program_of_ok {limit : Nat} {last : Token} {ts rest : List Token} {e : Expr}
    (h : next limit last ts = .ok (e, rest)) :
    program limit last ts =
      if atEnd rest then .ok [e] else (program limit last rest).map (e :: ·) := by
  rw [program]
  split <;> rename_i heq <;> rw [h] at heq <;> cases heq
  rfl

theorem flatten_program {limit : Nat} {last : Token} {ts : List Token} {es : List Expr}
    (h : program limit last ts = .ok es) :
    es ≠ [] ∧ (∀ e ∈ es, e.TopLevel ∧ e.depth ≤ limit) ∧
      ∃ taken rest, ts = taken ++ rest ∧ atEnd rest ∧
        List.Forall₂ Mark.Fits (flattenEach es) taken := by
  induction ts using program.induct limit last generalizing es with
  | case1 ts stop hnext =>
    rw [program_of_error hnext] at h
    cases h
  | case2 ts e rest hnext hend =>
    rw [program_of_ok hnext, if_pos hend] at h
    obtain rfl := Except.ok.inj h
    obtain ⟨taken, hts, hfits⟩ := flatten_next hnext
    refine ⟨List.cons_ne_nil e [], ?_, taken, rest, hts, hend, ?_⟩
    · simpa using topLevel_next hnext
    · rwa [flattenEach, flattenEach, List.append_nil]
  | case3 ts e rest hnext hend ih =>
    rw [program_of_ok hnext, if_neg hend] at h
    obtain ⟨fs, hfs, rfl⟩ := map_eq_ok.mp h
    obtain ⟨taken, hts, hfits⟩ := flatten_next hnext
    obtain ⟨_, hall, taken', rest', hrest, hend', hfits'⟩ := ih hfs
    refine ⟨List.cons_ne_nil e fs, ?_, taken ++ taken', rest', ?_, hend', ?_⟩
    · exact List.forall_mem_cons.mpr ⟨topLevel_next hnext, hall⟩
    · rw [hts, hrest, List.append_assoc]
    · exact List.rel_append hfits hfits'

theorem program_flatten {limit : Nat} {last : Token} {line : Nat} {ts : List Token}
    {es : List Expr} (hne : es ≠ []) (hes : ∀ e ∈ es, e.TopLevel ∧ e.depth ≤ limit)
    (hfits : List.Forall₂ Mark.Fits (flattenEach es) ts) :
    program limit last (ts ++ [⟨line, .endOfInput⟩]) = .ok es := by
  induction es generalizing ts with
  | nil => exact absurd rfl hne
  | cons e es ih =>
    obtain ⟨⟨htop, hdepth⟩, hes⟩ := List.forall_mem_cons.mp hes
    obtain ⟨us, vs, hus, hvs, rfl⟩ := Mark.forall₂_fits_append.mp hfits
    rw [List.append_assoc, program_of_ok (next_flatten htop hdepth hus)]
    cases es with
    | nil =>
      obtain rfl := List.forall₂_nil_left_iff.mp hvs
      rfl
    | cons f fs =>
      -- the next expression has a token, and that is not the end of the input
      have hend : ¬atEnd (vs ++ [⟨line, .endOfInput⟩]) := by
        obtain ⟨m, ms, hflat⟩ := List.exists_cons_of_ne_nil
          (hes f List.mem_cons_self).1.flatten_ne_nil
        have hm : m.shape ≠ .endOfInput := shape_flatten f m (hflat ▸ List.mem_cons_self)
        rw [flattenEach, hflat] at hvs
        obtain ⟨t, ws, ht, _, rfl⟩ := List.forall₂_cons_left_iff.mp hvs
        simpa [atEnd, ← ht.1] using hm
      rw [if_neg hend, ih (List.cons_ne_nil f fs) hes hvs]
      rfl

theorem eq_of_append_atEnd {ts taken rest : List Token} {line : Nat}
    (hts : ∀ t ∈ ts, t.shape ≠ .endOfInput) (htaken : ∀ t ∈ taken, t.shape ≠ .endOfInput)
    (hrest : atEnd rest) (h : ts ++ [⟨line, .endOfInput⟩] = taken ++ rest) : taken = ts := by
  rcases List.append_eq_append_iff.mp h with ⟨us, rfl, hus⟩ | ⟨us, rfl, hus⟩
  · cases us with
    | nil => rw [List.append_nil]
    | cons u us =>
      obtain ⟨rfl, _⟩ := List.cons.inj hus
      exact absurd rfl (htaken ⟨line, .endOfInput⟩ (by simp))
  · cases us with
    | nil => rw [List.append_nil]
    | cons u us =>
      rw [hus] at hrest
      exact absurd (by simpa [atEnd] using hrest) (hts u (by simp))

end Read

theorem readProgram_eq_ok {limit : Nat} {ts : List Token} {es : List Expr} :
    readProgram limit ts = .ok es ↔ Read.program limit (Read.lastToken ts) ts = .ok es :=
  mapError_eq_ok

theorem readProgram_eq_ok_iff {limit line : Nat} {ts : List Token} {es : List Expr}
    (hts : ∀ t ∈ ts, t.shape ≠ .endOfInput) :
    readProgram limit (ts ++ [⟨line, .endOfInput⟩]) = .ok es ↔
      es ≠ [] ∧ (∀ e ∈ es, e.TopLevel ∧ e.depth ≤ limit) ∧
        List.Forall₂ Mark.Fits (Expr.flattenEach es) ts := by
  rw [readProgram_eq_ok]
  constructor
  · intro h
    obtain ⟨hne, hes, taken, rest, heq, hend, hfits⟩ := Read.flatten_program h
    have htaken : ∀ t ∈ taken, t.shape ≠ .endOfInput := by
      intro t ht
      obtain ⟨m, hm, hmt⟩ :=
        exists_mem_of_forall₂ (List.Forall₂.flip (R := flip Mark.Fits) hfits) ht
      rw [← hmt.1]
      exact Expr.shape_flattenEach es m hm
    obtain rfl := Read.eq_of_append_atEnd hts htaken hend heq
    exact ⟨hne, hes, hfits⟩
  · rintro ⟨hne, hes, hfits⟩
    exact Read.program_flatten hne hes hfits

/-- Reading and flattening undo each other: no token is lost, doubled or moved, every program of
the right shape is read from its tokens, and nothing else is ever read. -/
theorem readProgram_flatten (limit : Nat) :
    (∀ (ts : List Token) (line : Nat) (es : List Expr), (∀ t ∈ ts, t.shape ≠ .endOfInput) →
      readProgram limit (ts ++ [⟨line, .endOfInput⟩]) = .ok es →
        List.Forall₂ Mark.Fits (Expr.flattenEach es) ts) ∧
    (∀ (ts : List Token) (line : Nat) (es : List Expr), es ≠ [] →
      (∀ e ∈ es, e.TopLevel ∧ e.depth ≤ limit) →
        List.Forall₂ Mark.Fits (Expr.flattenEach es) ts →
          readProgram limit (ts ++ [⟨line, .endOfInput⟩]) = .ok es) ∧
    (∀ (ts : List Token) (es : List Expr), readProgram limit ts = .ok es →
      es ≠ [] ∧ ∀ e ∈ es, e.TopLevel) := by
  refine ⟨?_, ?_, ?_⟩
  · intro ts line es hts h
    exact ((readProgram_eq_ok_iff hts).mp h).2.2
  · intro ts line es hne hes hfits
    exact readProgram_eq_ok.mpr (Read.program_flatten hne hes hfits)
  · intro ts es h
    obtain ⟨hne, hes, _⟩ := Read.flatten_program (readProgram_eq_ok.mp h)
    exact ⟨hne, fun e he => (hes e he).1⟩

end MiniScheme
