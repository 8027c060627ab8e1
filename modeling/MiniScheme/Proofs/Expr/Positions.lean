import MiniScheme.Proofs.Eval.Anchors
import MiniScheme.Proofs.Expr.Unread
import MiniScheme.Proofs.Token.Lines

/-! The places that errors name. A token stands on a line of its source, the reader complains about
tokens that it was given, and all that it hands on to be evaluated stems from such tokens. -/

namespace MiniScheme

theorem line_le_of_mem_scan {source : String} {t : Token} (ht : t ∈ scan source) :
    t.line ≤ source.toList.count '\n' := by
  obtain ⟨ps, hplaces, htokens, hlines⟩ := Lexical.exists_places 0 source.toList [] rfl
  unfold scan at ht
  rw [← htokens] at ht
  obtain ⟨p, hp, rfl⟩ := List.mem_map.mp ht
  rw [(hlines p hp).1]
  exact (hplaces.between p hp).2.sublist.count_le '\n'

namespace Read

variable {limit : Nat} {last t : Token} {stack stack' : List Open} {all ts : List Token}
  {err : ReadError}

def OpenAmong (all : List Token) (stack : List Open) : Prop := ∀ o ∈ stack, o.paren ∈ all

theorem openAmong_of_deliver {e : Expr} (hstack : OpenAmong all stack)
    (h : deliver e stack = .pending stack') : OpenAmong all stack' := by
  cases stack with
  | nil => cases h
  | cons o outer =>
    obtain ⟨ho, houter⟩ := List.forall_mem_cons.mp hstack
    cases h
    exact List.forall_mem_cons.mpr ⟨ho, houter⟩

theorem openAmong_of_step (ht : t ∈ all) (hstack : OpenAmong all stack)
    (h : step limit stack t = .ok (.pending stack')) : OpenAmong all stack' := by
  generalize hp : Progress.pending stack' = p at h
  cases takes_of_step h with
  | opens =>
    cases hp
    exact List.forall_mem_cons.mpr ⟨ht, hstack⟩
  | stray => cases hp
  | closes => exact openAmong_of_deliver (List.forall_mem_cons.mp hstack).2 hp.symm
  | atom => exact openAmong_of_deliver hstack hp.symm

theorem anchor_of_step (h : step limit stack t = .error (.read err)) : err.anchor = t := by
  cases takes_of_step h with
  | malformed | ended => rfl

theorem Stops.anchor_mem {stop : Stop} (h : Stops limit last stack ts stop) (hlast : last ∈ all)
    (hts : ts ⊆ all) (hstack : OpenAmong all stack) (herr : stop.failure = .read err) :
    err.anchor ∈ all := by
  induction h with
  | noToken =>
    cases herr
    exact hlast
  | unclosed =>
    -- with lists still open it is the innermost parenthesis that is named
    cases herr
    exact hstack _ List.mem_cons_self
  | refused hstep =>
    cases herr
    exact anchor_of_step hstep ▸ hts List.mem_cons_self
  | onward hstep _ ih =>
    obtain ⟨ht, hts⟩ := List.cons_subset.mp hts
    exact ih hts (openAmong_of_step ht hstack hstep) herr

theorem anchor_mem_of_program {stop : Stop} (hlast : last ∈ all) (hts : ts ⊆ all)
    (h : program limit last ts = .error stop) (herr : stop.failure = .read err) :
    err.anchor ∈ all := by
  induction ts using program.induct limit last with
  | case1 ts stop' hnext =>
    rw [program_of_error hnext] at h
    obtain rfl := Except.error.inj h
    exact (stops_of_next hnext).anchor_mem hlast hts (List.forall_mem_nil _) herr
  | case2 ts e rest hnext hend =>
    rw [program_of_ok hnext, if_pos hend] at h
    cases h
  | case3 ts e rest hnext hend ih =>
    rw [program_of_ok hnext, if_neg hend] at h
    obtain ⟨taken, rfl, _⟩ := flatten_next hnext
    exact ih (List.Subset.trans (List.subset_append_right _ _) hts) (map_eq_error.mp h)

end Read

theorem anchor_mem_scan {limit : Nat} {source : String} {err : ReadError}
    (h : readProgram limit (scan source) = .error (.read err)) : err.anchor ∈ scan source := by
  obtain ⟨stop, hstop, herr⟩ := mapError_eq_error.mp h
  refine Read.anchor_mem_of_program ?_ (List.Subset.refl _) hstop herr
  obtain ⟨front, line, hscan, _⟩ := scan_eq_append source
  rw [hscan, Read.lastToken, List.getLast?_concat]
  exact List.mem_append_right _ List.mem_cons_self

/-- An expression like those that are read from the tokens `ts`: errors in it are reported at some
of them. -/
structure Expr.Stems (ts : List Token) (e : Expr) : Prop where
  topLevel : e.TopLevel
  mem : ∀ t : Token, t.Anchors e → t ∈ ts

theorem Expr.Stems.items {ts : List Token} {line : Nat} {items : List Expr}
    (h : (Expr.list line items).Stems ts) : ∀ e ∈ items, e.Stems ts := by
  intro e he
  refine ⟨?_, fun t ht => h.mem t (ht.list he)⟩
  cases h.topLevel with
  | clean h =>
    cases h with
    | list _ hitems => exact .clean (hitems e he)

theorem stems_of_readProgram {limit : Nat} {ts : List Token} {es : List Expr}
    (h : readProgram limit ts = .ok es) : ∀ e ∈ es, e.Stems ts := by
  obtain ⟨_, hes, taken, rest, rfl, _, hfits⟩ := Read.flatten_program (readProgram_eq_ok.mp h)
  refine fun e he => ⟨(hes e he).1, fun t ht => ?_⟩
  obtain ⟨u, hu, hfit⟩ := exists_mem_of_forall₂ hfits (Expr.flatten_subset_flattenEach he ht.mem)
  obtain rfl := Mark.fits_some.mp hfit
  exact List.mem_append_left rest hu

end MiniScheme
