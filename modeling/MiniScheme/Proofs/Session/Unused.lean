import MiniScheme.Proofs.Eval.Like
import MiniScheme.Proofs.Eval.Rebase

/-! Names that a program does not use. A binding of such a name in the global environment, whatever
its value, has no effect on how the program ends, on what it prints or on the other bindings. -/

namespace MiniScheme

inductive Expr.Avoids (n : String) : Expr → Prop
  | atom {line : Nat} {a : Atom} (ha : a ≠ .symbol n) : Avoids n (.atom line a)
  | stray (line : Nat) (message : String) : Avoids n (.stray line message)
  | list {line : Nat} {items : List Expr} (hitems : ∀ e ∈ items, Avoids n e) :
      Avoids n (.list line items)
  | form {line l : Nat} {items : List Expr} (k : Keyword) (hitems : ∀ e ∈ items, Avoids n e) :
      Avoids n (.list line (.atom l (.symbol k.name) :: items))
  | unknown : Avoids n .unknown

structure Store.SameBut (a : Address) (name : String) (s t : Store) : Prop where
  fresh : t.fresh = s.fresh
  enclosing? : ∀ b, t.enclosing? b = s.enclosing? b
  local? : ∀ b m, ¬(b = a ∧ m = name) → t.local? b m = s.local? b m
  nextClosure : t.nextClosure = s.nextClosure
  console : t.console = s.console

namespace Expr

variable {n : String} {N : String → Prop} {e e' : Expr}

theorem Avoids.like (h : e.Avoids n) : e.Like Eq (· ≠ n) e := by
  have hzip : ∀ {items : List Expr}, (∀ e ∈ items, Like Eq (· ≠ n) e e) →
      ∀ e e', (e, e') ∈ items.zip items → Like Eq (· ≠ n) e e' :=
    fun h e e' hmem => List.forall₂_zip (List.forall₂_same.mpr h) hmem
  induction h with
  | @atom line a ha =>
    cases a with
    | symbol name => exact .symbol rfl fun heq => ha (heq ▸ rfl)
    | _ => exact .atom rfl fun _ => nofun
  | stray line message => exact .stray rfl message
  | list _ ih => exact .list rfl rfl (hzip ih)
  | form k _ ih => exact .form k rfl rfl rfl (hzip ih)
  | unknown => exact .unknown

theorem Like.eq (h : Like Eq N e e') : e = e' := by
  have hitems : ∀ {items items' : List Expr}, items.length = items'.length →
      (∀ e e', (e, e') ∈ items.zip items' → e = e') → items = items' := by
    intro items items' hlength h
    have hforall := forall₂_of_zip hlength h
    rwa [List.forall₂_eq_eq_eq] at hforall
  induction h with
  | symbol hline | atom hline | stray hline => rw [hline]
  | list hline hlength _ ih => rw [hline, hitems hlength ih]
  | form k hline hhead hlength _ ih => rw [hline, hhead, hitems hlength ih]
  | unknown => rfl

end Expr

namespace Correspondence

variable {n : String} {s t t' : Store} {c : Console} {v v' : Value}

def leaving (n : String) (s : Store) : Correspondence where
  addr := Shift s.fresh s.fresh
  home := Shift s.fresh s.fresh
  identity := Shift s.nextClosure s.nextClosure
  name b m := ¬(b = s.fresh ∧ m = n)
  common b := b < s.fresh
  expr := Expr.Like Eq (· ≠ n)
  error := Eq
  console := s.console.SameOutput s.console

theorem upTo_leaving (n : String) (s : Store) : (leaving n s).UpTo Eq (· ≠ n) where
  expr h := h
  name h _ := fun hname => h hname.2
  error h _ _ := h ▸ rfl
  error_refl _ := rfl

theorem lawful_leaving (n : String) (s : Store) : (leaving n s).Lawful where
  addr_biUnique := biUnique_shift _ _
  home_biUnique := biUnique_shift _ _
  identity_biUnique := biUnique_shift _ _
  expands := (upTo_leaving n s).expands
  error_refl _ := rfl
  print h text := h.print text

theorem eq_of_shift {m a b : Nat} (h : Shift m m a b) : a = b := by
  obtain ⟨i, rfl, rfl⟩ := h
  rfl

theorem Matches.eq (h : (leaving n s).Matches v v') : v = v' := by
  induction h using Matches.induct with
  | @list vs vs' h ih =>
    have hitems : List.Forall₂ Eq vs vs' :=
      List.forall₂_iff_zip.mpr ⟨h.length_eq, fun {_ _} hw => ih hw⟩
    rw [List.forall₂_eq_eq_eq] at hitems
    rw [hitems]
  | plain => rfl
  | primitive op hhome => rw [eq_of_shift hhome]
  | closure hid hbody henv => rw [eq_of_shift hid, hbody.eq, eq_of_shift henv]
  | unknown => rfl

theorem panics_leaving (n : String) (s : Store) : (leaving n s).Panics Eq := by
  rintro t t' err _ ht rfl
  exact pairs_panicWith rfl rfl ht err.text

theorem relates_leaving (n : String) (s : Store) : (leaving n s).Relates s s where
  frames := by
    rintro _ _ ⟨i, rfl, rfl⟩
    rw [s.frames_fresh_add]
    exact .none
  common _ _ _ _ := rfl
  fresh i := ⟨i, rfl, rfl⟩
  nextClosure i := ⟨i, rfl, rfl⟩
  console := ⟨"", "", (Console.extend_empty _).symm, (Console.extend_empty _).symm⟩

theorem Relates.define_leaving (h : (leaving n s).Relates t t') (v : Value) :
    (leaving n s).Relates t (t'.define s.fresh n v) where
  frames b b' hb := by
    obtain rfl := eq_of_shift hb
    have hframes := h.frames b b hb
    unfold Store.define
    rw [Array.getElem?_modify]
    split
    · -- in this frame alone is the name left out
      rename_i heq
      subst heq
      generalize t.frames[s.fresh]? = f, t'.frames[s.fresh]? = f' at hframes
      cases hframes with
      | none => exact .none
      | some hf =>
        refine .some ⟨hf.enclosing, fun m hm => ?_⟩
        rw [Frame.get?_set, if_neg fun heq => hm ⟨rfl, heq⟩]
        exact hf.get? m hm
    · exact hframes
  common b hb hleft hright := by
    have hne : s.fresh ≠ b := fun heq => hleft b ⟨0, heq.symm, heq.symm⟩
    unfold Store.define
    rw [Array.getElem?_modify, if_neg hne]
    exact h.common b hb hleft hright
  fresh := by
    rw [Store.fresh_define]
    exact h.fresh
  nextClosure := h.nextClosure
  console := h.console

theorem Relates.sameBut (h : (leaving n s).Relates t t') : t.SameBut s.fresh n t' := by
  have hold : ∀ b, b < s.fresh → t.frames[b]? = t'.frames[b]? := by
    intro b hb
    refine h.common b hb ?_ ?_
    · rintro b' ⟨i, rfl, _⟩
      exact Nat.not_lt_of_le (Nat.le_add_right _ i) hb
    · rintro b' ⟨i, _, rfl⟩
      exact Nat.not_lt_of_le (Nat.le_add_right _ i) hb
  have hnew : ∀ b, s.fresh ≤ b → (leaving n s).addr b b := by
    intro b hb
    obtain ⟨i, rfl⟩ := Nat.exists_eq_add_of_le hb
    exact ⟨i, rfl, rfl⟩
  refine ⟨(eq_of_shift (h.fresh 0)).symm, fun b => ?_, fun b m hm => ?_,
    (eq_of_shift (h.nextClosure 0)).symm, ?_⟩
  · rcases Nat.lt_or_ge b s.fresh with hb | hb
    · unfold Store.enclosing?
      rw [hold b hb]
    · have hlink := h.enclosing? (hnew b hb)
      generalize t.enclosing? b = x, t'.enclosing? b = y at hlink
      cases hlink with
      | none => rfl
      | some hxy => rw [eq_of_shift hxy]
  · rcases Nat.lt_or_ge b s.fresh with hb | hb
    · unfold Store.local?
      rw [hold b hb]
    · have hlocal := h.local? (hnew b hb) hm
      generalize t.local? b m = x, t'.local? b m = y at hlocal
      cases hlocal with
      | none => rfl
      | some hxy => rw [hxy.eq]
  · obtain ⟨text, errors, hc, hc'⟩ := h.console
    rw [hc, hc']

end Correspondence

open Correspondence

/-- A program that does not use the name `n` ends in a global environment that binds `n` to `v` as
it ends in one that does not: with the same value or the same failure, the same output and the same
bindings, but for that of `n` in this environment. The name may be that of a primitive, or a keyword
that the program has at the head of lists. -/
theorem evalProgram_of_avoids {n : String} {es : List Expr} (hes : ∀ e ∈ es, e.Avoids n)
    (v : Value) (limit : Nat) (s : Store) :
    Run.Pairs (Run.newGlobal >>= evalProgram limit es) s
      (do
        let a ← Run.newGlobal
        Run.define a n v
        evalProgram limit es a) s
      (fun w t w' t' => w' = w ∧ t.SameBut s.fresh n t')
      fun failure t failure' t' => failure' = failure ∧ t.SameBut s.fresh n t' := by
  have hglobal : (leaving n s).Relates (s.alloc (Store.globalFrame s.fresh))
      ((s.alloc (Store.globalFrame s.fresh)).define s.fresh n v) := by
    have hs := relates_leaving n s
    have hframe := frameMatches_globalFrame (C := leaving n s) (a := s.fresh) hs.addr_fresh
    exact (hs.alloc (biUnique_shift _ _) hframe).define_leaving v
  have hlike : List.Forall₂ (Expr.Like Eq (· ≠ n)) es es :=
    List.forall₂_same.mpr fun e he => (hes e he).like
  have hpairs : (leaving n s).Pairs (s.alloc (Store.globalFrame s.fresh))
      ((s.alloc (Store.globalFrame s.fresh)).define s.fresh n v) (evalProgram limit es s.fresh)
      (evalProgram limit es s.fresh) (leaving n s).Matches Eq :=
    (lawful_leaving n s).pairs_evalProgram (panics_leaving n s) (fun _ => rfl) hglobal
      (relates_leaving n s).addr_fresh hlike
  refine Run.Pairs.mono (m := Run.newGlobal >>= evalProgram limit es) hpairs ?_ ?_
  · exact fun w t w' t' ⟨ht, hw⟩ => ⟨hw.eq.symm, ht.sameBut⟩
  · exact fun failure t failure' t' ⟨ht, hfailure⟩ => ⟨hfailure.symm, ht.sameBut⟩

theorem evalProgram_of_avoids_if :
    let es : List Expr := [.list 0 [.atom 0 (.symbol "if"), .atom 0 (.boolean false),
      .atom 0 (.symbol "car"), .list 0 [.atom 0 (.symbol "newline")]]]
    (∀ e ∈ es, e.Avoids "if") ∧
      Run.Pairs (Run.newGlobal >>= evalProgram 50 es) {}
        (do
          let a ← Run.newGlobal
          Run.define a "if" (.boolean true)
          evalProgram 50 es a) {}
        (fun w t w' t' => w' = w ∧ t.SameBut 0 "if" t')
        fun failure t failure' t' => failure' = failure ∧ t.SameBut 0 "if" t' := by
  intro es
  have hatom : ∀ {a : Atom}, a ≠ .symbol "if" → Expr.Avoids "if" (.atom 0 a) := fun h => .atom h
  have hes : ∀ e ∈ es, e.Avoids "if" := by
    refine List.forall_mem_singleton.mpr (.form .cond ?_)
    refine List.forall_mem_cons.mpr ⟨hatom (by decide), ?_⟩
    refine List.forall_mem_cons.mpr ⟨hatom (by decide), ?_⟩
    refine List.forall_mem_singleton.mpr (.list ?_)
    exact List.forall_mem_singleton.mpr (hatom (by decide))
  exact ⟨hes, evalProgram_of_avoids hes (.boolean true) 50 {}⟩

end MiniScheme
