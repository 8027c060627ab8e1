import MiniScheme.Proofs.Store.Links
import MiniScheme.Proofs.Value.Matches

/-! Stores of two runs that match: frames that stand for one another bind matching values, and what
is made next on one side stands for what is made next on the other. -/

namespace MiniScheme

theorem rel_find? {α β : Type} {R : α → β → Prop} {p : α → Bool} {q : β → Bool} {as : List α}
    {bs : List β} (h : List.Forall₂ R as bs) (hpq : ∀ a b, R a b → p a = q b) :
    Option.Rel R (as.find? p) (bs.find? q) := by
  induction h with
  | nil => exact .none
  | cons hab _ ih =>
    rw [List.find?_cons, List.find?_cons, hpq _ _ hab]
    split
    · exact .some hab
    · exact ih

theorem exists_of_rel_some {α β : Type} {R : α → β → Prop} {a : α} {y : Option β}
    (h : Option.Rel R (some a) y) : ∃ b, y = some b ∧ R a b := by
  cases h with
  | some h => exact ⟨_, rfl, h⟩

theorem rel_bind {α β γ δ : Type} {R : α → β → Prop} {S : γ → δ → Prop} {x : Option α}
    {y : Option β} {f : α → Option γ} {g : β → Option δ} (h : Option.Rel R x y)
    (hfg : ∀ a b, R a b → Option.Rel S (f a) (g b)) : Option.Rel S (x.bind f) (y.bind g) := by
  cases h with
  | none => exact .none
  | some h => exact hfg _ _ h

namespace Correspondence

structure FrameMatches (C : Correspondence) (a : Address) (f f' : Frame) : Prop where
  enclosing : Option.Rel C.addr f.enclosing f'.enclosing
  get? : ∀ name, C.name a name → Option.Rel C.Matches (f.get? name) (f'.get? name)

structure Relates (C : Correspondence) (s s' : Store) : Prop where
  frames : ∀ a a', C.addr a a' → Option.Rel (C.FrameMatches a) s.frames[a]? s'.frames[a']?
  common : ∀ a, C.common a → (∀ b, ¬C.addr a b) → (∀ b, ¬C.addr b a) →
    s.frames[a]? = s'.frames[a]?
  fresh : ∀ i, C.addr (s.fresh + i) (s'.fresh + i)
  nextClosure : ∀ i, C.identity (s.nextClosure + i) (s'.nextClosure + i)
  console : C.console s.console s'.console

variable {C : Correspondence} {s s' : Store} {a a' : Address} {name : String} {v v' : Value}

theorem Relates.chainUpTo (h : C.Relates s s') (ha : C.addr a a') (n : Nat) :
    List.Forall₂ C.addr (s.chainUpTo n a) (s'.chainUpTo n a') := by
  induction n generalizing a a' with
  | zero => exact .nil
  | succ n ih =>
    rw [Store.chainUpTo, Store.chainUpTo]
    have hframes := h.frames a a' ha
    generalize s.frames[a]? = f, s'.frames[a']? = f' at hframes
    cases hframes with
    | none => exact .nil
    | @some f f' hf =>
      refine .cons ha ?_
      have henclosing := hf.enclosing
      generalize f.enclosing = b, f'.enclosing = b' at henclosing
      cases henclosing with
      | none => exact .nil
      | some hb => exact ih hb

theorem Relates.local? (h : C.Relates s s') (ha : C.addr a a') (hn : C.name a name) :
    Option.Rel C.Matches (s.local? a name) (s'.local? a' name) :=
  rel_bind (h.frames a a' ha) fun _ _ hf => hf.get? name hn

theorem Relates.enclosing? (h : C.Relates s s') (ha : C.addr a a') :
    Option.Rel C.addr (s.enclosing? a) (s'.enclosing? a') :=
  rel_bind (h.frames a a' ha) fun _ _ hf => hf.enclosing

theorem Relates.holder? (h : C.Relates s s') (ha : C.addr a a') (hn : ∀ b, C.name b name) :
    Option.Rel C.addr (s.holder? a name) (s'.holder? a' name) := by
  -- one length for both sides: beyond its own length a chain has nothing to add
  have hs := s.find?_chainUpTo (a := a) (Nat.le_max_left s.fresh s'.fresh)
  have hs' := s'.find?_chainUpTo (a := a') (Nat.le_max_right s.fresh s'.fresh)
  unfold Store.holder?
  rw [← hs, ← hs']
  refine rel_find? (h.chainUpTo ha _) fun b b' hb => ?_
  have hlocal := h.local? hb (hn b)
  generalize s.local? b name = x, s'.local? b' name = y at hlocal
  cases hlocal <;> rfl

theorem Relates.lookup? (h : C.Relates s s') (ha : C.addr a a') (hn : ∀ b, C.name b name) :
    Option.Rel C.Matches (s.lookup? a name) (s'.lookup? a' name) :=
  rel_bind (h.holder? ha hn) fun b _ hb => h.local? hb (hn b)

theorem FrameMatches.set {f f' : Frame} (h : C.FrameMatches a f f') (name : String)
    (hv : C.Matches v v') : C.FrameMatches a (f.set name v) (f'.set name v') where
  enclosing := h.enclosing
  get? other hn := by
    rw [Frame.get?_set, Frame.get?_set]
    split
    · exact .some hv
    · exact h.get? other hn

theorem Relates.define (h : C.Relates s s') (haddr : Relator.BiUnique C.addr) (ha : C.addr a a')
    (hv : C.Matches v v') (name : String) :
    C.Relates (s.define a name v) (s'.define a' name v') where
  frames b b' hb := by
    have hiff : a = b ↔ a' = b' := Relator.rel_eq haddr ha hb
    have hframes := h.frames b b' hb
    unfold Store.define
    rw [Array.getElem?_modify, Array.getElem?_modify]
    by_cases hab : a = b
    · rw [if_pos hab, if_pos (hiff.mp hab)]
      generalize s.frames[b]? = f, s'.frames[b']? = f' at hframes
      cases hframes with
      | none => exact .none
      | some hf => exact .some (hf.set name hv)
    · rw [if_neg hab, if_neg fun h => hab (hiff.mpr h)]
      exact hframes
  common b hb hleft hright := by
    have hne : a ≠ b := fun heq => hleft a' (heq ▸ ha)
    have hne' : a' ≠ b := fun heq => hright a (heq ▸ ha)
    unfold Store.define
    rw [Array.getElem?_modify, Array.getElem?_modify, if_neg hne, if_neg hne']
    exact h.common b hb hleft hright
  fresh := by
    rw [Store.fresh_define, Store.fresh_define]
    exact h.fresh
  nextClosure := h.nextClosure
  console := h.console

theorem Relates.assign (h : C.Relates s s') (haddr : Relator.BiUnique C.addr) (ha : C.addr a a')
    (hn : ∀ b, C.name b name) (hv : C.Matches v v') :
    (s.assign a name v).1 = (s'.assign a' name v').1 ∧
      C.Relates (s.assign a name v).2 (s'.assign a' name v').2 := by
  have hholder := h.holder? ha hn
  unfold Store.assign
  generalize s.holder? a name = b, s'.holder? a' name = b' at hholder
  cases hholder with
  | none => exact ⟨rfl, h⟩
  | some hb => exact ⟨rfl, h.define haddr hb hv name⟩

theorem Relates.alloc (h : C.Relates s s') (haddr : Relator.BiUnique C.addr) {f f' : Frame}
    (hf : C.FrameMatches s.fresh f f') : C.Relates (s.alloc f) (s'.alloc f') where
  frames b b' hb := by
    have hiff : b = s.fresh ↔ b' = s'.fresh := Relator.rel_eq haddr hb (h.fresh 0)
    by_cases hnew : b = s.fresh
    · obtain rfl := hiff.mp hnew
      rw [hnew, Store.frames_alloc_fresh, Store.frames_alloc_fresh]
      exact .some hf
    · rw [Store.frames_alloc_of_ne hnew, Store.frames_alloc_of_ne fun h => hnew (hiff.mpr h)]
      exact h.frames b b' hb
  common b hb hleft hright := by
    have hne : b ≠ s.fresh := fun heq => hleft _ (heq ▸ h.fresh 0)
    have hne' : b ≠ s'.fresh := fun heq => hright _ (heq ▸ h.fresh 0)
    rw [Store.frames_alloc_of_ne hne, Store.frames_alloc_of_ne hne']
    exact h.common b hb hleft hright
  fresh i := by
    rw [Store.fresh_alloc, Store.fresh_alloc, Nat.add_assoc, Nat.add_assoc]
    exact h.fresh (1 + i)
  nextClosure := h.nextClosure
  console := h.console

theorem Relates.addr_fresh (h : C.Relates s s') : C.addr s.fresh s'.fresh := h.fresh 0

theorem Relates.newClosure (h : C.Relates s s') :
    C.identity s.nextClosure s'.nextClosure ∧
      C.Relates { s with nextClosure := s.nextClosure + 1 }
        { s' with nextClosure := s'.nextClosure + 1 } := by
  refine ⟨h.nextClosure 0, h.frames, h.common, h.fresh, fun i => ?_, h.console⟩
  rw [Nat.add_assoc, Nat.add_assoc]
  exact h.nextClosure (1 + i)

theorem Relates.of_console {c c' : Console} (h : C.Relates s s') (hc : C.console c c') :
    C.Relates { s with console := c } { s' with console := c' } :=
  ⟨h.frames, h.common, h.fresh, h.nextClosure, hc⟩

theorem rel_lookup_insert {bs bs' : List (String × Value)} {other : String}
    (h : Option.Rel C.Matches (bs.lookup other) (bs'.lookup other)) (hv : C.Matches v v') :
    Option.Rel C.Matches ((Frame.insert name v bs).lookup other)
      ((Frame.insert name v' bs').lookup other) := by
  rw [Frame.lookup_insert, Frame.lookup_insert]
  split
  · exact .some hv
  · exact h

theorem frameMatches_ofArguments {args args' : List Value} (b : Address) (params : List String)
    (hargs : List.Forall₂ C.Matches args args') (ha : C.addr a a') :
    C.FrameMatches b (Frame.ofArguments params args a) (Frame.ofArguments params args' a') where
  enclosing := .some ha
  get? name _ := by
    have key : ∀ bs bs' : List (String × Value),
        Option.Rel C.Matches (bs.lookup name) (bs'.lookup name) →
        Option.Rel C.Matches
          (((params.zip args).foldl (fun bs p => Frame.insert p.1 p.2 bs) bs).lookup name)
          (((params.zip args').foldl (fun bs p => Frame.insert p.1 p.2 bs) bs').lookup name) := by
      induction hargs generalizing params with
      | nil => simp
      | cons hv _ ih =>
        cases params with
        | nil => simp
        | cons param params =>
          intro bs bs' h
          exact ih params _ _ (rel_lookup_insert h hv)
    exact key [] [] .none

end Correspondence
end MiniScheme
