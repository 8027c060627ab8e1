import MiniScheme.Primitive.Apply
import MiniScheme.Proofs.Run.Except
import MiniScheme.Proofs.Run.Pairs
import MiniScheme.Proofs.Value.Leaves

/-! Values of two runs that match: they differ in nothing but the identities of procedures and the
frames in which closures were made. Nothing that looks at values tells one from the other. -/

namespace MiniScheme

/-- What of one run stands for what of the other: addresses of frames, homes and numbers as the
identities of procedures, and so on. Of a frame at `a` nothing is compared but what the names in
`name a` are bound to. At addresses in `common` that stand for nothing both have the same frame. -/
structure Correspondence where
  addr : Address → Address → Prop
  home : Address → Address → Prop
  identity : Nat → Nat → Prop
  name : Address → String → Prop
  common : Address → Prop
  expr : Expr → Expr → Prop
  error : EvalError → EvalError → Prop
  console : Console → Console → Prop

theorem mapM_eq_of_forall₂ {α β γ ε : Type} {R : α → β → Prop} {f : α → Except ε γ}
    {g : β → Except ε γ} {as : List α} {bs : List β} (h : List.Forall₂ R as bs)
    (hfg : ∀ a b, R a b → f a = g b) : as.mapM f = bs.mapM g := by
  induction h with
  | nil => rfl
  | cons hab _ ih => rw [List.mapM_cons, List.mapM_cons, hfg _ _ hab, ih]

theorem forall₂_zip_zip {α β γ δ : Type} {R : α → β → Prop} {S : γ → δ → Prop} {as : List α}
    {bs : List β} {cs : List γ} {ds : List δ} (h : List.Forall₂ R as bs)
    (h' : List.Forall₂ S cs ds) :
    List.Forall₂ (fun p q => R p.1 q.1 ∧ S p.2 q.2) (as.zip cs) (bs.zip ds) := by
  induction h generalizing cs ds with
  | nil => exact .nil
  | cons hab _ ih =>
    cases h' with
    | nil => exact .nil
    | cons hcd h' => exact .cons ⟨hab, hcd⟩ (ih h')

namespace Correspondence

inductive Matches (C : Correspondence) : Value → Value → Prop
  | plain {v : Value} (h : v.IsPlain) : Matches C v v
  | list {vs vs' : List Value} (h : List.Forall₂ (Matches C) vs vs') :
      Matches C (.list vs) (.list vs')
  | primitive (op : Primitive) {home home' : Address} (h : C.home home home') :
      Matches C (.primitive op home) (.primitive op home')
  | closure {id id' : Nat} {name : String} {params : List String} {body body' : Expr}
      {env env' : Address} (hid : C.identity id id') (hbody : C.expr body body')
      (henv : C.addr env env') :
      Matches C (.closure ⟨id, name, params, body, env⟩) (.closure ⟨id', name, params, body', env'⟩)
  | unknown : Matches C .unknown .unknown

variable {C : Correspondence} {v v' w w' : Value} {vs vs' : List Value}

theorem sizeOf_lt_of_mem_list (h : v ∈ vs) : sizeOf v < sizeOf (Value.list vs) := by
  have hlt := List.sizeOf_lt_of_mem h
  rw [Value.list.sizeOf_spec]
  omega

theorem Matches.induct {motive : (v v' : Value) → C.Matches v v' → Prop}
    (plain : ∀ {v : Value} (h : v.IsPlain), motive v v (.plain h))
    (list : ∀ {vs vs' : List Value} (h : List.Forall₂ C.Matches vs vs')
      (_ : ∀ {w w' : Value} (hw : (w, w') ∈ vs.zip vs'), motive w w' (List.forall₂_zip h hw)),
      motive (.list vs) (.list vs') (.list h))
    (primitive : ∀ (op : Primitive) {home home' : Address} (h : C.home home home'),
      motive (.primitive op home) (.primitive op home') (.primitive op h))
    (closure : ∀ {id id' : Nat} {name : String} {params : List String} {body body' : Expr}
      {env env' : Address} (hid : C.identity id id') (hbody : C.expr body body')
      (henv : C.addr env env'), motive (.closure ⟨id, name, params, body, env⟩)
        (.closure ⟨id', name, params, body', env'⟩) (.closure hid hbody henv))
    (unknown : motive .unknown .unknown .unknown) (h : C.Matches v v') : motive v v' h := by
  induction hsize : sizeOf v using Nat.strongRecOn generalizing v v' with
  | _ size ih =>
    subst hsize
    cases h with
    | plain h => exact plain h
    | list h =>
      refine list h fun hw => ?_
      exact ih _ (sizeOf_lt_of_mem_list (List.of_mem_zip hw).1) (List.forall₂_zip h hw) rfl
    | primitive op h => exact primitive op h
    | closure hid hbody henv => exact closure hid hbody henv
    | unknown => exact unknown

theorem Matches.kind_eq (h : C.Matches v v') : v'.kind = v.kind := by
  cases h <;> rfl

theorem Matches.isTruthy_eq (h : C.Matches v v') : v'.isTruthy = v.isTruthy := by
  cases h <;> rfl

theorem Matches.isProcedure_eq (h : C.Matches v v') : v'.isProcedure = v.isProcedure := by
  cases h <;> rfl

theorem Matches.asNumber_eq (h : C.Matches v v') (name : String) :
    v'.asNumber name = v.asNumber name := by
  cases h <;> rfl

theorem Matches.asItems (h : C.Matches v v') (name : String) :
    ExceptRel (List.Forall₂ C.Matches) Eq (v.asItems name) (v'.asItems name) := by
  cases h with
  | plain h => cases v <;> first | exact h.elim | exact .error rfl
  | list h => exact .ok h
  | _ => exact .error rfl

theorem Matches.text_eq (h : C.Matches v v') (limit : Nat) : v'.text limit = v.text limit := by
  induction limit generalizing v v' with
  | zero => rfl
  | succ limit ih =>
    cases h with
    | list h =>
      rw [Value.text, Value.text, mapM_eq_of_forall₂ h fun a b hab => (ih hab).symm]
    | _ => rfl

theorem Matches.equal_eq (hhome : Relator.BiUnique C.home) (hid : Relator.BiUnique C.identity)
    (hv : C.Matches v v') (hw : C.Matches w w') (limit : Nat) :
    v'.equal limit w' = v.equal limit w := by
  induction limit generalizing v v' w w' with
  | zero => rfl
  | succ limit ih =>
    cases hv with
    | plain hv =>
      cases hw with
      | plain => rfl
      | _ => cases v <;> first | exact hv.elim | rfl
    | list hv =>
      cases hw with
      | plain hw => cases w <;> first | exact hw.elim | rfl
      | list hw =>
        have hpairs : ∀ p q : Value × Value, C.Matches p.1 q.1 ∧ C.Matches p.2 q.2 →
            Value.equal limit p.1 p.2 = Value.equal limit q.1 q.2 := fun p q h => (ih h.1 h.2).symm
        rw [Value.equal, Value.equal, hv.length_eq, hw.length_eq,
          mapM_eq_of_forall₂ (forall₂_zip_zip hv hw) hpairs]
      | _ => rfl
    | primitive op h =>
      cases hw with
      | plain hw => cases w <;> first | exact hw.elim | rfl
      | primitive op' h' =>
        have hiff := Relator.rel_eq hhome h h'
        simp only [Value.equal, Bool.beq_eq_decide_eq, hiff]
      | _ => rfl
    | closure h =>
      cases hw with
      | plain hw => cases w <;> first | exact hw.elim | rfl
      | closure h' =>
        have hiff := Relator.rel_eq hid h h'
        simp only [Value.equal, Bool.beq_eq_decide_eq, hiff]
      | _ => rfl
    | unknown =>
      cases hw with
      | plain hw => cases w <;> first | exact hw.elim | rfl
      | _ => rfl

end Correspondence
end MiniScheme
