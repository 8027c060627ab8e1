import MiniScheme.Proofs.Eval.Invariant
import MiniScheme.Proofs.Store.Links

/-! Invariants of frames and of what they hold, which ask nothing of expressions and failures. Such
an invariant is lawful if one link, one binding and one new frame at a time keep it. -/

namespace MiniScheme
namespace Invariant

structure OfFrames (I : Invariant) : Prop where
  env_extends {s t : Store} {a : Address} (h : s.Extends t) : I.env s a → I.env t a
  leaf_extends {s t : Store} {v : Value} (h : s.Extends t) : I.leaf s v → I.leaf t v
  frames_eq {s t : Store} (hs : I.store s) (hframes : t.frames = s.frames)
    (hclosure : s.nextClosure ≤ t.nextClosure) : I.store t
  enclosing? {s : Store} {a b : Address} (hs : I.store s) (ha : I.env s a)
    (h : s.enclosing? a = some b) : I.env s b
  local? {s : Store} {a : Address} {name : String} {v : Value} (hs : I.store s) (ha : I.env s a)
    (h : s.local? a name = some v) : I.value s v
  define {s : Store} {a : Address} {v : Value} (hs : I.store s) (ha : I.env s a)
    (hv : I.value s v) (name : String) : I.store (s.define a name v)
  plain {s : Store} {v : Value} (h : v.IsPlain) : I.leaf s v
  closure {s : Store} {a : Address} (hs : I.store s) (ha : I.env s a) (params : List String)
    (body : Expr) : I.leaf { s with nextClosure := s.nextClosure + 1 }
      (.closure ⟨s.nextClosure, "lambda", params, body, a⟩)
  call {s : Store} {c : Closure} {args : List Value} (hs : I.store s) (hc : I.leaf s (.closure c))
    (hargs : ∀ v ∈ args, I.value s v) :
    I.store (s.alloc (Frame.ofArguments c.params args c.env)) ∧
      I.env (s.alloc (Frame.ofArguments c.params args c.env)) s.fresh

variable {I : Invariant} {s : Store} {a b : Address}

theorem OfFrames.leads (hI : I.OfFrames) (hs : I.store s) (ha : I.env s a) (h : s.Leads a b) :
    I.env s b := by
  induction h with
  | refl => exact ha
  | tail _ hlink ih => exact hI.enclosing? hs ih hlink

theorem OfFrames.lawful (hI : I.OfFrames) (hexpr : ∀ e, I.expr e)
    (hfailure : ∀ failure, I.failure failure) : I.Lawful where
  env_extends := hI.env_extends
  leaf_extends := hI.leaf_extends
  lookup hs ha h := by
    obtain ⟨b, hleads, hlocal⟩ := Store.leads_of_lookup? h
    exact hI.local? hs (hI.leads hs ha hleads) hlocal
  define := hI.define
  assign {s a v} hs ha hv name := by
    rcases s.assign_eq a name v with heq | ⟨b, hleads, heq⟩
    · rw [heq]
      exact hs
    · rw [heq]
      exact hI.define hs (hI.leads hs ha hleads) hv name
  print hs _ := hI.frames_eq hs rfl (Nat.le_refl _)
  warn hs _ := hI.frames_eq hs rfl (Nat.le_refl _)
  items _ e _ := hexpr e
  quoted _ h := Expr.quoted_every (fun _ => hI.plain) _ h
  noValue := hI.plain trivial
  lambda hs ha _ _ := ⟨hI.frames_eq hs rfl (Nat.le_succ _), hI.closure hs ha _ _⟩
  call hs hc hargs _ := by
    obtain ⟨ht, henv⟩ := hI.call hs hc hargs
    exact ⟨ht, henv, hexpr _⟩
  result _ hargs _ h := Primitive.result_every (fun _ => hI.plain) hargs h
  tooDeep := hfailure _
  raises _ _ := hfailure _
  ofCall _ := hfailure _
  result_error _ _ _ _ _ := .inr (hfailure _)
  text_error _ _ _ := .inr (hfailure _)

end Invariant
end MiniScheme
