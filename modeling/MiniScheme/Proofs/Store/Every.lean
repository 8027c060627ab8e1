import MiniScheme.Proofs.Value.Leaves
import MiniScheme.Store

/-! Properties that all values of a store have. -/

namespace MiniScheme
namespace Frame

theorem mem_insert {name : String} {v : Value} {bs : List (String × Value)} {b : String × Value}
    (h : b ∈ insert name v bs) : b.2 = v ∨ b ∈ bs := by
  induction bs with
  | nil =>
    obtain rfl := List.mem_singleton.mp h
    exact .inl rfl
  | cons c bs ih =>
    obtain ⟨n, w⟩ := c
    rw [insert] at h
    split at h
    · rcases List.mem_cons.mp h with rfl | h
      · exact .inl rfl
      · exact .inr (List.mem_cons_of_mem _ h)
    · rcases List.mem_cons.mp h with rfl | h
      · exact .inr List.mem_cons_self
      · exact (ih h).imp_right (List.mem_cons_of_mem _)

theorem mem_of_get? {f : Frame} {name : String} {v : Value} (h : f.get? name = some v) :
    (name, v) ∈ f.bindings := by
  rw [get?, List.lookup_eq_some_iff] at h
  obtain ⟨front, rest, heq, _⟩ := h
  rw [heq]
  exact List.mem_append_right front List.mem_cons_self

theorem mem_foldl_insert {ps bs : List (String × Value)} {b : String × Value}
    (h : b ∈ ps.foldl (fun bs p => insert p.1 p.2 bs) bs) : b ∈ bs ∨ ∃ p ∈ ps, b.2 = p.2 := by
  induction ps generalizing bs with
  | nil => exact .inl h
  | cons p ps ih =>
    rcases ih h with h | ⟨q, hq, hb⟩
    · exact (mem_insert h).elim (fun hb => .inr ⟨p, List.mem_cons_self, hb⟩) .inl
    · exact .inr ⟨q, List.mem_cons_of_mem p hq, hb⟩

theorem mem_ofArguments {params : List String} {args : List Value} {a : Address}
    {b : String × Value} (h : b ∈ (ofArguments params args a).bindings) : b.2 ∈ args := by
  rcases mem_foldl_insert h with h | ⟨p, hp, hb⟩
  · exact absurd h List.not_mem_nil
  · exact hb ▸ (List.of_mem_zip (a := p.1) (b := p.2) hp).2

end Frame

namespace Store

def Every (P : Value → Prop) (s : Store) : Prop :=
  ∀ (a : Address) (f : Frame), s.frames[a]? = some f → ∀ b ∈ f.bindings, P b.2

variable {P : Value → Prop} {s : Store} {a : Address} {name : String} {v : Value}

theorem Every.of_local? (h : s.Every P) (hv : s.local? a name = some v) : P v := by
  obtain ⟨f, hf, hget⟩ := Option.bind_eq_some_iff.mp hv
  exact h a f hf _ (Frame.mem_of_get? hget)

theorem Every.of_lookup? (h : s.Every P) (hv : s.lookup? a name = some v) : P v := by
  obtain ⟨b, _, hlocal⟩ := Option.bind_eq_some_iff.mp hv
  exact h.of_local? hlocal

theorem Every.define (h : s.Every P) (a : Address) (name : String) (hv : P v) :
    (s.define a name v).Every P := by
  intro b g hg c hc
  rw [Store.define, Array.getElem?_modify] at hg
  split at hg
  · obtain ⟨f, hf, rfl⟩ := Option.map_eq_some_iff.mp hg
    rcases Frame.mem_insert hc with heq | hc
    · exact heq ▸ hv
    · exact h b f hf c hc
  · exact h b g hg c hc

theorem Every.assign (h : s.Every P) (a : Address) (name : String) (hv : P v) :
    (s.assign a name v).2.Every P := by
  unfold Store.assign
  split
  · exact h.define _ name hv
  · exact h

theorem Every.alloc (h : s.Every P) {f : Frame} (hf : ∀ b ∈ f.bindings, P b.2) :
    (s.alloc f).Every P := by
  intro b g hg c hc
  rw [Store.alloc, Array.getElem?_push] at hg
  split at hg
  · obtain rfl := Option.some.inj hg
    exact hf c hc
  · exact h b g hg c hc

theorem every_globalFrame {home : Address} (hP : ∀ op, P (.primitive op home)) :
    ∀ b ∈ (globalFrame home).bindings, b.2.Every P := by
  intro b hb
  obtain ⟨op, _, rfl⟩ := List.mem_map.mp hb
  exact Value.every_primitive.mpr (hP op)

end Store
end MiniScheme
