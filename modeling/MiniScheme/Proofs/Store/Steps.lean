import MiniScheme.Proofs.Store.Extends
import MiniScheme.Proofs.Store.Links
import MiniScheme.Proofs.Store.Reach

/-! The single steps by which evaluation changes a store. A name that has a binding keeps one, and
one that has none gets it by a definition alone. -/

namespace MiniScheme

structure Definition where
  store : Store
  env : Address
  name : String
  value : Value

def Definition.after (d : Definition) : Store := d.store.define d.env d.name d.value

namespace Store

inductive Step (D : Definition → Prop) : Store → Store → Prop
  | define {d : Definition} (h : D d) : Step D d.store d.after
  | assign (s : Store) (a : Address) (name : String) (v : Value) : Step D s (s.assign a name v).2
  | alloc (s : Store) (f : Frame) : Step D s (s.alloc f)
  | newClosure (s : Store) : Step D s { s with nextClosure := s.nextClosure + 1 }
  | print (s : Store) (text : String) : Step D s { s with console := s.console.print text }
  | warn (s : Store) (text : String) :
      Step D s { s with console.stderr := s.console.stderr ++ text ++ "\n" }

def Steps (D : Definition → Prop) : Store → Store → Prop := Relation.ReflTransGen (Step D)

variable {D D' : Definition → Prop} {s t : Store} {a b : Address} {name : String}

theorem Steps.mono (hD : ∀ d, D d → D' d) (h : Steps D s t) : Steps D' s t := by
  refine Relation.ReflTransGen.mono (fun s t hstep => ?_) _ _ h
  cases hstep with
  | define h => exact .define (hD _ h)
  | assign => exact .assign ..
  | alloc => exact .alloc ..
  | newClosure => exact .newClosure ..
  | print => exact .print ..
  | warn => exact .warn ..

theorem Step.extends (h : Step D s t) : s.Extends t := by
  cases h with
  | define => exact extends_define ..
  | assign => exact extends_assign ..
  | alloc => exact extends_alloc ..
  | newClosure => exact extends_nextClosure ..
  | print => exact extends_print ..
  | warn => exact extends_warn ..

theorem Steps.extends (h : Steps D s t) : s.Extends t := by
  induction h with
  | refl => exact .refl s
  | tail _ hstep ih => exact ih.trans hstep.extends

/-! Links and bindings in a store that extends another one. -/

theorem Extends.enclosing? (h : s.Extends t) (ha : a < s.fresh) :
    t.enclosing? a = s.enclosing? a := by
  have hf : s.frames[a]? = some s.frames[a] := Array.getElem?_eq_getElem ha
  obtain ⟨g, hg, hfg⟩ := h.frames a _ hf
  rw [enclosing?_eq hf, enclosing?_eq hg, hfg.enclosing]

theorem Extends.local? (h : s.Extends t) (hbound : (s.local? a name).isSome) :
    (t.local? a name).isSome := by
  obtain ⟨v, hv⟩ := Option.isSome_iff_exists.mp hbound
  obtain ⟨f, hf, hget⟩ := Option.bind_eq_some_iff.mp hv
  obtain ⟨g, hg, hfg⟩ := h.frames a f hf
  rw [local?_eq hg]
  exact hfg.bound name (hget ▸ rfl)

theorem Extends.leads (h : s.Extends t) (hleads : s.Leads a b) : t.Leads a b := by
  refine Relation.ReflTransGen.mono (fun c d hlink => ?_) _ _ hleads
  rw [h.enclosing? (lt_fresh_of_enclosing? hlink)]
  exact hlink

def Framed (s : Store) (a : Address) : Prop := ∀ b, s.Leads a b → b < s.fresh

theorem Framed.leads_iff (ha : s.Framed a) (h : s.Extends t) : t.Leads a b ↔ s.Leads a b := by
  refine ⟨fun hleads => ?_, h.leads⟩
  induction hleads with
  | refl => exact .refl
  | tail _ hlink ih =>
    rw [h.enclosing? (ha _ ih)] at hlink
    exact ih.tail hlink

theorem isSome_lookup?_iff :
    (s.lookup? a name).isSome ↔ ∃ b, s.Leads a b ∧ (s.local? b name).isSome := by
  constructor
  · intro h
    obtain ⟨v, hv⟩ := Option.isSome_iff_exists.mp h
    obtain ⟨b, hleads, hlocal⟩ := leads_of_lookup? hv
    exact ⟨b, hleads, hlocal ▸ rfl⟩
  · rintro ⟨b, hleads, hbound⟩
    obtain ⟨v, hv⟩ := Option.isSome_iff_exists.mp hbound
    have hmem : b ∈ s.chain a := mem_chain_iff.mpr ⟨hleads, lt_fresh_of_local? hv⟩
    obtain ⟨c, hc⟩ : ∃ c, s.holder? a name = some c := by
      refine Option.isSome_iff_exists.mp (List.find?_isSome.mpr ⟨b, hmem, hbound⟩)
    obtain ⟨w, hw⟩ := (leads_of_holder? hc).2
    rw [lookup?, hc, Option.bind_some, hw]
    rfl

theorem Extends.lookup? (h : s.Extends t) (hbound : (s.lookup? a name).isSome) :
    (t.lookup? a name).isSome := by
  obtain ⟨b, hleads, hlocal⟩ := isSome_lookup?_iff.mp hbound
  exact isSome_lookup?_iff.mpr ⟨b, h.leads hleads, h.local? hlocal⟩

/-! Names that come to be bound. -/

theorem Framed.of_extends (ha : s.Framed a) (h : s.Extends t) : t.Framed a :=
  fun b hleads => Nat.lt_of_lt_of_le (ha b ((ha.leads_iff h).mp hleads)) h.fresh_le

theorem Framed.isSome_lookup? (ha : s.Framed a) (h : s.Extends t)
    (hlocal : ∀ b < s.fresh, (t.local? b name).isSome → (s.local? b name).isSome)
    (hbound : (t.lookup? a name).isSome) : (s.lookup? a name).isSome := by
  obtain ⟨b, hleads, hb⟩ := isSome_lookup?_iff.mp hbound
  have hleads := (ha.leads_iff h).mp hleads
  exact isSome_lookup?_iff.mpr ⟨b, hleads, hlocal b (ha b hleads) hb⟩

theorem isSome_local?_assign {other : String} {v : Value}
    (h : ((s.assign a other v).2.local? b name).isSome) : (s.local? b name).isSome := by
  unfold assign at h
  cases hholder : s.holder? a other with
  | none =>
    rw [hholder] at h
    exact h
  | some c =>
    rw [hholder] at h
    change ((s.define c other v).local? b name).isSome at h
    obtain ⟨w, hw⟩ := (leads_of_holder? hholder).2
    rw [local?_define] at h
    split at h
    · rename_i heq
      obtain ⟨rfl, rfl⟩ := heq
      exact hw ▸ rfl
    · exact h

/-- Of all steps only a definition on the chain can bind a name that is unbound. -/
theorem Step.exists_definition (h : Step D s t) (ha : s.Framed a) (hnone : s.lookup? a name = none)
    (hsome : (t.lookup? a name).isSome) :
    ∃ d, D d ∧ d.name = name ∧ s.Leads a d.env ∧ d.store = s ∧ d.after = t := by
  have hunbound : ¬(s.lookup? a name).isSome := by simp [hnone]
  -- all other steps leave the bindings of existing frames as they are
  have hkeep : ¬∀ b < s.fresh, (t.local? b name).isSome → (s.local? b name).isSome :=
    fun hlocal => hunbound (ha.isSome_lookup? h.extends hlocal hsome)
  cases h with
  | @define d hd =>
    obtain ⟨b, hleads, hb⟩ := isSome_lookup?_iff.mp hsome
    have hleads := (ha.leads_iff (extends_define ..)).mp hleads
    unfold Definition.after at hb
    rw [local?_define] at hb
    split at hb
    · rename_i heq
      obtain ⟨rfl, rfl⟩ := heq
      exact ⟨d, hd, rfl, hleads, rfl, rfl⟩
    · exact absurd (isSome_lookup?_iff.mpr ⟨b, hleads, hb⟩) hunbound
  | assign => exact absurd (fun _ _ => isSome_local?_assign) hkeep
  | alloc f =>
    refine absurd (fun b hb h => ?_) hkeep
    rw [local?_alloc, if_neg (Nat.ne_of_lt hb)] at h
    exact h
  | newClosure | print | warn => exact absurd (fun _ _ h => h) hkeep

theorem Steps.exists_definition (h : Steps D s t) (ha : s.Framed a)
    (hnone : s.lookup? a name = none) (hsome : (t.lookup? a name).isSome) :
    ∃ d, D d ∧ d.name = name ∧ s.Leads a d.env ∧ d.store.lookup? a name = none ∧
      Steps D s d.store ∧ Steps D d.after t := by
  induction h using Relation.ReflTransGen.head_induction_on with
  | refl =>
    rw [hnone] at hsome
    cases hsome
  | @head s u hstep hrest ih =>
    cases hu : u.lookup? a name with
    | some v =>
      obtain ⟨d, hd, hname, hleads, rfl, rfl⟩ := hstep.exists_definition ha hnone (hu ▸ rfl)
      exact ⟨d, hd, hname, hleads, hnone, .refl, hrest⟩
    | none =>
      obtain ⟨d, hd, hname, hleads, hunbound, hbefore, hafter⟩ :=
        ih (ha.of_extends hstep.extends) hu
      exact ⟨d, hd, hname, (ha.leads_iff hstep.extends).mp hleads, hunbound, hbefore.head hstep,
        hafter⟩

end Store
end MiniScheme
