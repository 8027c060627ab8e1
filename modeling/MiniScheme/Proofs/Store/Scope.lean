import MiniScheme.Proofs.Run.Ends
import MiniScheme.Proofs.Store.Path
import MiniScheme.Proofs.Store.Steps

/-! What one write changes for each frame of a store. A name is seen in the nearest frame that binds
it, so a write is seen from where no nearer frame stands in front of it, and from nowhere else. -/

namespace MiniScheme
namespace Store

def Grounded (s : Store) : Prop := ∀ a < s.fresh, ∃ l root, s.Path a l root

def Clear (s : Store) (a : Address) (name : String) (b : Address) : Prop :=
  ∃ near far root, s.Path a (near ++ b :: far) root ∧ ∀ c ∈ near, s.local? c name = none

def Nearest (s : Store) (a : Address) (name : String) (b : Address) : Prop :=
  s.Clear a name b ∧ (s.local? b name).isSome

def Rebinds (s t : Store) (name : String) (v : Value) (P : Address → Prop) : Prop :=
  ∀ g < s.fresh, ∀ other,
    (other = name ∧ P g → t.lookup? g other = some v) ∧
      (¬(other = name ∧ P g) → t.lookup? g other = s.lookup? g other)

variable {s : Store} {a b e f g root : Address} {l near far : List Address} {name other : String}
  {v : Value}

theorem Path.lookup?_eq (h : s.Path a l root) (name : String) :
    s.lookup? a name = l.findSome? (s.local? · name) := by
  rw [lookup?_eq_findSome?, h.chain_eq]

theorem holder?_eq_none_iff :
    s.holder? a name = none ↔ ∀ b, s.Leads a b → s.local? b name = none := by
  unfold holder?
  rw [List.find?_eq_none]
  refine ⟨fun h b hb => ?_, fun h b hb => by simp [h b (mem_chain_iff.mp hb).1]⟩
  by_contra hlocal
  obtain ⟨w, hw⟩ := Option.ne_none_iff_exists'.mp hlocal
  exact h b (mem_chain_iff.mpr ⟨hb, lt_fresh_of_local? hw⟩) (hw ▸ rfl)

theorem Path.holder?_eq_some_iff (h : s.Path a l root) :
    s.holder? a name = some b ↔ s.Nearest a name b := by
  rw [holder?, h.chain_eq, List.find?_eq_some_iff_append]
  constructor
  · rintro ⟨hb, near, far, rfl, hnear⟩
    exact ⟨⟨near, far, root, h, fun c hc => by simpa using hnear c hc⟩, hb⟩
  · rintro ⟨⟨near, far, root', h', hnear⟩, hb⟩
    exact ⟨hb, near, far, h.unique h', fun c hc => by simp [hnear c hc]⟩

theorem Nearest.lt_fresh (h : s.Nearest a name b) : b < s.fresh := by
  obtain ⟨_, hv⟩ := Option.isSome_iff_exists.mp h.2
  exact lt_fresh_of_local? hv

theorem local?_define_of_ne (h : ¬(b = e ∧ other = name)) :
    (s.define e name v).local? b other = s.local? b other := by
  rw [local?_define, if_neg fun heq => h ⟨heq.1.symm, heq.2⟩]

theorem local?_define_self (he : e < s.fresh) :
    (s.define e name v).local? e name = some v := by
  have hframe : s.frames[e]? = some s.frames[e] := Array.getElem?_eq_getElem he
  rw [local?_define, if_pos ⟨rfl, rfl⟩, hframe]
  rfl

theorem Path.ne_of_mem_near (h : s.Path a (near ++ e :: far) root) (hb : b ∈ near) : b ≠ e := by
  rintro rfl
  have hnodup := List.nodup_middle.mp h.nodup
  exact (List.nodup_cons.mp hnodup).1 (List.mem_append_left far hb)

theorem Clear.lookup?_define (h : s.Clear g name e) (he : e < s.fresh) (v : Value) :
    (s.define e name v).lookup? g name = some v := by
  obtain ⟨near, far, root, hpath, hnear⟩ := h
  have hnone : near.findSome? ((s.define e name v).local? · name) = none := by
    refine List.findSome?_eq_none_iff.mpr fun c hc => ?_
    rw [local?_define_of_ne fun heq => hpath.ne_of_mem_near hc heq.1]
    exact hnear c hc
  rw [(hpath.extends (extends_define ..)).lookup?_eq, List.findSome?_append, hnone,
    Option.none_or, List.findSome?_cons, local?_define_self he]

theorem Path.lookup?_define (h : s.Path g l root) (v : Value)
    (hother : ¬(other = name ∧ s.Clear g name e)) :
    (s.define e name v).lookup? g other = s.lookup? g other := by
  rw [(h.extends (extends_define ..)).lookup?_eq, h.lookup?_eq]
  by_cases hname : other = name
  · subst hname
    by_cases hmem : e ∈ l
    · obtain ⟨near, far, rfl⟩ := List.append_of_mem hmem
      have hsame : near.findSome? ((s.define e other v).local? · other) =
          near.findSome? (s.local? · other) :=
        findSome?_congr fun c hc => local?_define_of_ne fun heq => h.ne_of_mem_near hc heq.1
      -- some frame in front binds the name, so the search does not come to `e`
      cases hfound : near.findSome? (s.local? · other) with
      | none =>
        have hnear := List.findSome?_eq_none_iff.mp hfound
        exact absurd ⟨rfl, near, far, root, h, hnear⟩ hother
      | some w => rw [List.findSome?_append, List.findSome?_append, hsame, hfound]; rfl
    · exact findSome?_congr fun c hc => local?_define_of_ne fun heq => hmem (heq.1 ▸ hc)
  · exact findSome?_congr fun c _ => local?_define_of_ne fun heq => hname heq.2

theorem Grounded.rebinds_define (hs : s.Grounded) (he : e < s.fresh) (name : String) (v : Value) :
    s.Rebinds (s.define e name v) name v fun g => s.Clear g name e := by
  intro g hg other
  obtain ⟨l, root, hpath⟩ := hs g hg
  refine ⟨?_, hpath.lookup?_define v⟩
  rintro ⟨rfl, hclear⟩
  exact hclear.lookup?_define he v

theorem Rebinds.congr {t : Store} {P Q : Address → Prop} (h : s.Rebinds t name v P)
    (hPQ : ∀ g, P g ↔ Q g) : s.Rebinds t name v Q := by
  obtain rfl : P = Q := funext fun g => propext (hPQ g)
  exact h

end Store

open Store

/-- Where chains come to an end, a definition is seen from the frames whose chain comes to it and
does not bind the name before. An assignment fails, and changes nothing, exactly when no frame of
the chain binds the name; else no frame gains or loses a name, and the value is seen from the frames
which see the name where it has been assigned. -/
theorem scoping_laws {s : Store} (hs : s.Grounded) {e : Address} (he : e < s.fresh)
    (name : String) (v : Value) :
    (∃ t, Run.define e name v s = .ok () t ∧ s.Rebinds t name v fun g => s.Clear g name e) ∧
      (Run.assign e name v s = .error (.unbound name) s ↔
        ∀ b, s.Leads e b → s.local? b name = none) ∧
      ((∃ b, s.Leads e b ∧ (s.local? b name).isSome) →
        ∃ f t, s.Nearest e name f ∧ Run.assign e name v s = .ok () t ∧
          (∀ a other, (t.local? a other).isSome ↔ (s.local? a other).isSome) ∧
          s.Rebinds t name v fun g => s.Nearest g name f) := by
  refine ⟨⟨_, rfl, hs.rebinds_define he name v⟩, ?_, ?_⟩
  · rw [Run.assign_apply, ← holder?_eq_none_iff]
    cases s.holder? e name <;> simp
  · rintro ⟨b, hleads, hbound⟩
    obtain ⟨l, root, hpath⟩ := hs e he
    cases hholder : s.holder? e name with
    | none =>
      rw [holder?_eq_none_iff.mp hholder b hleads] at hbound
      cases hbound
    | some f =>
      have hnearest := hpath.holder?_eq_some_iff.mp hholder
      refine ⟨f, s.define f name v, hnearest, by rw [Run.assign_apply, hholder], ?_, ?_⟩
      · refine fun a other => ⟨fun h => ?_, (extends_define ..).local?⟩
        have hassign : (s.assign e name v).2 = s.define f name v := by rw [assign, hholder]
        rw [← hassign] at h
        exact isSome_local?_assign h
      · exact (hs.rebinds_define hnearest.lt_fresh name v).congr fun g =>
          ⟨fun hclear => ⟨hclear, hnearest.2⟩, fun h => h.1⟩

def Store.siblings : Store where
  frames := #[⟨[("x", .boolean true)], none⟩, ⟨[], some 0⟩, ⟨[("x", .boolean true)], some 0⟩]

theorem Store.grounded_siblings : siblings.Grounded := by
  have hroot : siblings.Path 0 [0] 0 := .last rfl rfl
  intro a ha
  match a, ha with
  | 0, _ => exact ⟨_, _, hroot⟩
  | 1, _ => exact ⟨_, _, .link rfl rfl hroot⟩
  | 2, _ => exact ⟨_, _, .link rfl rfl hroot⟩

theorem scoping_laws_siblings : siblings.Grounded ∧ 1 < siblings.fresh ∧
    ∃ t, Run.assign 1 "x" (.boolean false) siblings = .ok () t ∧
      t.lookup? 0 "x" = some (.boolean false) ∧ t.lookup? 2 "x" = siblings.lookup? 2 "x" := by
  refine ⟨grounded_siblings, by decide, ?_⟩
  have hroot : siblings.Path 0 [0] 0 := .last rfl rfl
  obtain ⟨f, t, hf, ht, _, hrebinds⟩ :=
    (scoping_laws grounded_siblings (show 1 < siblings.fresh by decide) "x" (.boolean false)).2.2
      ⟨0, .single rfl, rfl⟩
  have hone : siblings.holder? 1 "x" = some f :=
    (Path.holder?_eq_some_iff (.link rfl rfl hroot)).mpr hf
  obtain rfl : f = 0 := (Option.some.inj hone).symm
  have hzero : siblings.Nearest 0 "x" 0 := hroot.holder?_eq_some_iff.mp rfl
  have htwo : ¬siblings.Nearest 2 "x" 0 := fun h => by
    have := (Path.holder?_eq_some_iff (.link rfl rfl hroot)).mpr h
    exact absurd this (by decide)
  exact ⟨t, ht, (hrebinds 0 (by decide) "x").1 ⟨rfl, hzero⟩,
    (hrebinds 2 (by decide) "x").2 fun h => htwo h.2⟩

end MiniScheme
