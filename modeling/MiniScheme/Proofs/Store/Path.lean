import Mathlib.Data.List.Nodup
import MiniScheme.Proofs.Store.Extends
import MiniScheme.Proofs.Store.Links

/-! Chains that come to an end, and the search for a name along them. -/

namespace MiniScheme
namespace Store

inductive Path (s : Store) : Address → List Address → Address → Prop
  | last {a : Address} {f : Frame} (ha : s.frames[a]? = some f) (h : f.enclosing = none) :
      Path s a [a] a
  | link {a b root : Address} {f : Frame} {l : List Address} (ha : s.frames[a]? = some f)
      (h : f.enclosing = some b) (hpath : Path s b l root) : Path s a (a :: l) root

/-- The search for `name` from `a` outwards, frame by frame and without any bound, ends with the
frame that binds it or outside all frames. -/
inductive Finds (s : Store) (name : String) : Address → Option Address → Prop
  | here {a : Address} {v : Value} (h : s.local? a name = some v) : Finds s name a (some a)
  | outwards {a b : Address} {r : Option Address} (ha : s.local? a name = none)
      (h : s.enclosing? a = some b) (hb : Finds s name b r) : Finds s name a r
  | nowhere {a : Address} (ha : s.local? a name = none) (h : s.enclosing? a = none) :
      Finds s name a none

variable {s t : Store} {a b root : Address} {l : List Address} {name : String}

theorem Path.extends (h : s.Path a l root) (hst : s.Extends t) : t.Path a l root := by
  induction h with
  | last ha h =>
    obtain ⟨g, hg, hfg⟩ := hst.frames _ _ ha
    exact .last hg (hfg.enclosing.trans h)
  | link ha h _ ih =>
    obtain ⟨g, hg, hfg⟩ := hst.frames _ _ ha
    exact .link hg (hfg.enclosing.trans h) ih

theorem Path.of_frames_eq (h : s.Path a l root) (hframes : t.frames = s.frames) :
    t.Path a l root := by
  induction h with
  | last ha h => exact .last (hframes ▸ ha) h
  | link ha h _ ih => exact .link (hframes ▸ ha) h ih

theorem Path.lt_fresh (h : s.Path a l root) : ∀ b ∈ l, b < s.fresh := by
  induction h with
  | last ha _ => exact List.forall_mem_singleton.mpr (Array.getElem?_eq_some_iff.mp ha).1
  | link ha _ _ ih => exact List.forall_mem_cons.mpr ⟨(Array.getElem?_eq_some_iff.mp ha).1, ih⟩

theorem Path.chainUpTo_eq (h : s.Path a l root) {n : Nat} (hn : l.length ≤ n) :
    s.chainUpTo n a = l := by
  induction h generalizing n with
  | last ha h =>
    obtain ⟨n, rfl⟩ : ∃ k, n = k + 1 := Nat.exists_eq_add_of_le' hn
    simp [chainUpTo, ha, h]
  | link ha h _ ih =>
    rw [List.length_cons] at hn
    obtain ⟨n, rfl⟩ : ∃ k, n = k + 1 := ⟨n - 1, by omega⟩
    simp [chainUpTo, ha, h, ih (n := n) (by omega)]

theorem Path.unique {l' : List Address} {root' : Address} (h : s.Path a l root)
    (h' : s.Path a l' root') : l = l' := by
  have hlong := h.chainUpTo_eq (Nat.le_max_left l.length l'.length)
  exact hlong.symm.trans (h'.chainUpTo_eq (Nat.le_max_right l.length l'.length))

theorem Path.exists_of_mem (h : s.Path a l root) (hb : b ∈ l) :
    ∃ l', s.Path b l' root ∧ l'.length ≤ l.length := by
  induction h with
  | last ha h =>
    obtain rfl := List.mem_singleton.mp hb
    exact ⟨_, .last ha h, Nat.le_refl _⟩
  | link ha h hpath ih =>
    rcases List.mem_cons.mp hb with rfl | hb
    · exact ⟨_, .link ha h hpath, Nat.le_refl _⟩
    · obtain ⟨l', hl', hlen⟩ := ih hb
      exact ⟨l', hl', Nat.le_succ_of_le hlen⟩

theorem Path.nodup (h : s.Path a l root) : l.Nodup := by
  induction h with
  | last _ _ => exact List.nodup_singleton _
  | link ha h hpath ih =>
    refine List.nodup_cons.mpr ⟨fun hmem => ?_, ih⟩
    obtain ⟨l', hl', hlen⟩ := hpath.exists_of_mem hmem
    rw [hl'.unique (.link ha h hpath), List.length_cons] at hlen
    exact Nat.not_succ_le_self _ hlen

theorem Path.length_le (h : s.Path a l root) : l.length ≤ s.fresh := by
  have hsub : l ⊆ List.range s.fresh := fun b hb => List.mem_range.mpr (h.lt_fresh b hb)
  have hlen := (List.subperm_of_subset h.nodup hsub).length_le
  rwa [List.length_range] at hlen

theorem Path.chain_eq (h : s.Path a l root) : s.chain a = l := h.chainUpTo_eq h.length_le

theorem finds_cons
    (h : s.local? a name = none → s.Finds name a (l.find? fun b => (s.local? b name).isSome)) :
    s.Finds name a ((a :: l).find? fun b => (s.local? b name).isSome) := by
  rw [List.find?_cons]
  cases hlocal : s.local? a name with
  | some v => exact .here hlocal
  | none => exact h hlocal

theorem Path.finds (h : s.Path a l root) (name : String) :
    s.Finds name a (s.holder? a name) := by
  unfold holder?
  rw [h.chain_eq]
  induction h with
  | last ha h =>
    refine finds_cons fun hlocal => ?_
    exact .nowhere hlocal (by rw [enclosing?, ha]; exact h)
  | link ha h _ ih =>
    refine finds_cons fun hlocal => ?_
    exact .outwards hlocal (by rw [enclosing?, ha]; exact h) ih

end Store
end MiniScheme
