import Mathlib.Data.Finset.Card
import Mathlib.Data.Finset.Range
import Mathlib.Data.Nat.Find
import Mathlib.Logic.Relation
import MiniScheme.Store

/-! The links from frame to frame. A store is read through two views, the link of a frame and the
binding of a name in it, and the chain of an address is what its links lead to. -/

namespace MiniScheme
namespace Store

def enclosing? (s : Store) (a : Address) : Option Address := (s.frames[a]?).bind (·.enclosing)

variable {s : Store} {a b : Address} {name other : String} {v : Value}

theorem lt_fresh_of_enclosing? (h : s.enclosing? a = some b) : a < s.fresh := by
  obtain ⟨f, hf, _⟩ := Option.bind_eq_some_iff.mp h
  exact (Array.getElem?_eq_some_iff.mp hf).1

theorem lt_fresh_of_local? (h : s.local? a name = some v) : a < s.fresh := by
  obtain ⟨f, hf, _⟩ := Option.bind_eq_some_iff.mp h
  exact (Array.getElem?_eq_some_iff.mp hf).1

theorem enclosing?_eq {f : Frame} (h : s.frames[a]? = some f) : s.enclosing? a = f.enclosing := by
  rw [enclosing?, h, Option.bind_some]

theorem local?_eq {f : Frame} (h : s.frames[a]? = some f) (name : String) :
    s.local? a name = f.get? name := by
  rw [local?, h, Option.bind_some]

/-! What the changes of a store do to the two views. -/

theorem enclosing?_define (s : Store) (a b : Address) (name : String) (v : Value) :
    (s.define a name v).enclosing? b = s.enclosing? b := by
  unfold enclosing? define
  rw [Array.getElem?_modify]
  split
  · cases s.frames[b]? <;> rfl
  · rfl

theorem local?_define_eq_some {w : Value} (h : (s.define a name v).local? b other = some w) :
    (b = a ∧ w = v) ∨ s.local? b other = some w := by
  rw [local?_define] at h
  split at h
  · rename_i heq
    obtain ⟨_, _, rfl⟩ := Option.map_eq_some_iff.mp h
    exact .inl ⟨heq.1.symm, rfl⟩
  · exact .inr h

theorem frames_define_of_ne (h : b ≠ a) (name : String) (v : Value) :
    (s.define a name v).frames[b]? = s.frames[b]? := by
  unfold define
  rw [Array.getElem?_modify, if_neg (Ne.symm h)]

theorem fresh_define (s : Store) (a : Address) (name : String) (v : Value) :
    (s.define a name v).fresh = s.fresh := Array.size_modify

theorem fresh_alloc (s : Store) (f : Frame) : (s.alloc f).fresh = s.fresh + 1 :=
  Array.size_push f

theorem fresh_lt_alloc (s : Store) (f : Frame) : s.fresh < (s.alloc f).fresh :=
  fresh_alloc s f ▸ Nat.lt_succ_self _

theorem frames_fresh_add (s : Store) (i : Nat) : s.frames[s.fresh + i]? = none :=
  Array.getElem?_eq_none (Nat.le_add_right _ i)

theorem frames_alloc (s : Store) (f : Frame) (a : Address) :
    (s.alloc f).frames[a]? = if a = s.fresh then some f else s.frames[a]? :=
  Array.getElem?_push

theorem frames_alloc_of_ne (h : a ≠ s.fresh) (f : Frame) :
    (s.alloc f).frames[a]? = s.frames[a]? := (frames_alloc s f a).trans (if_neg h)

theorem frames_alloc_fresh (s : Store) (f : Frame) : (s.alloc f).frames[s.fresh]? = some f :=
  (frames_alloc s f s.fresh).trans (if_pos rfl)

theorem enclosing?_alloc (s : Store) (f : Frame) (a : Address) :
    (s.alloc f).enclosing? a = if a = s.fresh then f.enclosing else s.enclosing? a := by
  unfold enclosing?
  rw [frames_alloc]
  split <;> rfl

theorem local?_alloc (s : Store) (f : Frame) (a : Address) (name : String) :
    (s.alloc f).local? a name = if a = s.fresh then f.get? name else s.local? a name := by
  unfold local?
  rw [frames_alloc]
  split <;> rfl

/-! The chain of an address. -/

def Leads (s : Store) : Address → Address → Prop :=
  Relation.ReflTransGen fun a b => s.enclosing? a = some b

theorem mem_chainUpTo_succ {n : Nat} :
    b ∈ s.chainUpTo (n + 1) a ↔
      a < s.fresh ∧ (b = a ∨ ∃ c, s.enclosing? a = some c ∧ b ∈ s.chainUpTo n c) := by
  rw [chainUpTo, enclosing?]
  cases hf : s.frames[a]? with
  | none =>
    have hlt : ¬a < s.fresh := fun h => by
      rw [Array.getElem?_eq_getElem h] at hf
      cases hf
    simp [hlt]
  | some f =>
    have hlt : a < s.fresh := (Array.getElem?_eq_some_iff.mp hf).1
    cases henclosing : f.enclosing <;> simp [hlt, henclosing]

theorem lt_fresh_of_mem_chainUpTo {n : Nat} (h : b ∈ s.chainUpTo n a) : b < s.fresh := by
  induction n generalizing a with
  | zero => exact absurd h List.not_mem_nil
  | succ n ih =>
    obtain ⟨hlt, rfl | ⟨c, _, hmem⟩⟩ := mem_chainUpTo_succ.mp h
    · exact hlt
    · exact ih hmem

theorem leads_of_mem_chainUpTo {n : Nat} (h : b ∈ s.chainUpTo n a) : s.Leads a b := by
  induction n generalizing a with
  | zero => exact absurd h List.not_mem_nil
  | succ n ih =>
    obtain ⟨_, rfl | ⟨c, hlink, hmem⟩⟩ := mem_chainUpTo_succ.mp h
    · exact .refl
    · exact .head hlink (ih hmem)

theorem chainUpTo_prefix {m n : Nat} (h : m ≤ n) (a : Address) :
    s.chainUpTo m a <+: s.chainUpTo n a := by
  induction m generalizing n a with
  | zero => exact List.nil_prefix
  | succ m ih =>
    obtain ⟨n, rfl⟩ : ∃ k, n = k + 1 := ⟨n - 1, by omega⟩
    rw [chainUpTo, chainUpTo]
    cases s.frames[a]? with
    | none => exact List.prefix_rfl
    | some f =>
      refine (List.prefix_cons_inj a).mpr ?_
      cases f.enclosing with
      | none => exact List.prefix_rfl
      | some b => exact ih (by omega) b

def ascend (s : Store) : Nat → Address → Option Address
  | 0, a => some a
  | n + 1, a => (s.enclosing? a).bind (ascend s n)

theorem ascend_add (s : Store) (m n : Nat) (a : Address) :
    s.ascend (m + n) a = (s.ascend m a).bind (s.ascend n) := by
  induction m generalizing a with
  | zero => rw [Nat.zero_add, ascend, Option.bind_some]
  | succ m ih =>
    rw [Nat.add_right_comm, ascend, ascend, Option.bind_assoc]
    exact congrArg _ (funext ih)

theorem exists_ascend_of_leads (h : s.Leads a b) : ∃ n, s.ascend n a = some b := by
  induction h using Relation.ReflTransGen.head_induction_on with
  | refl => exact ⟨0, rfl⟩
  | head hlink _ ih =>
    obtain ⟨n, hn⟩ := ih
    exact ⟨n + 1, by rw [ascend, hlink, Option.bind_some, hn]⟩

theorem mem_chainUpTo_of_ascend {m n : Nat} (h : s.ascend m a = some b) (hmn : m < n)
    (hb : b < s.fresh) : b ∈ s.chainUpTo n a := by
  induction m generalizing n a with
  | zero =>
    obtain rfl := Option.some.inj h
    obtain ⟨n, rfl⟩ : ∃ k, n = k + 1 := ⟨n - 1, by omega⟩
    exact mem_chainUpTo_succ.mpr ⟨hb, .inl rfl⟩
  | succ m ih =>
    obtain ⟨c, hlink, hc⟩ := Option.bind_eq_some_iff.mp h
    obtain ⟨n, rfl⟩ : ∃ k, n = k + 1 := ⟨n - 1, by omega⟩
    exact mem_chainUpTo_succ.mpr
      ⟨lt_fresh_of_enclosing? hlink, .inr ⟨c, hlink, ih hc (by omega)⟩⟩

theorem lt_fresh_of_ascend {m n : Nat} (hn : s.ascend n a = some b) (hb : b < s.fresh)
    (hm : m ≤ n) : ∃ c, s.ascend m a = some c ∧ c < s.fresh := by
  rw [← Nat.add_sub_cancel' hm, ascend_add] at hn
  obtain ⟨c, hc, hrest⟩ := Option.bind_eq_some_iff.mp hn
  refine ⟨c, hc, ?_⟩
  cases hk : n - m with
  | zero =>
    rw [hk] at hrest
    exact Option.some.inj hrest ▸ hb
  | succ k =>
    rw [hk] at hrest
    obtain ⟨d, hlink, _⟩ := Option.bind_eq_some_iff.mp hrest
    exact lt_fresh_of_enclosing? hlink

theorem ascend_of_eq {i j n : Nat} (h : s.ascend i a = s.ascend j a) (hj : j ≤ n) :
    s.ascend (i + (n - j)) a = s.ascend n a := by
  rw [ascend_add, h, ← ascend_add, Nat.add_sub_cancel' hj]

theorem exists_ascend_lt (h : s.Leads a b) (hb : b < s.fresh) :
    ∃ n, n < s.fresh ∧ s.ascend n a = some b := by
  classical
  have hways := exists_ascend_of_leads h
  obtain ⟨n, hn, hleast⟩ : ∃ n, s.ascend n a = some b ∧ ∀ m < n, s.ascend m a ≠ some b :=
    ⟨Nat.find hways, Nat.find_spec hways, fun _ hm => Nat.find_min hways hm⟩
  refine ⟨n, by_contra fun hlong => ?_, hn⟩
  have hmaps : ∀ m ∈ Finset.range (n + 1), (s.ascend m a).getD 0 ∈ Finset.range s.fresh := by
    intro m hm
    obtain ⟨c, hc, hlt⟩ := lt_fresh_of_ascend hn hb (Nat.lt_succ_iff.mp (Finset.mem_range.mp hm))
    rw [hc]
    exact Finset.mem_range.mpr hlt
  have hcard : (Finset.range s.fresh).card < (Finset.range (n + 1)).card := by
    rw [Finset.card_range, Finset.card_range]
    exact Nat.lt_succ_of_le (Nat.le_of_not_lt hlong)
  obtain ⟨i, hi, j, hj, hne, heq⟩ := Finset.exists_ne_map_eq_of_card_lt_of_maps_to hcard hmaps
  have hin := Nat.lt_succ_iff.mp (Finset.mem_range.mp hi)
  have hjn := Nat.lt_succ_iff.mp (Finset.mem_range.mp hj)
  have hmeet : s.ascend i a = s.ascend j a := by
    obtain ⟨c, hc, _⟩ := lt_fresh_of_ascend hn hb hin
    obtain ⟨d, hd, _⟩ := lt_fresh_of_ascend hn hb hjn
    rw [hc, hd] at heq ⊢
    exact congrArg some heq
  rcases Nat.lt_or_gt_of_ne hne with hlt | hlt
  · exact hleast (i + (n - j)) (by omega) ((ascend_of_eq hmeet hjn).trans hn)
  · exact hleast (j + (n - i)) (by omega) ((ascend_of_eq hmeet.symm hin).trans hn)

/-- The chain holds every frame that the links lead to: the bound on its length is never felt. -/
theorem mem_chain_iff : b ∈ s.chain a ↔ s.Leads a b ∧ b < s.fresh := by
  constructor
  · exact fun h => ⟨leads_of_mem_chainUpTo h, lt_fresh_of_mem_chainUpTo h⟩
  · rintro ⟨hleads, hb⟩
    obtain ⟨n, hn, hascend⟩ := exists_ascend_lt hleads hb
    exact mem_chainUpTo_of_ascend hascend hn hb

theorem find?_chainUpTo {n : Nat} (h : s.fresh ≤ n) (p : Address → Bool) :
    (s.chainUpTo n a).find? p = (s.chain a).find? p := by
  obtain ⟨rest, hrest⟩ := chainUpTo_prefix (s := s) h a
  have hsplit : s.chainUpTo n a = s.chain a ++ rest := hrest.symm
  rw [hsplit, List.find?_append]
  cases hfind : (s.chain a).find? p with
  | some b => rfl
  | none =>
    rw [Option.none_or]
    refine List.find?_eq_none.mpr fun b hb => List.find?_eq_none.mp hfind b ?_
    have hmem : b ∈ s.chainUpTo n a := hsplit ▸ List.mem_append_right _ hb
    exact mem_chain_iff.mpr ⟨leads_of_mem_chainUpTo hmem, lt_fresh_of_mem_chainUpTo hmem⟩

/-! What is found along a chain. -/

theorem find?_bind {α β : Type} (look : α → Option β) (l : List α) :
    (l.find? fun a => (look a).isSome).bind look = l.findSome? look := by
  induction l with
  | nil => rfl
  | cons a l ih =>
    rw [List.find?_cons, List.findSome?_cons]
    cases h : look a with
    | some b => exact h
    | none => exact ih

theorem findSome?_congr {α β : Type} {look look' : α → Option β} {l : List α}
    (h : ∀ a ∈ l, look a = look' a) : l.findSome? look = l.findSome? look' := by
  induction l with
  | nil => rfl
  | cons a l ih =>
    obtain ⟨ha, hl⟩ := List.forall_mem_cons.mp h
    rw [List.findSome?_cons, List.findSome?_cons, ha, ih hl]

theorem lookup?_eq_findSome? (s : Store) (a : Address) (name : String) :
    s.lookup? a name = (s.chain a).findSome? (s.local? · name) := find?_bind _ _

theorem leads_of_holder? (h : s.holder? a name = some b) :
    s.Leads a b ∧ ∃ v, s.local? b name = some v := by
  have hmem := List.mem_of_find?_eq_some h
  have hbound := List.find?_some h
  exact ⟨(mem_chain_iff.mp hmem).1, Option.isSome_iff_exists.mp hbound⟩

theorem leads_of_lookup? (h : s.lookup? a name = some v) :
    ∃ b, s.Leads a b ∧ s.local? b name = some v := by
  obtain ⟨b, hb, hlocal⟩ := Option.bind_eq_some_iff.mp h
  exact ⟨b, (leads_of_holder? hb).1, hlocal⟩

theorem assign_eq (s : Store) (a : Address) (name : String) (v : Value) :
    s.assign a name v = (false, s) ∨
      ∃ b, s.Leads a b ∧ s.assign a name v = (true, s.define b name v) := by
  unfold assign
  cases h : s.holder? a name with
  | none => exact .inl rfl
  | some b => exact .inr ⟨b, (leads_of_holder? h).1, rfl⟩

end Store
end MiniScheme
