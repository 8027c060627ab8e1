import MiniScheme.Proofs.Store.Steps

/-! The frame that a call makes. The bindings are made one after another, and of equal names the
last would count; so each parameter has its own operand only where all names differ. -/

namespace MiniScheme
namespace Frame

variable {ps bs : List (String × Value)} {name : String} {v : Value}

theorem lookup_of_not_mem (h : name ∉ ps.map Prod.fst) : ps.lookup name = none := by
  refine List.lookup_eq_none_iff.mpr fun p hp => ?_
  have hne : name ≠ p.1 := fun heq => h (List.mem_map.mpr ⟨p, hp, heq.symm⟩)
  exact bne_iff_ne.mpr hne

theorem lookup_of_mem (hnodup : (ps.map Prod.fst).Nodup) (h : (name, v) ∈ ps) :
    ps.lookup name = some v := by
  obtain ⟨front, rest, rfl⟩ := List.append_of_mem h
  rw [List.map_append, List.map_cons, List.nodup_middle, List.nodup_cons, List.mem_append,
    not_or] at hnodup
  have hfront : front.lookup name = none := lookup_of_not_mem hnodup.1.1
  rw [List.lookup_append, hfront, Option.none_or, List.lookup_cons_self]

theorem lookup_foldl_insert (h : (ps.map Prod.fst).Nodup) :
    (ps.foldl (fun bs p => insert p.1 p.2 bs) bs).lookup name =
      (ps.lookup name).or (bs.lookup name) := by
  induction ps generalizing bs with
  | nil => rfl
  | cons p ps ih =>
    rw [List.map_cons, List.nodup_cons] at h
    rw [List.foldl_cons, ih h.2, lookup_insert, List.lookup_cons]
    by_cases hname : name = p.1
    · -- what comes later binds other names
      have hlater : ps.lookup name = none := lookup_of_not_mem (hname ▸ h.1)
      rw [hlater, if_pos hname, beq_iff_eq.mpr hname]
      rfl
    · rw [if_neg hname, beq_false_of_ne hname]

theorem get?_ofArguments {params : List String} {args : List Value} (hnodup : params.Nodup)
    (hcount : args.length = params.length) (a : Address) (name : String) :
    (ofArguments params args a).get? name = (params.zip args).lookup name := by
  have hnames : (params.zip args).map Prod.fst = params := List.map_fst_zip hcount.ge
  rw [get?, ofArguments, lookup_foldl_insert (hnames.symm ▸ hnodup), List.lookup_nil,
    Option.or_none]

end Frame

namespace Store

/-- From `s` to `t` only the frame at `frame` is made. It binds the parameters of `c` to `args`, and
all other names are seen from it as they are from the frame of `c`. -/
structure Opens (s : Store) (c : Closure) (args : List Value) (frame : Address) (t : Store) :
    Prop where
  isNew : s.frames[frame]? = none
  isMade : frame < t.fresh
  others : ∀ a ≠ frame, t.frames[a]? = s.frames[a]?
  params : List.Forall₂ (fun name v => t.lookup? frame name = some v) c.params args
  rest : ∀ name ∉ c.params, t.lookup? frame name = s.lookup? c.env name

variable {s t u : Store} {a b frame frame' : Address} {c c' : Closure} {args args' : List Value}
  {f : Frame}

theorem Framed.chainUpTo_alloc (ha : s.Framed a) (f : Frame) (n : Nat) :
    (s.alloc f).chainUpTo n a = s.chainUpTo n a := by
  induction n generalizing a with
  | zero => rfl
  | succ n ih =>
    have hlt : a < s.fresh := ha a .refl
    have hframe : s.frames[a]? = some s.frames[a] := Array.getElem?_eq_getElem hlt
    rw [chainUpTo, chainUpTo, frames_alloc_of_ne (Nat.ne_of_lt hlt), hframe]
    dsimp only
    cases hlink : s.frames[a].enclosing with
    | none => rfl
    | some b =>
      have hb : s.Framed b := fun d hd =>
        ha d (.head ((enclosing?_eq hframe).trans hlink) hd)
      dsimp only
      rw [ih hb]

theorem Framed.lookup?_alloc (hb : s.Framed b) (hf : f.enclosing = some b) (name : String) :
    (s.alloc f).lookup? s.fresh name = (f.get? name).or (s.lookup? b name) := by
  have hchain : (s.alloc f).chain s.fresh = s.fresh :: s.chain b := by
    change (s.alloc f).chainUpTo (s.alloc f).fresh s.fresh = s.fresh :: s.chain b
    rw [fresh_alloc, chainUpTo, frames_alloc_fresh]
    dsimp only
    rw [hf]
    exact congrArg _ (hb.chainUpTo_alloc f s.fresh)
  have houter : (s.chain b).findSome? ((s.alloc f).local? · name) =
      (s.chain b).findSome? (s.local? · name) := by
    refine findSome?_congr fun d hd => ?_
    rw [local?_alloc, if_neg (Nat.ne_of_lt (mem_chain_iff.mp hd).2)]
  rw [lookup?_eq_findSome?, lookup?_eq_findSome?, hchain, List.findSome?_cons, houter, local?_alloc,
    if_pos rfl]
  cases f.get? name <;> rfl

theorem Framed.opens (hc : s.Framed c.env) (hnodup : c.params.Nodup)
    (hcount : args.length = c.params.length) :
    s.Opens c args s.fresh (s.alloc (Frame.ofArguments c.params args c.env)) where
  isNew := s.frames_fresh_add 0
  isMade := s.fresh_lt_alloc _
  others a ha := frames_alloc_of_ne ha _
  params := by
    have hnames : (c.params.zip args).map Prod.fst = c.params := List.map_fst_zip hcount.ge
    refine List.forall₂_iff_zip.mpr ⟨hcount.symm, fun {name v} h => ?_⟩
    rw [hc.lookup?_alloc rfl, Frame.get?_ofArguments hnodup hcount,
      Frame.lookup_of_mem (hnames.symm ▸ hnodup) h, Option.some_or]
  rest name hname := by
    have hnames : (c.params.zip args).map Prod.fst = c.params := List.map_fst_zip hcount.ge
    rw [hc.lookup?_alloc rfl, Frame.get?_ofArguments hnodup hcount,
      Frame.lookup_of_not_mem (hnames.symm ▸ hname), Option.none_or]

theorem Opens.ne (h : s.Opens c args frame t) (hle : t.fresh ≤ u.fresh) {v : Store}
    (h' : u.Opens c' args' frame' v) : frame' ≠ frame := by
  rintro rfl
  have hlt : frame' < u.fresh := Nat.lt_of_lt_of_le h.isMade hle
  have hnew := h'.isNew
  rw [Array.getElem?_eq_getElem hlt] at hnew
  cases hnew

end Store
end MiniScheme
