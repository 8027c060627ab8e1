import Mathlib.Data.List.Zip
import MiniScheme.Proofs.Number.Exact
import MiniScheme.Proofs.Primitive.Native
import MiniScheme.Proofs.Value.Matches

/-! Equality of values as a relation, without a limit. It looks at all positions of two lists side
by side, at exact values of numbers and at identities of procedures, so it is symmetric and
transitive; what is not equal to itself is NaN and what contains it. -/

namespace MiniScheme

theorem forall₂_comp {α β γ : Type} {R : α → β → Prop} {S : β → γ → Prop} {T : α → γ → Prop}
    {as : List α} {bs : List β} {cs : List γ} (h : List.Forall₂ R as bs)
    (h' : List.Forall₂ S bs cs) (hT : ∀ a b c, R a b → S b c → T a c) :
    List.Forall₂ T as cs := by
  induction h generalizing cs with
  | nil =>
    obtain rfl := List.forall₂_nil_left_iff.mp h'
    exact .nil
  | cons hab _ ih =>
    cases h' with
    | cons hbc h' => exact .cons (hT _ _ _ hab hbc) (ih h')

theorem mapM_all_eq_true {α : Type} {f : α → Except Failure Bool} {l : List α} :
    (do let bs ← l.mapM f; return bs.all id) = (.ok true : Except Failure Bool) ↔
      ∀ a ∈ l, f a = .ok true := by
  constructor
  · intro h a ha
    obtain ⟨bs, hbs, h⟩ := bind_eq_ok.mp h
    obtain ⟨b, hb, hfa⟩ := exists_mem_of_forall₂ (mapM_eq_ok hbs) ha
    have htrue : b = true := List.all_eq_true.mp (pure_eq_ok.mp h) b hb
    rwa [htrue] at hfa
  · intro h
    induction l with
    | nil => rfl
    | cons a l ih =>
      obtain ⟨ha, hl⟩ := List.forall_mem_cons.mp h
      obtain ⟨bs, hbs, hall⟩ := bind_eq_ok.mp (ih hl)
      rw [List.mapM_cons, ha, hbs]
      exact hall

namespace Value

inductive Equal : Value → Value → Prop
  | symbol (name : String) : Equal (.symbol name) (.symbol name)
  | string (value : String) : Equal (.string value) (.string value)
  | number {m n : Number} (h : m.eqv n = true) : Equal (.number m) (.number n)
  | boolean (b : Bool) : Equal (.boolean b) (.boolean b)
  | list {xs ys : List Value} (hlength : xs.length = ys.length)
      (h : ∀ {x y : Value}, (x, y) ∈ xs.zip ys → Equal x y) : Equal (.list xs) (.list ys)
  | noValue : Equal .noValue .noValue
  | primitive (op : Primitive) (home : Address) : Equal (.primitive op home) (.primitive op home)
  | closure {c d : Closure} (h : c.id = d.id) : Equal (.closure c) (.closure d)

variable {limit : Nat} {x y z : Value} {xs ys : List Value}

theorem equal_list_iff : (Value.list xs).Equal (.list ys) ↔ List.Forall₂ Equal xs ys := by
  constructor
  · intro h
    cases h with
    | list hlength h => exact List.forall₂_iff_zip.mpr ⟨hlength, h⟩
  · intro h
    exact .list h.length_eq (List.forall₂_zip h)

theorem depthEach_le {vs : List Value} {n : Nat} (h : ∀ v ∈ vs, v.depth ≤ n) :
    depthEach vs ≤ n := by
  induction vs with
  | nil => exact Nat.zero_le n
  | cons v vs ih =>
    obtain ⟨hv, hvs⟩ := List.forall_mem_cons.mp h
    exact Nat.max_le.mpr ⟨hv, ih hvs⟩

theorem equal_list (limit : Nat) (xs ys : List Value) :
    (Value.list xs).equal (limit + 1) (.list ys) =
      if xs.length = ys.length then do
        let same ← (xs.zip ys).mapM fun p => p.1.equal limit p.2
        return same.all id
      else .ok false := by
  rw [equal]

theorem equal_list_eq_true : (Value.list xs).equal (limit + 1) (.list ys) = .ok true ↔
    List.Forall₂ (fun x y => x.equal limit y = .ok true) xs ys := by
  rw [equal_list, List.forall₂_iff_zip]
  by_cases hlength : xs.length = ys.length
  · rw [if_pos hlength, mapM_all_eq_true]
    simp only [hlength, true_and, Prod.forall]
  · rw [if_neg hlength]
    exact iff_of_false nofun fun h => hlength h.1

theorem equal_comm (limit : Nat) (x y : Value) : x.equal limit y = y.equal limit x := by
  induction limit generalizing x y with
  | zero => rfl
  | succ limit ih =>
    cases x with
    | number m => cases y <;> first | rfl | exact congrArg Except.ok (Number.eqv_comm _ _)
    | list xs =>
      cases y with
      | list ys =>
        have hpairs : List.Forall₂ (fun p q => q = p.swap) (xs.zip ys) (ys.zip xs) := by
          rw [← List.zip_swap xs ys, List.forall₂_map_right_iff]
          exact List.forall₂_same.mpr fun _ _ => rfl
        have hsame : (xs.zip ys).mapM (fun p => p.1.equal limit p.2) =
            (ys.zip xs).mapM fun p => p.1.equal limit p.2 := by
          refine mapM_eq_of_forall₂ hpairs ?_
          rintro p _ rfl
          exact ih p.1 p.2
        simp only [equal_list, hsame, eq_comm]
      | _ => rfl
    | primitive op home => cases y <;> first | rfl | simp only [equal, Bool.beq_comm]
    | _ => cases y <;> first | rfl | exact congrArg Except.ok Bool.beq_comm

theorem Equal.equal_eq (h : x.Equal y) (hdepth : x.depth ≤ limit) :
    x.equal limit y = .ok true := by
  induction limit generalizing x y with
  | zero => exact absurd x.depth_pos hdepth.not_gt
  | succ limit ih =>
    cases h with
    | list hlength h =>
      refine equal_list_eq_true.mpr (List.forall₂_iff_zip.mpr ⟨hlength, fun hp => ih (h hp) ?_⟩)
      exact (depth_le_depthEach (List.of_mem_zip hp).1).trans (Nat.le_of_succ_le_succ hdepth)
    | number h => exact congrArg Except.ok h
    | closure h => exact congrArg Except.ok (beq_iff_eq.mpr h)
    | _ => simp [equal]

theorem Equal.of_equal_eq (h : x.equal limit y = .ok true) : x.depth ≤ limit ∧ x.Equal y := by
  induction limit generalizing x y with
  | zero => cases h
  | succ limit ih =>
    have hpos : 1 ≤ limit + 1 := Nat.succ_pos limit
    unfold equal at h
    dsimp only at h
    split at h
    next a b => exact ⟨hpos, eq_of_beq (Except.ok.inj h) ▸ .symbol a⟩
    next a b => exact ⟨hpos, eq_of_beq (Except.ok.inj h) ▸ .string a⟩
    next m n => exact ⟨hpos, .number (Except.ok.inj h)⟩
    next a b => exact ⟨hpos, eq_of_beq (Except.ok.inj h) ▸ .boolean a⟩
    next xs ys =>
      have hpairs := (equal_list_eq_true.mp ((equal_list limit xs ys).trans h)).imp fun _ _ => ih
      refine ⟨Nat.succ_le_succ (depthEach_le fun v hv => ?_), equal_list_iff.mpr ?_⟩
      · obtain ⟨w, _, hdepth, _⟩ := exists_mem_of_forall₂ hpairs hv
        exact hdepth
      · exact hpairs.imp fun _ _ h => h.2
    next => exact ⟨hpos, .noValue⟩
    next op home op' home' =>
      obtain ⟨hop, hhome⟩ := Bool.and_eq_true_iff.mp (Except.ok.inj h)
      exact ⟨hpos, eq_of_beq hop ▸ eq_of_beq hhome ▸ .primitive op home⟩
    next c d => exact ⟨hpos, .closure (eq_of_beq (Except.ok.inj h))⟩
    next => cases h
    next => cases h

theorem equal_eq_true_iff : x.equal limit y = .ok true ↔ x.depth ≤ limit ∧ x.Equal y :=
  ⟨Equal.of_equal_eq, fun h => h.2.equal_eq h.1⟩

theorem exists_equal (hx : x.Known) (hy : y.Known) (hdepth : x.depth ≤ limit) :
    ∃ b, x.equal limit y = .ok b := by
  cases h : x.equal limit y with
  | ok b => exact ⟨b, rfl⟩
  | error failure =>
    obtain rfl := equal_error hx hy h
    exact absurd h (finishes_equal hdepth)

theorem exists_equal_iff (hx : x.Known) (hy : y.Known) (hdepth : x.depth ≤ limit) :
    ∃ b, x.equal limit y = .ok b ∧ (b = true ↔ x.Equal y) := by
  obtain ⟨b, hb⟩ := exists_equal hx hy hdepth
  have hiff : x.equal limit y = .ok true ↔ x.depth ≤ limit ∧ x.Equal y := equal_eq_true_iff
  rw [hb, and_iff_right hdepth] at hiff
  refine ⟨b, hb, ?_⟩
  rw [← hiff]
  exact ⟨congrArg Except.ok, Except.ok.inj⟩

theorem Equal.trans (hxy : x.Equal y) (hyz : y.Equal z) : x.Equal z := by
  induction hxy generalizing z with
  | @list xs ys hlength _ ih =>
    cases hyz with
    | @list _ zs hlength' h' =>
      have hpairs : List.Forall₂ (fun x y => ∀ {z : Value}, y.Equal z → x.Equal z) xs ys :=
        List.forall₂_iff_zip.mpr ⟨hlength, ih⟩
      have hrest : List.Forall₂ Equal ys zs := List.forall₂_iff_zip.mpr ⟨hlength', h'⟩
      exact equal_list_iff.mpr (forall₂_comp hpairs hrest fun _ _ _ h h' => h h')
  | number h =>
    cases hyz with
    | number h' => exact .number (Number.eqv_trans h h')
  | closure h =>
    cases hyz with
    | closure h' => exact .closure (h.trans h')
  | _ => exact hyz

def IsDefinite (v : Value) : Prop := v ≠ .unknown ∧ v ≠ .number (.double .nan)

theorem Equal.every_isDefinite (h : x.Equal y) : x.Every IsDefinite := by
  have hleaf : ∀ {v : Value}, v.leaves = [v] → v.IsDefinite → v.Every IsDefinite := by
    intro v hv hdefinite w hw
    rw [hv] at hw
    exact List.mem_singleton.mp hw ▸ hdefinite
  induction h with
  | @list xs ys hlength _ ih =>
    have hpairs : List.Forall₂ (fun x _ => x.Every IsDefinite) xs ys :=
      List.forall₂_iff_zip.mpr ⟨hlength, ih⟩
    refine every_list.mpr fun v hv => ?_
    obtain ⟨_, _, hv⟩ := exists_mem_of_forall₂ hpairs hv
    exact hv
  | @number m n h =>
    refine hleaf rfl ⟨Value.noConfusion, ?_⟩
    rintro ⟨⟩
    cases h
  | _ => exact hleaf rfl ⟨Value.noConfusion, Value.noConfusion⟩

theorem Every.equal_self (h : x.Every IsDefinite) : x.Equal x := by
  induction hdepth : x.depth using Nat.strongRecOn generalizing x with
  | _ depth ih =>
    subst hdepth
    cases x with
    | list vs =>
      refine equal_list_iff.mpr (List.forall₂_same.mpr fun v hv => ?_)
      exact ih v.depth (Nat.lt_succ_of_le (depth_le_depthEach hv)) (every_list.mp h v hv) rfl
    | number n =>
      have hn : ¬n.IsNaN := fun hn => (h (.number n) List.mem_cons_self).2 (congrArg number hn)
      exact .number (Number.eqv_self_iff.mpr hn)
    | unknown => exact absurd rfl (h .unknown List.mem_cons_self).1
    | symbol name => exact .symbol name
    | string value => exact .string value
    | boolean b => exact .boolean b
    | noValue => exact .noValue
    | primitive op home => exact .primitive op home
    | closure c => exact .closure rfl

theorem equal_self_iff : x.Equal x ↔ x.Every IsDefinite :=
  ⟨Equal.every_isDefinite, Every.equal_self⟩

end Value

open Value

/-- Equality of values is symmetric, transitive, and reflexive away from NaN; between values of the
known classes it has an answer under every limit that is enough for one of them. -/
theorem equal_partial_equivalence (limit : Nat) (x y z : Value) :
    (x.Known → y.Known → x.depth ≤ limit → ∃ b, x.equal limit y = .ok b) ∧
      x.equal limit y = y.equal limit x ∧
      (x.equal limit y = .ok true → y.equal limit z = .ok true → x.equal limit z = .ok true) ∧
      (x.Known → x.depth ≤ limit →
        (x.equal limit x = .ok true ↔ x.Every fun v => v ≠ .number (.double .nan))) := by
  refine ⟨exists_equal, equal_comm limit x y, fun hxy hyz => ?_, fun hknown hdepth => ?_⟩
  · obtain ⟨hdepth, hxy⟩ := equal_eq_true_iff.mp hxy
    obtain ⟨_, hyz⟩ := equal_eq_true_iff.mp hyz
    exact (hxy.trans hyz).equal_eq hdepth
  · rw [equal_eq_true_iff, equal_self_iff]
    constructor
    · exact fun h => h.2.mono fun v hv => hv.2
    · exact fun h => ⟨hdepth, fun v hv => ⟨hknown v hv, h v hv⟩⟩

end MiniScheme
