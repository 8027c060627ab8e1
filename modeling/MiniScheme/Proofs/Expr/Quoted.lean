import MiniScheme.Proofs.Eval.Raises
import MiniScheme.Proofs.Value.Equal

/-! Expressions as data. Quoting looks at the nodes in preorder and refuses the first that is no
data; what it gives prints as the expression does, but for the quotes around strings, and two of
these values are equal if the expressions are the same data. -/

namespace MiniScheme

theorem mapM_eq_error_iff {α β ε : Type} {f : α → Except ε β} {l : List α} {e₀ : ε}
    (hf : ∀ a ∈ l, ∀ e, f a = .error e → e = e₀) {e : ε} :
    l.mapM f = .error e ↔ e = e₀ ∧ ∃ a ∈ l, f a = .error e₀ := by
  have herror : ∀ e, l.mapM f = .error e → e = e₀ := by
    intro e h
    obtain ⟨a, ha, h⟩ := mapM_eq_error h
    exact hf a ha e h
  constructor
  · intro h
    obtain rfl := herror e h
    exact ⟨rfl, mapM_eq_error h⟩
  · rintro ⟨rfl, a, ha, hfa⟩
    cases h : l.mapM f with
    | ok bs =>
      obtain ⟨b, _, hb⟩ := exists_mem_of_forall₂ (mapM_eq_ok h) ha
      cases hb.symm.trans hfa
    | error e' => rw [herror e' h]

theorem forall₂_transfer {α β γ δ : Type} {R : α → β → Prop} {S : γ → δ → Prop} {P : β → δ → Prop}
    {Q : α → γ → Prop} {as : List α} {bs : List β} {cs : List γ} {ds : List δ}
    (h : List.Forall₂ R as bs) (h' : List.Forall₂ S cs ds)
    (hPQ : ∀ a b c d, R a b → S c d → (P b d ↔ Q a c)) :
    List.Forall₂ P bs ds ↔ List.Forall₂ Q as cs := by
  induction h generalizing cs ds with
  | nil => cases h' <;> simp
  | cons hab _ ih =>
    cases h' with
    | nil => simp
    | cons hcd h' => rw [List.forall₂_cons, List.forall₂_cons, hPQ _ _ _ _ hab hcd, ih h']

theorem Number.text_int_eq_error {n : Int} :
    (Number.int n).text = .error .intTooLarge ↔ (Double.ofInt n).isFinite = false := by
  rw [text, bind_eq_error, toDouble]
  split <;> simp_all [pure, Except.pure]

namespace Atom

def datum : Atom → Value
  | .symbol name => .symbol name
  | .string value _ => .string value
  | .number _ n => .number n
  | .boolean b => .boolean b

inductive Same : Atom → Atom → Prop
  | symbol (name : String) : Same (.symbol name) (.symbol name)
  | string (value : String) (closed closed' : Bool) :
      Same (.string value closed) (.string value closed')
  | number (written written' : String) {m n : Number} {q : WithBot (WithTop ℚ)}
      (hm : m.value? = some q) (hn : n.value? = some q) :
      Same (.number written m) (.number written' n)
  | boolean (b : Bool) : Same (.boolean b) (.boolean b)

theorem datum_equal_iff (a b : Atom) : a.datum.Equal b.datum ↔ a.Same b := by
  constructor
  · intro h
    cases a <;> cases b <;> cases h
    · exact .symbol _
    · exact .string _ _ _
    · rename_i h
      obtain ⟨q, hm, hn⟩ := Number.eqv_iff.mp h
      exact .number _ _ hm hn
    · exact .boolean _
  · intro h
    cases h with
    | symbol name => exact .symbol name
    | string value => exact .string value
    | number _ _ hm hn => exact .number (Number.eqv_iff.mpr ⟨_, hm, hn⟩)
    | boolean b => exact .boolean b

end Atom

namespace Expr

variable {e f : Expr} {es fs : List Expr} {v w : Value} {vs ws : List Value} {err : EvalError}
  {limit : Nat}

mutual

def nodes : Expr → List Expr
  | .list line items => .list line items :: nodesEach items
  | e => [e]

def nodesEach : List Expr → List Expr
  | [] => []
  | e :: es => e.nodes ++ nodesEach es

end

theorem mem_nodesEach {d : Expr} : d ∈ nodesEach es ↔ ∃ e ∈ es, d ∈ e.nodes := by
  induction es with
  | nil => simp [nodesEach]
  | cons e es ih => simp [nodesEach, ih]

theorem mem_nodes_list {d : Expr} {line : Nat} (he : e ∈ es) (hd : d ∈ e.nodes) :
    d ∈ (list line es).nodes :=
  List.mem_cons_of_mem _ (mem_nodesEach.mpr ⟨e, he, hd⟩)

def refusal? : Expr → Option EvalError
  | .stray line message => some ⟨some ⟨line, .rightParen⟩, .stray message⟩
  | .unknown => some ⟨none, .unknownExpression (kind .unknown)⟩
  | _ => none

theorem quoted_atom (line : Nat) (a : Atom) : (atom line a).quoted = .ok a.datum := by
  cases a <;> rfl

mutual

theorem quoted_eq_error_iff : (e : Expr) → (err : EvalError) →
    (e.quoted = .error err ↔ e.nodes.findSome? refusal? = some err)
  | .atom line a, err => by
    rw [quoted_atom]
    simp [nodes, refusal?]
  | .stray line message, err => by simp [quoted, nodes, refusal?]
  | .list line items, err => by
    rw [quoted, bind_eq_error, quotedEach_eq_error_iff items, nodes, List.findSome?_cons]
    simp [refusal?, pure, Except.pure]
  | .unknown, err => by simp [quoted, nodes, refusal?]

theorem quotedEach_eq_error_iff : (es : List Expr) → (err : EvalError) →
    (quotedEach es = .error err ↔ (nodesEach es).findSome? refusal? = some err)
  | [], err => by simp [quotedEach, nodesEach]
  | e :: es, err => by
    have he := quoted_eq_error_iff e
    have hes := quotedEach_eq_error_iff es err
    rw [quotedEach, nodesEach, List.findSome?_append]
    cases hquoted : e.quoted with
    | error err' =>
      rw [(he err').mp hquoted]
      simp [bind, Except.bind]
    | ok v =>
      have hnone : e.nodes.findSome? refusal? = none := by
        refine Option.eq_none_iff_forall_ne_some.mpr fun err' h => ?_
        cases hquoted.symm.trans ((he err').mpr h)
      rw [hnone, Option.none_or, ← hes, bind_eq_error]
      simp [bind_eq_error, pure, Except.pure]

end

example : (list 0 [.list 1 [.stray 2 "unexpected )"], .unknown]).nodes.findSome? refusal? =
    some ⟨some ⟨2, .rightParen⟩, .stray "unexpected )"⟩ := rfl

theorem exists_quoted_iff : (∃ v, e.quoted = .ok v) ↔ e.nodes.findSome? refusal? = none := by
  rw [Option.eq_none_iff_forall_ne_some]
  simp only [ne_eq, ← quoted_eq_error_iff]
  cases e.quoted <;> simp

mutual

theorem clean_of_quoted : (e : Expr) → {v : Value} → e.quoted = .ok v → e.Clean
  | .atom line _, _, _ => .atom line trivial
  | .stray .., _, h => nomatch h
  | .list line items, _, h => by
    obtain ⟨_, hvs, _⟩ := bind_eq_ok.mp h
    exact .list line (cleanEach_of_quoted items hvs)
  | .unknown, _, h => nomatch h

theorem cleanEach_of_quoted : (es : List Expr) → {vs : List Value} →
    quotedEach es = .ok vs → ∀ e ∈ es, e.Clean
  | [], _, _ => List.forall_mem_nil _
  | e :: es, _, h => by
    obtain ⟨_, hv, h⟩ := bind_eq_ok.mp h
    obtain ⟨_, hvs, _⟩ := bind_eq_ok.mp h
    exact List.forall_mem_cons.mpr ⟨clean_of_quoted e hv, cleanEach_of_quoted es hvs⟩

end

theorem quoted_list {line : Nat} (h : (list line es).quoted = .ok v) :
    ∃ vs, List.Forall₂ (fun e v => e.quoted = .ok v) es vs ∧ v = .list vs := by
  obtain ⟨vs, hvs, h⟩ := bind_eq_ok.mp h
  rw [quotedEach_eq_mapM] at hvs
  exact ⟨vs, mapM_eq_ok hvs, (pure_eq_ok.mp h).symm⟩

mutual

def textWith (mark : String) : Expr → Except Failure String
  | .atom _ (.string value _) => .ok (mark ++ value ++ mark)
  | .list _ items => do
    let texts ← textEachWith mark items
    return "(" ++ " ".intercalate texts ++ ")"
  | e => e.text

def textEachWith (mark : String) : List Expr → Except Failure (List String)
  | [] => .ok []
  | e :: es => do
    let t ← e.textWith mark
    let ts ← textEachWith mark es
    return t :: ts

end

theorem textEachWith_eq_mapM (mark : String) (es : List Expr) :
    textEachWith mark es = es.mapM (textWith mark) :=
  eq_mapM (g := textEachWith mark) rfl (fun _ _ => rfl) es

theorem textEach_eq_mapM (es : List Expr) : textEach es = es.mapM text :=
  eq_mapM (g := textEach) rfl (fun _ _ => rfl) es

theorem Clean.textWith_quotes (he : e.Clean) : e.textWith "\"" = e.text := by
  induction he with
  | @atom line a _ => cases a <;> rfl
  | @list line items _ ih =>
    rw [textWith, text, textEachWith_eq_mapM, textEach_eq_mapM]
    rw [mapM_eq_of_forall₂ (List.forall₂_same.mpr ih) fun _ _ h => h]

theorem Clean.textWith_eq (he : e.Clean)
    (hstring : ∀ line value closed, .atom line (.string value closed) ∉ e.nodes)
    (mark mark' : String) : e.textWith mark = e.textWith mark' := by
  induction he with
  | @atom line a _ =>
    cases a with
    | string value closed => exact absurd List.mem_cons_self (hstring line value closed)
    | _ => rfl
  | @list line items _ ih =>
    have hitems : ∀ e ∈ items, e.textWith mark = e.textWith mark' := by
      intro e he
      exact ih e he fun line' value closed h => hstring line' value closed (mem_nodes_list he h)
    rw [textWith, textWith, textEachWith_eq_mapM, textEachWith_eq_mapM]
    rw [mapM_eq_of_forall₂ (List.forall₂_same.mpr hitems) fun _ _ h => h]

theorem Clean.text_quoted (he : e.Clean) (hv : e.quoted = .ok v) (hdepth : e.depth < limit) :
    v.text limit = e.textWith "" := by
  induction limit generalizing e v with
  | zero => exact absurd hdepth (Nat.not_lt_zero _)
  | succ limit ih =>
    cases he with
    | @atom line a _ =>
      rw [quoted_atom] at hv
      obtain rfl := Except.ok.inj hv
      cases a with
      | string value closed =>
        rw [textWith, String.empty_append, String.append_empty]
        rfl
      | _ => rfl
    | @list line items hitems =>
      obtain ⟨vs, hvs, rfl⟩ := quoted_list hv
      have htexts : List.Forall₂ (fun v e => v.text limit = e.textWith "") vs items := by
        refine List.forall₂_iff_zip.mpr ⟨hvs.length_eq.symm, fun {v e} hp => ?_⟩
        have he : e ∈ items := (List.of_mem_zip hp).2
        have hquoted : e.quoted = .ok v := List.forall₂_zip hvs.flip hp
        refine ih (hitems e he) hquoted ?_
        exact (depth_le_depthEach he).trans_lt (Nat.lt_of_succ_lt_succ hdepth)
      rw [Value.text, textWith, textEachWith_eq_mapM, mapM_eq_of_forall₂ htexts fun _ _ h => h]

def TooLarge (e : Expr) : Prop :=
  ∃ (line : Nat) (written : String) (n : Int),
    .atom line (.number written (.int n)) ∈ e.nodes ∧ (Double.ofInt n).isFinite = false

theorem tooLarge_list {line : Nat} : (list line es).TooLarge ↔ ∃ e ∈ es, e.TooLarge := by
  constructor
  · rintro ⟨line', written, n, hmem, hn⟩
    rcases List.mem_cons.mp hmem with hmem | hmem
    · cases hmem
    · obtain ⟨e, he, hmem⟩ := mem_nodesEach.mp hmem
      exact ⟨e, he, line', written, n, hmem, hn⟩
  · rintro ⟨e, he, line', written, n, hmem, hn⟩
    exact ⟨line', written, n, mem_nodes_list he hmem, hn⟩

theorem tooLarge_number {line : Nat} {written : String} {n : Number} :
    (atom line (.number written n)).TooLarge ↔ n.text = .error .intTooLarge := by
  constructor
  · rintro ⟨line', written', k, hmem, hk⟩
    cases List.mem_singleton.mp hmem
    exact Number.text_int_eq_error.mpr hk
  · intro h
    cases n with
    | int k => exact ⟨line, written, k, List.mem_cons_self, Number.text_int_eq_error.mp h⟩
    | double x => cases h

theorem Clean.textWith_error_iff (he : e.Clean) (mark : String) {failure : Failure} :
    e.textWith mark = .error failure ↔ failure = .arithmetic .intTooLarge ∧ e.TooLarge := by
  induction he generalizing failure with
  | @atom line a _ =>
    cases a with
    | number written n =>
      have htext : (atom line (.number written n)).textWith mark =
        n.text.mapError .arithmetic := rfl
      rw [htext, mapError_eq_error, tooLarge_number]
      constructor
      · rintro ⟨cause, hcause, rfl⟩
        obtain rfl := Number.text_error hcause
        exact ⟨rfl, hcause⟩
      · rintro ⟨rfl, h⟩
        exact ⟨_, h, rfl⟩
    | _ =>
      refine iff_of_false nofun ?_
      rintro ⟨_, _, _, _, hmem, _⟩
      cases List.mem_singleton.mp hmem
  | @list line items _ ih =>
    have hitems : ∀ e ∈ items, ∀ cause, e.textWith mark = .error cause →
        cause = .arithmetic .intTooLarge := fun e he cause h => ((ih e he).mp h).1
    have hfails : ∀ e ∈ items,
        e.textWith mark = .error (.arithmetic .intTooLarge) ↔ e.TooLarge := by
      intro e he
      rw [ih e he, and_iff_right rfl]
    rw [textWith, textEachWith_eq_mapM, bind_eq_error, mapM_eq_error_iff hitems, tooLarge_list]
    rw [or_iff_left fun ⟨_, _, h⟩ => pure_ne_error h]
    exact and_congr_right' (exists_congr fun e => and_congr_right (hfails e))

theorem Clean.textWith_ok_iff (he : e.Clean) (mark : String) :
    (∃ t, e.textWith mark = .ok t) ↔ ¬e.TooLarge := by
  constructor
  · rintro ⟨t, ht⟩ hlarge
    cases ht.symm.trans ((he.textWith_error_iff mark).mpr ⟨rfl, hlarge⟩)
  · intro hlarge
    cases h : e.textWith mark with
    | ok t => exact ⟨t, rfl⟩
    | error failure => exact absurd ((he.textWith_error_iff mark).mp h).2 hlarge

theorem Clean.depth_quoted (he : e.Clean) (hv : e.quoted = .ok v) : v.depth ≤ e.depth + 1 := by
  induction he generalizing v with
  | @atom line a _ =>
    rw [quoted_atom] at hv
    obtain rfl := Except.ok.inj hv
    cases a <;> exact le_rfl
  | @list line items _ ih =>
    obtain ⟨vs, hvs, rfl⟩ := quoted_list hv
    refine Nat.succ_le_succ (Value.depthEach_le fun w hw => ?_)
    obtain ⟨e, he, hquoted⟩ := exists_mem_of_forall₂ hvs.flip hw
    exact (ih e he hquoted).trans (Nat.succ_le_succ (depth_le_depthEach he))

inductive SameData : Expr → Expr → Prop
  | atom (line line' : Nat) {a b : Atom} (h : a.Same b) : SameData (.atom line a) (.atom line' b)
  | list (line line' : Nat) {es fs : List Expr} (hlength : es.length = fs.length)
      (h : ∀ {e f : Expr}, (e, f) ∈ es.zip fs → SameData e f) :
      SameData (.list line es) (.list line' fs)

theorem sameData_list_iff {line line' : Nat} :
    (list line es).SameData (.list line' fs) ↔ List.Forall₂ SameData es fs := by
  constructor
  · intro h
    cases h with
    | list _ _ hlength h => exact List.forall₂_iff_zip.mpr ⟨hlength, h⟩
  · intro h
    exact .list line line' h.length_eq (List.forall₂_zip h)

theorem Clean.equal_iff_sameData (he : e.Clean) (hf : f.Clean) (hv : e.quoted = .ok v)
    (hw : f.quoted = .ok w) : v.Equal w ↔ e.SameData f := by
  induction he generalizing f v w with
  | @atom line a _ =>
    rw [quoted_atom] at hv
    obtain rfl := Except.ok.inj hv
    cases hf with
    | @atom line' b _ =>
      rw [quoted_atom] at hw
      obtain rfl := Except.ok.inj hw
      rw [Atom.datum_equal_iff]
      constructor
      · exact .atom line line'
      · rintro ⟨_, _, h⟩
        exact h
    | list line' hfs =>
      obtain ⟨ws, _, rfl⟩ := quoted_list hw
      refine iff_of_false (fun h => ?_) nofun
      cases a <;> cases h
  | @list line es _ ih =>
    obtain ⟨vs, hvs, rfl⟩ := quoted_list hv
    cases hf with
    | @atom line' b _ =>
      rw [quoted_atom] at hw
      obtain rfl := Except.ok.inj hw
      refine iff_of_false (fun h => ?_) nofun
      cases b <;> cases h
    | @list line' fs hfs =>
      obtain ⟨ws, hws, rfl⟩ := quoted_list hw
      have hleft := (List.forall₂_and_left _ _).mpr ⟨ih, hvs⟩
      have hright := (List.forall₂_and_left _ _).mpr ⟨hfs, hws⟩
      rw [Value.equal_list_iff, sameData_list_iff]
      exact forall₂_transfer hleft hright fun e v f w ⟨ih, hv⟩ ⟨hf, hw⟩ => ih hf hv hw

end Expr

/-- Quoting fails at the first node that is no data, and with its error. What it gives prints as the
expression without the quotes around strings, unless an integer is too large to print either, and
equality of two such values is that of the expressions as data. -/
theorem quoted_data (e : Expr) :
    (∀ err, e.quoted = .error err ↔ e.nodes.findSome? Expr.refusal? = some err) ∧
      ((∃ v, e.quoted = .ok v) ↔ ∀ d ∈ e.nodes, d.refusal? = none) ∧
      ∀ v limit, e.quoted = .ok v → e.depth < limit →
        (e.text = e.textWith "\"" ∧ v.text limit = e.textWith "") ∧
        ((∀ line value closed, .atom line (.string value closed) ∉ e.nodes) →
          v.text limit = e.text) ∧
        (e.TooLarge → e.text = .error (.arithmetic .intTooLarge) ∧
          v.text limit = .error (.arithmetic .intTooLarge)) ∧
        (¬e.TooLarge → ∃ t u, e.text = .ok t ∧ v.text limit = .ok u) ∧
        ∀ f w, f.quoted = .ok w →
          ∃ same, v.equal limit w = .ok same ∧ (same = true ↔ e.SameData f) := by
  refine ⟨Expr.quoted_eq_error_iff e, ?_, fun v limit hv hdepth => ?_⟩
  · rw [Expr.exists_quoted_iff, List.findSome?_eq_none_iff]
  have he : e.Clean := Expr.clean_of_quoted e hv
  have htext : e.text = e.textWith "\"" := he.textWith_quotes.symm
  have hprint : v.text limit = e.textWith "" := he.text_quoted hv hdepth
  rw [htext, hprint]
  refine ⟨⟨rfl, rfl⟩, fun hstring => he.textWith_eq hstring _ _, fun hlarge => ?_, fun hlarge => ?_,
    fun f w hw => ?_⟩
  · exact ⟨(he.textWith_error_iff _).mpr ⟨rfl, hlarge⟩, (he.textWith_error_iff _).mpr ⟨rfl, hlarge⟩⟩
  · obtain ⟨t, ht⟩ := (he.textWith_ok_iff "\"").mpr hlarge
    obtain ⟨u, hu⟩ := (he.textWith_ok_iff "").mpr hlarge
    exact ⟨t, u, ht, hu⟩
  · have hvdepth : v.depth ≤ limit := (he.depth_quoted hv).trans hdepth
    have hvknown : v.Known := Expr.quoted_every Value.IsPlain.ne_unknown e hv
    have hwknown : w.Known := Expr.quoted_every Value.IsPlain.ne_unknown f hw
    rw [← he.equal_iff_sameData (Expr.clean_of_quoted f hw) hv hw]
    exact Value.exists_equal_iff hvknown hwknown hvdepth

end MiniScheme
