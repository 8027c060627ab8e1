import Mathlib.Data.List.Induction
import Mathlib.Data.List.Nodup
import MiniScheme.Form
import MiniScheme.Proofs.Run.Except

/-! How lists are written that are special forms, how those of a wrong shape are refused, and that
each list is one of these or a call. -/

namespace MiniScheme

theorem Keyword.ofName?_eq_some {name : String} {k : Keyword} :
    ofName? name = some k ↔ name = k.name := by
  constructor
  · intro h
    unfold ofName? at h
    have hfound := List.find?_some h
    exact (beq_iff_eq.mp hfound).symm
  · rintro rfl
    cases k <;> decide

def Expr.IsSymbol (e : Expr) (name : String) : Prop := ∃ line, e = .atom line (.symbol name)

namespace Form

inductive Parameters (anchor : Token) : List Expr → Except EvalError (List String) → Prop
  | names {items : List Expr} {names : List String}
      (hitems : List.Forall₂ Expr.IsSymbol items names) (hnodup : names.Nodup) :
      Parameters anchor items (.ok names)
  | notSymbol {front rest : List Expr} {names : List String} {e : Expr}
      (hfront : List.Forall₂ Expr.IsSymbol front names) (hnodup : names.Nodup)
      (he : ∀ name, ¬e.IsSymbol name) :
      Parameters anchor (front ++ e :: rest)
        (.error ⟨some anchor, .notSymbol "parameter" e.kind⟩)
  | repeated {front rest : List Expr} {names : List String} {line : Nat} {name : String}
      (hfront : List.Forall₂ Expr.IsSymbol front names) (hnodup : names.Nodup)
      (hname : name ∈ names) :
      Parameters anchor (front ++ .atom line (.symbol name) :: rest)
        (.error ⟨some ⟨line, .atom (.symbol name)⟩, .repeatedParameter⟩)

/-- What a list on line `line` says: its form, or the error of its wrong shape. -/
inductive Reads (line : Nat) : List Expr → Except EvalError Form → Prop
  | empty : Reads line [] (.ok .empty)
  | define {l l' : Nat} {name : String} {value : Expr} :
      Reads line [.atom l (.symbol "define"), .atom l' (.symbol name), value]
        (.ok (.define name value))
  | defineName {l : Nat} {e value : Expr} (he : ∀ name, ¬e.IsSymbol name) :
      Reads line [.atom l (.symbol "define"), e, value]
        (.error ⟨some ⟨line, .leftParen⟩, .notSymbol "define name" e.kind⟩)
  | cond {l : Nat} {test yes : Expr} :
      Reads line [.atom l (.symbol "if"), test, yes] (.ok (.cond test yes none))
  | condElse {l : Nat} {test yes no : Expr} :
      Reads line [.atom l (.symbol "if"), test, yes, no] (.ok (.cond test yes (some no)))
  | quote {l : Nat} {e : Expr} : Reads line [.atom l (.symbol "quote"), e] (.ok (.quote e))
  | assign {l nameLine : Nat} {name : String} {value : Expr} :
      Reads line [.atom l (.symbol "set!"), .atom nameLine (.symbol name), value]
        (.ok (.assign name nameLine value))
  | assignName {l : Nat} {e value : Expr} (he : ∀ name, ¬e.IsSymbol name) :
      Reads line [.atom l (.symbol "set!"), e, value]
        (.error ⟨some ⟨line, .leftParen⟩, .notSymbol "set! name" e.kind⟩)
  | lambda {l l' : Nat} {items : List Expr} {names : List String} {body : Expr}
      (h : Parameters ⟨line, .leftParen⟩ items (.ok names)) :
      Reads line [.atom l (.symbol "lambda"), .list l' items, body] (.ok (.lambda names body))
  | lambdaNames {l l' : Nat} {items : List Expr} {body : Expr} {err : EvalError}
      (h : Parameters ⟨line, .leftParen⟩ items (.error err)) :
      Reads line [.atom l (.symbol "lambda"), .list l' items, body] (.error err)
  | lambdaList {l : Nat} {e body : Expr} (he : ∀ l' items, e ≠ .list l' items) :
      Reads line [.atom l (.symbol "lambda"), e, body]
        (.error ⟨some ⟨line, .leftParen⟩, .parametersNotList⟩)
  | length {l : Nat} (k : Keyword) {rest : List Expr} (h : rest.length + 1 ∉ k.lengths) :
      Reads line (.atom l (.symbol k.name) :: rest)
        (.error ⟨some ⟨line, .leftParen⟩, .formLength k.name k.lengths (rest.length + 1)⟩)
  | call {operator : Expr} {operands : List Expr} (h : ∀ k : Keyword, ¬operator.IsSymbol k.name) :
      Reads line (operator :: operands) (.ok (.call operator operands))

variable {anchor : Token} {line : Nat} {items : List Expr}

theorem target_eq_error {role : String} {e : Expr} (he : ∀ name, ¬e.IsSymbol name) :
    target anchor role e = .error ⟨some anchor, .notSymbol role e.kind⟩ := by
  unfold target
  split
  · exact absurd ⟨_, rfl⟩ (he _)
  · rfl

theorem distinctNames_append {front rest : List Expr} {names seen : List String}
    (hfront : List.Forall₂ Expr.IsSymbol front names) (hnodup : names.Nodup)
    (hseen : ∀ name ∈ names, name ∉ seen) :
    distinctNames anchor seen (front ++ rest) =
      (distinctNames anchor (names.reverse ++ seen) rest).map (names ++ ·) := by
  induction hfront generalizing seen with
  | nil =>
    simp only [List.nil_append, List.reverse_nil]
    cases distinctNames anchor seen rest <;> rfl
  | @cons e name front names he hfront ih =>
    obtain ⟨line, rfl⟩ := he
    obtain ⟨hname, hnodup⟩ := List.nodup_cons.mp hnodup
    obtain ⟨hnew, hseen⟩ := List.forall_mem_cons.mp hseen
    have hseen : ∀ n ∈ names, n ∉ name :: seen := by
      intro n hn hmem
      rcases List.mem_cons.mp hmem with rfl | hmem
      · exact hname hn
      · exact hseen n hn hmem
    rw [List.cons_append, distinctNames, List.reverse_cons, List.append_assoc]
    simp only [target, bind, Except.bind, if_neg hnew, ih hnodup hseen, List.singleton_append]
    cases distinctNames anchor (names.reverse ++ name :: seen) rest <;> rfl

theorem Parameters.distinctNames_eq {r : Except EvalError (List String)}
    (h : Parameters anchor items r) : distinctNames anchor [] items = r := by
  have hseen : ∀ names : List String, ∀ name ∈ names, name ∉ ([] : List String) :=
    fun _ _ _ => List.not_mem_nil
  cases h with
  | @names _ names hitems hnodup =>
    have happend := @distinctNames_append anchor items [] names [] hitems hnodup (hseen names)
    rw [List.append_nil] at happend
    simpa [distinctNames, Except.map] using happend
  | notSymbol hfront hnodup he =>
    rw [distinctNames_append hfront hnodup (hseen _), distinctNames, target_eq_error he]
    rfl
  | @repeated front rest names line name hfront hnodup hname =>
    have hmem : name ∈ names.reverse ++ [] := by simp [hname]
    rw [distinctNames_append hfront hnodup (hseen _), distinctNames]
    simp only [target, bind, Except.bind, if_pos hmem]
    rfl

theorem exists_parameters (anchor : Token) (items : List Expr) :
    ∃ r, Parameters anchor items r := by
  -- from the back, since an error is that of the first item that is not in order
  induction items using List.reverseRecOn with
  | nil => exact ⟨_, .names .nil List.nodup_nil⟩
  | append_singleton items e ih =>
    obtain ⟨r, hr⟩ := ih
    cases hr with
    | @names _ names hitems hnodup =>
      by_cases he : ∃ name, e.IsSymbol name
      · obtain ⟨name, l, rfl⟩ := he
        by_cases hname : name ∈ names
        · exact ⟨_, .repeated hitems hnodup hname⟩
        · refine ⟨_, .names (List.rel_append hitems (.cons ⟨l, rfl⟩ .nil)) ?_⟩
          exact List.nodup_append.mpr ⟨hnodup, List.nodup_singleton name, by grind⟩
      · exact ⟨_, .notSymbol hitems hnodup (not_exists.mp he)⟩
    | notSymbol hfront hnodup he =>
      rw [List.append_assoc]
      exact ⟨_, .notSymbol hfront hnodup he⟩
    | repeated hfront hnodup hname =>
      rw [List.append_assoc]
      exact ⟨_, .repeated hfront hnodup hname⟩

theorem distinctNames_eq_iff {r : Except EvalError (List String)} :
    distinctNames anchor [] items = r ↔ Parameters anchor items r := by
  refine ⟨fun h => ?_, fun h => h.distinctNames_eq⟩
  obtain ⟨r', hr⟩ := exists_parameters anchor items
  exact h ▸ hr.distinctNames_eq ▸ hr

theorem keyword?_eq_some {e : Expr} {k : Keyword} : keyword? e = some k ↔ e.IsSymbol k.name := by
  unfold keyword?
  split
  · rw [Keyword.ofName?_eq_some]
    constructor
    · rintro rfl
      exact ⟨_, rfl⟩
    · rintro ⟨l, h⟩
      cases h
      rfl
  · rename_i hne
    exact ⟨nofun, fun ⟨l, h⟩ => absurd h (hne l k.name)⟩

theorem ofItems_keyword (line l : Nat) (k : Keyword) (rest : List Expr) :
    ofItems line (.atom l (.symbol k.name) :: rest) =
      ofKeyword ⟨line, .leftParen⟩ k (.atom l (.symbol k.name) :: rest) := by
  rw [ofItems, keyword?_eq_some.mpr ⟨l, rfl⟩]

theorem ofKeyword_eq_error {k : Keyword} (h : items.length ∉ k.lengths) :
    ofKeyword anchor k items = .error ⟨some anchor, .formLength k.name k.lengths items.length⟩ := by
  unfold ofKeyword
  split
  case h_7 => rfl
  all_goals simp [Keyword.lengths] at h

theorem Reads.ofItems_eq {r : Except EvalError Form} (h : Reads line items r) :
    ofItems line items = r := by
  cases h with
  | empty => rfl
  | define => exact ofItems_keyword line _ .define _
  | defineName he =>
    refine (ofItems_keyword line _ .define _).trans ?_
    rw [ofKeyword, target_eq_error he]
    rfl
  | cond => exact ofItems_keyword line _ .cond _
  | condElse => exact ofItems_keyword line _ .cond _
  | quote => exact ofItems_keyword line _ .quote _
  | assign => exact ofItems_keyword line _ .assign _
  | assignName he =>
    refine (ofItems_keyword line _ .assign _).trans ?_
    rw [ofKeyword, target_eq_error he]
    rfl
  | lambda h | lambdaNames h =>
    refine (ofItems_keyword line _ .lambda _).trans ?_
    rw [ofKeyword, parameters, h.distinctNames_eq]
    rfl
  | lambdaList he =>
    refine (ofItems_keyword line _ .lambda _).trans ?_
    rw [ofKeyword, parameters]
    · rfl
    · exact he
  | length k h => rw [ofItems_keyword, ofKeyword_eq_error h, List.length_cons]
  | @call operator operands h =>
    rw [ofItems]
    cases hkeyword : keyword? operator with
    | none => rfl
    | some k => exact absurd (keyword?_eq_some.mp hkeyword) (h k)

theorem exists_reads_of_symbol (line l : Nat) (k : Keyword) {rest : List Expr}
    (h : rest.length + 1 ∈ k.lengths) :
    ∃ r, Reads line (.atom l (.symbol k.name) :: rest) r := by
  have htwo (hlength : rest.length = 2) : ∃ x y, rest = [x, y] := List.length_eq_two.mp hlength
  cases k with
  | define =>
    obtain ⟨e, value, rfl⟩ := htwo (by simpa [Keyword.lengths] using h)
    by_cases he : ∃ name, e.IsSymbol name
    · obtain ⟨name, l', rfl⟩ := he
      exact ⟨_, .define⟩
    · exact ⟨_, .defineName (not_exists.mp he)⟩
  | cond =>
    have h : rest.length = 2 ∨ rest.length = 3 := by simpa [Keyword.lengths] using h
    rcases h with h | h
    · obtain ⟨test, yes, rfl⟩ := htwo h
      exact ⟨_, .cond⟩
    · obtain ⟨test, yes, no, rfl⟩ := List.length_eq_three.mp h
      exact ⟨_, .condElse⟩
  | quote =>
    obtain ⟨e, rfl⟩ := List.length_eq_one_iff.mp (by simpa [Keyword.lengths] using h)
    exact ⟨_, .quote⟩
  | assign =>
    obtain ⟨e, value, rfl⟩ := htwo (by simpa [Keyword.lengths] using h)
    by_cases he : ∃ name, e.IsSymbol name
    · obtain ⟨name, l', rfl⟩ := he
      exact ⟨_, .assign⟩
    · exact ⟨_, .assignName (not_exists.mp he)⟩
  | lambda =>
    obtain ⟨e, body, rfl⟩ := htwo (by simpa [Keyword.lengths] using h)
    by_cases he : ∃ l' items, e = .list l' items
    · obtain ⟨l', items, rfl⟩ := he
      obtain ⟨names | err, hr⟩ := exists_parameters ⟨line, .leftParen⟩ items
      · exact ⟨_, .lambdaNames hr⟩
      · exact ⟨_, .lambda hr⟩
    · exact ⟨_, .lambdaList fun l' items heq => he ⟨l', items, heq⟩⟩

theorem exists_reads (line : Nat) (items : List Expr) : ∃ r, Reads line items r := by
  cases items with
  | nil => exact ⟨_, .empty⟩
  | cons head rest =>
    by_cases hhead : ∃ k : Keyword, head.IsSymbol k.name
    · obtain ⟨k, l, rfl⟩ := hhead
      by_cases hlength : rest.length + 1 ∈ k.lengths
      · exact exists_reads_of_symbol line l k hlength
      · exact ⟨_, .length k hlength⟩
    · exact ⟨_, .call (not_exists.mp hhead)⟩

theorem ofItems_eq_iff {r : Except EvalError Form} :
    ofItems line items = r ↔ Reads line items r := by
  refine ⟨fun h => ?_, fun h => h.ofItems_eq⟩
  obtain ⟨r', hr⟩ := exists_reads line items
  exact h ▸ hr.ofItems_eq ▸ hr

end Form
end MiniScheme
