import Mathlib.Data.List.Forall2
import MiniScheme.Expr
import MiniScheme.Proofs.Number.Numeral
import MiniScheme.Proofs.Token.Spelling

/-! Atoms in print, and the lexemes that they are there. -/

namespace MiniScheme

def Atom.IsInfinite : Atom → Prop
  | .number _ (.double x) => x.IsInfinite
  | _ => False

/-- What an atom in print is read as. A number becomes the value that its text is scanned as, which
is the same for a whole number; every string is closed. -/
inductive Atom.Reprints : Atom → Atom → Prop
  | symbol (name : String) : Reprints (.symbol name) (.symbol name)
  | string (value : String) (closed : Bool) :
      Reprints (.string value closed) (.string value true)
  | number (written : String) {x y : Double}
      (hscan : scan x.text = [⟨0, .atom (.number x.text (.double y))⟩, ⟨0, .endOfInput⟩])
      (hwhole : x.IsInteger → y = x) :
      Reprints (.number written (.double x)) (.number x.text (.double y))
  | boolean (b : Bool) : Reprints (.boolean b) (.boolean b)

inductive Expr.Reprints : Expr → Expr → Prop
  | atom (line line' : Nat) {a b : Atom} (h : a.Reprints b) :
      Reprints (.atom line a) (.atom line' b)
  | list (line line' : Nat) {es fs : List Expr} (h : List.Forall₂ Reprints es fs) :
      Reprints (.list line es) (.list line' fs)

namespace Lexical

def Scanned (a : Atom) : Prop := ∃ text rest, Lexeme text (.atom a) rest

theorem not_isNumeric_of_delimited {rest : List Char} (h : Delimited rest) :
    ¬BeginsIn IsNumeric rest := by
  rintro ⟨c, hc, hnum⟩
  rcases h with rfl | ⟨d, hd, hdelim⟩
  · cases hc
  · obtain rfl : c = d := Option.mem_unique hc hd
    rcases hnum with hdigit | rfl
    · simp only [IsDelimiter, List.mem_cons, List.not_mem_nil, or_false] at hdelim
      rcases hdelim with rfl | rfl | rfl | rfl | rfl | rfl <;> revert hdigit <;> decide
    · revert hdelim
      decide

theorem tokens_single {text : List Char} {shape : Shape} (h : Lexeme text shape []) (line : Nat) :
    Scan.tokens line text =
      [⟨line + shape.newlines, shape⟩, ⟨line + shape.newlines, .endOfInput⟩] := by
  obtain ⟨c, cs, heq, hc, hscan⟩ := h.scanned
  rw [List.append_nil] at heq
  rw [heq, tokens_lexeme hc, hscan, Scan.tokens]

theorem text_string (line : Nat) (value : List Char) (closed : Bool) :
    (Expr.atom line (.string (.ofList value) closed)).text =
      .ok (.ofList ('"' :: value ++ ['"'])) :=
  congrArg Except.ok (String.toList_inj.mp (by simp))

theorem Scanned.reprints {a : Atom} (h : Scanned a) (hfinite : ¬a.IsInfinite) (line : Nat) :
    ∃ text b, (Expr.atom line a).text = .ok (.ofList text) ∧ a.Reprints b ∧
      ∀ rest, Delimited rest → Lexeme text (.atom b) rest := by
  obtain ⟨text, rest₀, h⟩ := h
  cases h with
  | yes => exact ⟨['#', 't'], _, rfl, .boolean true, fun _ _ => .yes⟩
  | no => exact ⟨['#', 'f'], _, rfl, .boolean false, fun _ _ => .no⟩
  | @closed value _ h =>
    exact ⟨_, _, text_string line value true, .string _ true, fun _ _ => .closed h⟩
  | @unclosed value h =>
    exact ⟨_, _, text_string line value false, .string _ false, fun _ _ => .closed h⟩
  | @number text _ x hfirst hchars hrest hvalue =>
    rcases hvalue.finite_or_infinite with ⟨u, hu, rfl⟩ | rfl
    · obtain ⟨y, hy, hwhole⟩ := isNumeral_text u hu
      have hlexeme : ∀ rest, Delimited rest → Lexeme (Double.finite false u hu).text.toList
          (.atom (.number (Double.finite false u hu).text (.double y))) rest := by
        intro rest hrest
        have h := Lexeme.number hy.first hy.chars (not_isNumeric_of_delimited hrest) hy.value
        rwa [String.ofList_toList] at h
      refine ⟨(Double.finite false u hu).text.toList, _, ?_, .number _ ?_ hwhole, hlexeme⟩
      · rw [String.ofList_toList]
        rfl
      · exact tokens_single (hlexeme [] delimited_nil) 0
    · exact absurd trivial hfinite
  | symbol hne hchars hdigit hquote hyes hno hrest =>
    exact ⟨text, _, rfl, .symbol _, fun _ => .symbol hne hchars hdigit hquote hyes hno⟩

end Lexical

end MiniScheme
