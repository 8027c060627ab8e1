import Mathlib.Data.List.TakeWhile
import Mathlib.Tactic.Tauto
import MiniScheme.Proofs.Number.Closest
import MiniScheme.Token.Scan

/-! The lexical grammar of a source. The rule of a lexeme speaks of its own characters and of what
stands right behind it. -/

namespace MiniScheme
namespace Lexical

def IsBlank (c : Char) : Prop := c ∈ [' ', '\t', '\r', '\n']

def IsDelimiter (c : Char) : Prop := c ∈ ['(', ')', ' ', '\r', '\n', '\t']

def IsDigit (c : Char) : Prop := '0' ≤ c ∧ c ≤ '9'

def IsNumeric (c : Char) : Prop := IsDigit c ∨ c = '.'

instance : DecidablePred IsBlank :=
  fun c => inferInstanceAs (Decidable (c ∈ [' ', '\t', '\r', '\n']))

instance : DecidablePred IsDelimiter :=
  fun c => inferInstanceAs (Decidable (c ∈ ['(', ')', ' ', '\r', '\n', '\t']))

instance : DecidablePred IsDigit := fun c => inferInstanceAs (Decidable ('0' ≤ c ∧ c ≤ '9'))

def BeginsIn (p : Char → Prop) (cs : List Char) : Prop := ∃ c ∈ cs.head?, p c

def Delimited (rest : List Char) : Prop := rest = [] ∨ BeginsIn IsDelimiter rest

/-- What a numeral stands for: the double nearest to the rational in its digits, unless there are
two points or more. -/
inductive Denotes (cs : List Char) : Option Double → Prop
  | nearest {q : ℚ} {x : Double} (hpoints : cs.count '.' < 2)
      (hvalue : Numeral.unsigned? cs = some q) (hnearest : x.IsNearest q) : Denotes cs (some x)
  | malformed (hpoints : 2 ≤ cs.count '.') : Denotes cs none

inductive Lexeme : List Char → Shape → List Char → Prop
  | leftParen {rest : List Char} : Lexeme ['('] .leftParen rest
  | rightParen {rest : List Char} : Lexeme [')'] .rightParen rest
  | yes {rest : List Char} : Lexeme ['#', 't'] (.atom (.boolean true)) rest
  | no {rest : List Char} : Lexeme ['#', 'f'] (.atom (.boolean false)) rest
  | closed {value rest : List Char} (h : '"' ∉ value) :
      Lexeme ('"' :: value ++ ['"']) (.atom (.string (.ofList value) true)) rest
  | unclosed {value : List Char} (h : '"' ∉ value) :
      Lexeme ('"' :: value) (.atom (.string (.ofList value) false)) []
  | number {text rest : List Char} {x : Double} (hfirst : BeginsIn IsDigit text)
      (hchars : ∀ c ∈ text, IsNumeric c) (hrest : ¬BeginsIn IsNumeric rest)
      (hvalue : Denotes text (some x)) :
      Lexeme text (.atom (.number (.ofList text) (.double x))) rest
  | badNumber {text rest : List Char} (hfirst : BeginsIn IsDigit text)
      (hchars : ∀ c ∈ text, IsNumeric c) (hrest : ¬BeginsIn IsNumeric rest)
      (hvalue : Denotes text none) : Lexeme text (.badNumber (.ofList text)) rest
  | symbol {text rest : List Char} (hne : text ≠ []) (hchars : ∀ c ∈ text, ¬IsDelimiter c)
      (hdigit : ¬BeginsIn IsDigit text) (hquote : ¬BeginsIn (· = '"') text)
      (hyes : ¬['#', 't'] <+: text) (hno : ¬['#', 'f'] <+: text)
      (hrest : Delimited rest) : Lexeme text (.atom (.symbol (.ofList text))) rest

/-- A source is lexemes with blanks before, between and behind them; its pieces are the lexemes
with their shapes, and the end of the input last. -/
inductive Spells : List Char → List (List Char × Shape) → Prop
  | done {blanks : List Char} (h : ∀ c ∈ blanks, IsBlank c) : Spells blanks [([], .endOfInput)]
  | next {blanks text rest : List Char} {shape : Shape} {pieces : List (List Char × Shape)}
      (hblanks : ∀ c ∈ blanks, IsBlank c) (hlexeme : Lexeme text shape rest)
      (hrest : Spells rest pieces) : Spells (blanks ++ (text ++ rest)) ((text, shape) :: pieces)

/-! Classes of characters. -/

theorem isBlank_iff (c : Char) : Scan.isBlank c ↔ IsBlank c := by
  simp [Scan.isBlank, IsBlank, or_assoc]

theorem endsSymbol_iff (c : Char) : Scan.endsSymbol c ↔ IsDelimiter c := by
  simp only [Scan.endsSymbol, Scan.isBlank, IsDelimiter, Bool.or_eq_true, beq_iff_eq,
    List.mem_cons, List.not_mem_nil, or_false]
  tauto

theorem isDigit_iff (c : Char) : c.isDigit ↔ IsDigit c := by
  simp [Char.isDigit, IsDigit, Char.le_def]

theorem isChar_iff (c : Char) : Numeral.isChar c ↔ IsNumeric c := by
  simp [Numeral.isChar, IsNumeric, isDigit_iff]

theorem isDelimiter_of_isBlank {c : Char} (h : IsBlank c) : IsDelimiter c := by
  simp only [IsBlank, IsDelimiter, List.mem_cons, List.not_mem_nil, or_false] at h ⊢
  tauto

@[simp] theorem beginsIn_nil (p : Char → Prop) : ¬BeginsIn p [] := by simp [BeginsIn]

@[simp] theorem beginsIn_cons (p : Char → Prop) (c : Char) (cs : List Char) :
    BeginsIn p (c :: cs) ↔ p c := by simp [BeginsIn]

theorem BeginsIn.exists_cons {p : Char → Prop} {cs : List Char} (h : BeginsIn p cs) :
    ∃ c rest, cs = c :: rest ∧ p c := by
  cases cs with
  | nil => exact absurd h (beginsIn_nil p)
  | cons c rest => exact ⟨c, rest, rfl, (beginsIn_cons p c rest).mp h⟩

theorem delimited_nil : Delimited [] := .inl rfl

@[simp] theorem delimited_cons (c : Char) (cs : List Char) :
    Delimited (c :: cs) ↔ IsDelimiter c := by simp [Delimited]

theorem not_beginsIn_dropWhile {p : Char → Bool} {q : Char → Prop} (hpq : ∀ c, p c ↔ q c)
    (cs : List Char) : ¬BeginsIn q (cs.dropWhile p) := by
  rintro ⟨c, hc, hq⟩
  have h := List.head?_dropWhile_not p cs
  rw [Option.mem_def.mp hc] at h
  simp [(hpq c).mpr hq] at h

theorem takeWhile_append_stop {p : Char → Bool} {cs rest : List Char} (h : ∀ c ∈ cs, p c)
    (hrest : ¬BeginsIn (p · = true) rest) : (cs ++ rest).takeWhile p = cs := by
  rw [List.takeWhile_append_of_pos h]
  cases rest with
  | nil => simp
  | cons c rest => simp [(beginsIn_cons _ c rest).not.mp hrest]

theorem dropWhile_append_stop {p : Char → Bool} {cs rest : List Char} (h : ∀ c ∈ cs, p c)
    (hrest : ¬BeginsIn (p · = true) rest) : (cs ++ rest).dropWhile p = rest := by
  rw [List.dropWhile_append_of_pos h]
  cases rest with
  | nil => simp
  | cons c rest => simp [(beginsIn_cons _ c rest).not.mp hrest]

/-! Numerals. -/

theorem all_isDigit {ds : List Char} (h : ∀ c ∈ ds, IsDigit c) : ds.all Char.isDigit = true :=
  List.all_eq_true.mpr fun c hc => (isDigit_iff c).mpr (h c hc)

theorem count_point {ds : List Char} (h : ∀ c ∈ ds, IsDigit c) : ds.count '.' = 0 :=
  List.count_eq_zero.mpr fun hmem => absurd (h '.' hmem) (by decide)

theorem isDigit_of_isNumeric {c : Char} (h : IsNumeric c) (hne : c ≠ '.') : IsDigit c :=
  h.resolve_right hne

theorem denotes_whole {ds : List Char} (hne : ds ≠ []) (hdigits : ∀ c ∈ ds, IsDigit c) :
    Denotes ds (some (Numeral.nearest ds [])) := by
  refine .nearest ?_ (Numeral.unsigned?_whole hne (all_isDigit hdigits)) ?_
  · rw [count_point hdigits]
    exact Nat.two_pos
  · simpa using Numeral.isNearest_nearest ds []

theorem denotes_fraction {ws fs : List Char} (hne : ws ≠ []) (hws : ∀ c ∈ ws, IsDigit c)
    (hfs : ∀ c ∈ fs, IsDigit c) : Denotes (ws ++ '.' :: fs) (some (Numeral.nearest ws fs)) := by
  have hdigits := all_isDigit (List.forall_mem_append.mpr ⟨hws, hfs⟩)
  refine .nearest ?_ (Numeral.unsigned?_fraction hne hdigits) (Numeral.isNearest_nearest ws fs)
  rw [List.count_append, List.count_cons_self, count_point hws, count_point hfs]
  exact Nat.one_lt_two

theorem denotes_value? {cs : List Char} (hfirst : BeginsIn IsDigit cs)
    (hchars : ∀ c ∈ cs, IsNumeric c) : Denotes cs (Numeral.value? cs) := by
  have hsplit := List.takeWhile_append_dropWhile (p := (· != '.')) (l := cs)
  have hne : cs.takeWhile (· != '.') ≠ [] := by
    obtain ⟨c, rest, rfl, hc⟩ := hfirst.exists_cons
    simp [Numeral.ne_point_of_isDigit ((isDigit_iff c).mpr hc)]
  have hwhole : ∀ c ∈ cs.takeWhile (· != '.'), IsDigit c := by
    intro c hc
    have hpoint := List.mem_takeWhile_imp hc
    exact isDigit_of_isNumeric (hchars c (List.takeWhile_subset _ hc)) (by simpa using hpoint)
  unfold Numeral.value?
  -- without a point all characters are taken, and with one it comes first in what is left
  split
  · rename_i hnil
    rw [hnil, List.append_nil] at hsplit
    rw [hsplit] at hne hwhole
    exact denotes_whole hne hwhole
  · rename_i c fs hcons
    have hpoint : c = '.' := by
      have h := List.head?_dropWhile_not (· != '.') cs
      rw [hcons] at h
      simpa using h
    subst hpoint
    rw [hcons] at hsplit
    split
    · rename_i hmem
      have hcount : cs.count '.' = fs.count '.' + 1 := by
        rw [← hsplit, List.count_append, count_point hwhole, List.count_cons_self, Nat.zero_add]
      have := List.count_pos_iff.mpr hmem
      exact .malformed (by omega)
    · rename_i hmem
      have hfs : ∀ d ∈ fs, IsDigit d := by
        intro d hd
        have hd' : d ∈ cs := hsplit ▸ List.mem_append_right _ (List.mem_cons_of_mem _ hd)
        exact isDigit_of_isNumeric (hchars d hd') fun heq => hmem (heq ▸ hd)
      have h := denotes_fraction hne hwhole hfs
      rwa [hsplit] at h

theorem Denotes.unique {cs : List Char} {v w : Option Double} (hv : Denotes cs v)
    (hw : Denotes cs w) : v = w := by
  cases hv with
  | nearest hpoints hvalue hnearest =>
    cases hw with
    | nearest _ hvalue' hnearest' =>
      obtain rfl := Option.some.inj (hvalue.symm.trans hvalue')
      rw [hnearest.unique hnearest']
    | malformed hpoints' => exact absurd hpoints (Nat.not_lt.mpr hpoints')
  | malformed hpoints =>
    cases hw with
    | nearest hpoints' => exact absurd hpoints' (Nat.not_lt.mpr hpoints)
    | malformed => rfl

end Lexical
end MiniScheme
