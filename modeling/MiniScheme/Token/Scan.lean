import MiniScheme.Token

/-! From source text to tokens. Blanks separate lexemes and are dropped; each lexeme is as long as
the rule of its first character lets it be. Every text has tokens: what is malformed becomes
a token that says so. -/

namespace MiniScheme

namespace Scan

def isBlank (c : Char) : Bool := c == ' ' || c == '\t' || c == '\r' || c == '\n'

def endsSymbol (c : Char) : Bool := c == '(' || c == ')' || isBlank c

def string (cs : List Char) : Atom × List Char :=
  let value := String.ofList (cs.takeWhile (· != '"'))
  match cs.dropWhile (· != '"') with
  | [] => (.string value false, [])
  | _ :: rest => (.string value true, rest)

def number (cs : List Char) : Shape × List Char :=
  let digits := cs.takeWhile Numeral.isChar
  let written := String.ofList digits
  let shape := match Numeral.value? digits with
    | some x => .atom (.number written (.double x))
    | none => .badNumber written
  (shape, cs.dropWhile Numeral.isChar)

def symbol (cs : List Char) : Atom × List Char :=
  (.symbol (String.ofList (cs.takeWhile (!endsSymbol ·))), cs.dropWhile (!endsSymbol ·))

def hash : List Char → Atom × List Char
  | 't' :: rest => (.boolean true, rest)
  | 'f' :: rest => (.boolean false, rest)
  | cs => symbol ('#' :: cs)

/-- The lexeme that starts with `c`, a character other than a blank, and what follows it. -/
def lexeme (c : Char) (cs : List Char) : Shape × List Char :=
  if c = '(' then (.leftParen, cs)
  else if c = ')' then (.rightParen, cs)
  else if c = '#' then (hash cs).map .atom id
  else if c = '"' then (string cs).map .atom id
  else if c.isDigit then number (c :: cs)
  else (symbol (c :: cs)).map .atom id

theorem string_append (cs : List Char) :
    (string cs).1.lexeme.toList ++ (string cs).2 = '"' :: cs := by
  have hsplit := List.takeWhile_append_dropWhile (p := (· != '"')) (l := cs)
  unfold string
  dsimp only
  split
  · rename_i heq
    rw [heq, List.append_nil] at hsplit
    simp [Atom.lexeme, hsplit]
  · rename_i c rest heq
    have hc : c = '"' := by
      have h := List.head?_dropWhile_not (· != '"') cs
      rw [heq] at h
      simpa using h
    subst hc
    rw [heq] at hsplit
    simp [Atom.lexeme, hsplit]

theorem symbol_append (cs : List Char) : (symbol cs).1.lexeme.toList ++ (symbol cs).2 = cs := by
  simp [symbol, Atom.lexeme, List.takeWhile_append_dropWhile]

theorem number_append (cs : List Char) : (number cs).1.lexeme.toList ++ (number cs).2 = cs := by
  unfold number
  dsimp only
  split <;> simp [Shape.lexeme, Atom.lexeme, List.takeWhile_append_dropWhile]

theorem hash_append (cs : List Char) :
    (hash cs).1.lexeme.toList ++ (hash cs).2 = '#' :: cs := by
  unfold hash
  split
  · simp [Atom.lexeme, booleanText]
  · simp [Atom.lexeme, booleanText]
  · exact symbol_append _

theorem lexeme_append (c : Char) (cs : List Char) :
    (lexeme c cs).1.lexeme.toList ++ (lexeme c cs).2 = c :: cs := by
  unfold lexeme
  split
  · subst c
    simp [Shape.lexeme]
  split
  · subst c
    simp [Shape.lexeme]
  split
  · subst c
    exact hash_append cs
  split
  · subst c
    exact string_append cs
  split
  · exact number_append _
  · exact symbol_append _

theorem length_dropWhile_le {α : Type} (p : α → Bool) (l : List α) :
    (l.dropWhile p).length ≤ l.length :=
  (List.dropWhile_sublist p).length_le

theorem length_string_le (cs : List Char) : (string cs).2.length ≤ cs.length := by
  have h := length_dropWhile_le (· != '"') cs
  unfold string
  dsimp only
  split
  · exact Nat.zero_le _
  · rename_i heq
    rw [heq] at h
    exact Nat.le_of_succ_le h

theorem length_symbol_le {c : Char} (h : endsSymbol c = false) (cs : List Char) :
    (symbol (c :: cs)).2.length ≤ cs.length := by
  simpa [symbol, h] using length_dropWhile_le (!endsSymbol ·) cs

theorem length_number_le {c : Char} (h : c.isDigit) (cs : List Char) :
    (number (c :: cs)).2.length ≤ cs.length := by
  simpa [number, Numeral.isChar, h] using length_dropWhile_le Numeral.isChar cs

theorem length_hash_le (cs : List Char) : (hash cs).2.length ≤ cs.length := by
  unfold hash
  split
  · exact Nat.le_succ _
  · exact Nat.le_succ _
  · exact length_symbol_le (by decide) cs

theorem length_lexeme_le {c : Char} (h : isBlank c = false) (cs : List Char) :
    (lexeme c cs).2.length ≤ cs.length := by
  unfold lexeme
  split
  · exact Nat.le_refl _
  split
  · exact Nat.le_refl _
  split
  · exact length_hash_le cs
  split
  · exact length_string_le cs
  split
  · rename_i hd
    exact length_number_le hd cs
  · rename_i hl hr _ _ _
    exact length_symbol_le (by simp [endsSymbol, h, hl, hr]) cs

def tokens (line : Nat) : List Char → List Token
  | [] => [⟨line, .endOfInput⟩]
  | c :: cs =>
    if h : isBlank c then tokens (if c = '\n' then line + 1 else line) cs
    else
      let found := lexeme c cs
      let last := line + found.1.newlines
      ⟨last, found.1⟩ :: tokens last found.2
termination_by cs => cs.length
decreasing_by
  · exact Nat.lt_succ_self _
  · exact Nat.lt_succ_of_le (length_lexeme_le (by simpa using h) cs)

end Scan

def scan (source : String) : List Token := Scan.tokens 0 source.toList

end MiniScheme
