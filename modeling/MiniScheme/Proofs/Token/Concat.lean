import MiniScheme.Proofs.Token.Spelling

/-! Tokens of two texts with a blank between them. The blank ends whatever lexeme stands in front of
it, unless that is a string that was never closed, and the second text has the tokens that it has
by itself, on later lines. -/

namespace MiniScheme

def Token.shift (k : Nat) (t : Token) : Token := ⟨t.line + k, t.shape⟩

def Shape.IsClosed (shape : Shape) : Prop := ∀ value, shape ≠ .atom (.string value false)

namespace Lexical

theorem tokens_shift (k line : Nat) (cs : List Char) :
    Scan.tokens (line + k) cs = (Scan.tokens line cs).map (Token.shift k) := by
  induction line, cs using Scan.tokens.induct with
  | case1 line =>
    rw [Scan.tokens, Scan.tokens]
    rfl
  | case2 line c cs h ih =>
    have hc := (isBlank_iff c).mp h
    have hline : (if c = '\n' then line + k + 1 else line + k) =
        (if c = '\n' then line + 1 else line) + k := by
      split <;> omega
    rw [tokens_blank hc, tokens_blank hc, hline]
    exact ih
  | case3 line c cs h found last ih =>
    have hc := fun hb => h ((isBlank_iff c).mpr hb)
    have hlast : line + k + (Scan.lexeme c cs).1.newlines = last + k := by
      show _ = line + (Scan.lexeme c cs).1.newlines + k
      omega
    rw [tokens_lexeme hc, tokens_lexeme hc, hlast, ih]
    rfl

theorem IsBlank.not_isNumeric {b : Char} (hb : IsBlank b) : ¬IsNumeric b := by
  rintro (hdigit | rfl)
  · exact hdigit.not_isBlank hb
  · exact absurd hb (by decide)

theorem not_beginsIn_append {p : Char → Prop} {rest : List Char} (h : ¬BeginsIn p rest) {b : Char}
    (hb : ¬p b) (more : List Char) : ¬BeginsIn p (rest ++ b :: more) := by
  cases rest with
  | nil => exact (beginsIn_cons p b more).not.mpr hb
  | cons c rest => exact (beginsIn_cons p c _).not.mpr ((beginsIn_cons p c rest).not.mp h)

theorem Delimited.append {rest : List Char} (h : Delimited rest) {b : Char} (hb : IsBlank b)
    (more : List Char) : Delimited (rest ++ b :: more) := by
  cases rest with
  | nil => exact (delimited_cons b more).mpr (isDelimiter_of_isBlank hb)
  | cons c rest => exact (delimited_cons c _).mpr ((delimited_cons c rest).mp h)

theorem Lexeme.append {text rest : List Char} {shape : Shape} (h : Lexeme text shape rest)
    (hclosed : shape.IsClosed) {b : Char} (hb : IsBlank b) (more : List Char) :
    Lexeme text shape (rest ++ b :: more) := by
  cases h with
  | leftParen => exact .leftParen
  | rightParen => exact .rightParen
  | yes => exact .yes
  | no => exact .no
  | closed h => exact .closed h
  | unclosed h => exact absurd rfl (hclosed _)
  | number hfirst hchars hrest hvalue =>
    exact .number hfirst hchars (not_beginsIn_append hrest hb.not_isNumeric more) hvalue
  | badNumber hfirst hchars hrest hvalue =>
    exact .badNumber hfirst hchars (not_beginsIn_append hrest hb.not_isNumeric more) hvalue
  | symbol hne hchars hdigit hquote hyes hno hrest =>
    exact .symbol hne hchars hdigit hquote hyes hno (hrest.append hb more)

theorem Lexeme.newlines_eq {text rest : List Char} {shape : Shape} (h : Lexeme text shape rest) :
    shape.newlines = text.count '\n' := by
  have hnumeric : (∀ c ∈ text, IsNumeric c) → text.count '\n' = 0 := fun hchars =>
    List.count_eq_zero.mpr fun hmem =>
      absurd (hchars _ hmem) (IsBlank.not_isNumeric (b := '\n') (by decide))
  cases h with
  | leftParen | rightParen | yes | no => rfl
  | closed h => simp [Shape.newlines, Atom.newlines]
  | unclosed h => simp [Shape.newlines, Atom.newlines]
  | number hfirst hchars hrest hvalue => exact (hnumeric hchars).symm
  | badNumber hfirst hchars hrest hvalue => exact (hnumeric hchars).symm
  | symbol hne hchars hdigit hquote hyes hno hrest =>
    exact (List.count_eq_zero.mpr fun hmem => hchars _ hmem (by decide)).symm

theorem lexeme_append_blank {c : Char} {cs : List Char} (hc : ¬IsBlank c)
    (hclosed : (Scan.lexeme c cs).1.IsClosed) {b : Char} (hb : IsBlank b) (more : List Char) :
    Scan.lexeme c (cs ++ b :: more) =
      ((Scan.lexeme c cs).1, (Scan.lexeme c cs).2 ++ b :: more) := by
  have hlexeme := (lexeme_scanned hc cs).append hclosed hb more
  obtain ⟨d, ds, heq, _, hscan⟩ := hlexeme.scanned
  rw [← List.append_assoc, Scan.lexeme_append] at heq
  obtain ⟨rfl, rfl⟩ := List.cons.inj heq
  exact hscan

theorem count_newline_lexeme {c : Char} (hc : ¬IsBlank c) (cs : List Char) :
    (c :: cs).count '\n' = (Scan.lexeme c cs).1.newlines + (Scan.lexeme c cs).2.count '\n' := by
  rw [(lexeme_scanned hc cs).newlines_eq, ← List.count_append, Scan.lexeme_append]

/-- Tokens in front of a blank, and behind it the tokens of the text there, as many lines further
down as there are newlines before. -/
theorem tokens_append {b : Char} (hb : IsBlank b) (more : List Char) (line : Nat) (cs : List Char)
    (hclosed : ∀ t ∈ Scan.tokens line cs, t.shape.IsClosed) :
    ∃ front last, Scan.tokens line cs = front ++ [⟨last, .endOfInput⟩] ∧
      Scan.tokens line (cs ++ b :: more) =
        front ++ Scan.tokens (line + (cs ++ [b]).count '\n') more := by
  induction line, cs using Scan.tokens.induct with
  | case1 line =>
    have hblank := tokens_blanks (List.forall_mem_singleton.mpr hb) line more
    exact ⟨[], line, by rw [Scan.tokens, List.nil_append], hblank⟩
  | case2 line c cs h ih =>
    simp only [dite_eq_ite] at ih
    have hc := (isBlank_iff c).mp h
    rw [tokens_blank hc] at hclosed
    obtain ⟨front, last, hfront, happend⟩ := ih hclosed
    refine ⟨front, last, (tokens_blank hc line cs).trans hfront, ?_⟩
    have hline : (if c = '\n' then line + 1 else line) + (cs ++ [b]).count '\n' =
        line + (c :: cs ++ [b]).count '\n' := by
      rw [List.cons_append, List.count_cons]
      by_cases hnl : c = '\n'
      · simp [hnl]
        omega
      · simp [hnl]
    rw [List.cons_append, tokens_blank hc, happend, hline]
  | case3 line c cs h found last ih =>
    have hc := fun hb => h ((isBlank_iff c).mpr hb)
    rw [tokens_lexeme hc] at hclosed
    obtain ⟨hhead, htail⟩ := List.forall_mem_cons.mp hclosed
    obtain ⟨front, last', hfront, happend⟩ := ih htail
    refine ⟨⟨last, found.1⟩ :: front, last', ?_, ?_⟩
    · rw [tokens_lexeme hc]
      exact congrArg (_ :: ·) hfront
    · have hline : last + (found.2 ++ [b]).count '\n' = line + (c :: cs ++ [b]).count '\n' := by
        rw [List.count_append, List.count_append, count_newline_lexeme hc, ← Nat.add_assoc,
          ← Nat.add_assoc, ← Nat.add_assoc]
      rw [hline] at happend
      rw [List.cons_append, tokens_lexeme hc, lexeme_append_blank hc hhead hb more]
      exact congrArg (_ :: ·) happend

end Lexical
end MiniScheme
