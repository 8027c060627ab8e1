import MiniScheme.Proofs.Token.Grammar

/-! The lexeme that the scanner finds at a character, and the lexeme that the grammar has there:
each is the other. -/

namespace MiniScheme
namespace Lexical

/-! What the scanner finds obeys the grammar. -/

theorem lexeme_string (cs : List Char) :
    Lexeme (Scan.string cs).1.lexeme.toList (.atom (Scan.string cs).1) (Scan.string cs).2 := by
  have hvalue : '"' ∉ cs.takeWhile (· != '"') := fun h => by simpa using List.mem_takeWhile_imp h
  unfold Scan.string
  dsimp only
  split
  · simpa [Atom.lexeme] using Lexeme.unclosed hvalue
  · simpa [Atom.lexeme] using Lexeme.closed hvalue

theorem lexeme_number {c : Char} (hc : IsDigit c) (cs : List Char) :
    Lexeme (Scan.number (c :: cs)).1.lexeme.toList (Scan.number (c :: cs)).1
      (Scan.number (c :: cs)).2 := by
  have hnum : Numeral.isChar c := (isChar_iff c).mpr (.inl hc)
  have hfirst : BeginsIn IsDigit ((c :: cs).takeWhile Numeral.isChar) := by
    simpa [List.takeWhile_cons, hnum] using hc
  have hchars : ∀ d ∈ (c :: cs).takeWhile Numeral.isChar, IsNumeric d :=
    fun d hd => (isChar_iff d).mp (List.mem_takeWhile_imp hd)
  have hrest := not_beginsIn_dropWhile isChar_iff (c :: cs)
  have hvalue := denotes_value? hfirst hchars
  unfold Scan.number
  dsimp only
  split
  · rename_i x hx
    rw [hx] at hvalue
    simpa only [Shape.lexeme, Atom.lexeme, String.toList_ofList] using
      Lexeme.number hfirst hchars hrest hvalue
  · rename_i hx
    rw [hx] at hvalue
    simpa only [Shape.lexeme, String.toList_ofList] using
      Lexeme.badNumber hfirst hchars hrest hvalue

theorem lexeme_symbol {c : Char} {cs : List Char} (hc : ¬IsDelimiter c) (hdigit : ¬IsDigit c)
    (hquote : c ≠ '"') (hyes : ¬['#', 't'] <+: c :: cs) (hno : ¬['#', 'f'] <+: c :: cs) :
    Lexeme (Scan.symbol (c :: cs)).1.lexeme.toList (.atom (Scan.symbol (c :: cs)).1)
      (Scan.symbol (c :: cs)).2 := by
  have hends : ∀ d, (!Scan.endsSymbol d) = true ↔ ¬IsDelimiter d := by
    intro d
    rw [← endsSymbol_iff d]
    simp
  have htake : (c :: cs).takeWhile (!Scan.endsSymbol ·) =
      c :: cs.takeWhile (!Scan.endsSymbol ·) := by
    rw [List.takeWhile_cons, if_pos ((hends c).mpr hc)]
  have hpre := List.takeWhile_prefix (!Scan.endsSymbol ·) (l := c :: cs)
  have hchars : ∀ d ∈ (c :: cs).takeWhile (!Scan.endsSymbol ·), ¬IsDelimiter d :=
    fun d hd => (hends d).mp (List.mem_takeWhile_imp (p := (!Scan.endsSymbol ·)) hd)
  have hrest : Delimited ((c :: cs).dropWhile (!Scan.endsSymbol ·)) := by
    have h := not_beginsIn_dropWhile hends (c :: cs)
    cases hdrop : (c :: cs).dropWhile (!Scan.endsSymbol ·) with
    | nil => exact .inl rfl
    | cons d rest =>
      rw [hdrop, beginsIn_cons, not_not] at h
      exact .inr ((beginsIn_cons _ d rest).mpr h)
  simp only [Scan.symbol, Atom.lexeme, String.toList_ofList]
  refine .symbol ?_ hchars ?_ ?_ (fun h => hyes (h.trans hpre)) (fun h => hno (h.trans hpre)) hrest
  · simp [htake]
  · simpa [htake] using hdigit
  · simpa [htake] using hquote

theorem lexeme_hash (cs : List Char) :
    Lexeme (Scan.hash cs).1.lexeme.toList (.atom (Scan.hash cs).1) (Scan.hash cs).2 := by
  unfold Scan.hash
  split
  · simpa [Atom.lexeme, booleanText] using Lexeme.yes
  · simpa [Atom.lexeme, booleanText] using Lexeme.no
  · rename_i hyes hno
    refine lexeme_symbol (by decide) (by decide) (by decide) ?_ ?_
    · rintro ⟨rest, hrest⟩
      exact hyes rest (by simpa using hrest.symm)
    · rintro ⟨rest, hrest⟩
      exact hno rest (by simpa using hrest.symm)

theorem lexeme_scanned {c : Char} (hc : ¬IsBlank c) (cs : List Char) :
    Lexeme (Scan.lexeme c cs).1.lexeme.toList (Scan.lexeme c cs).1 (Scan.lexeme c cs).2 := by
  unfold Scan.lexeme
  split
  · simpa [Shape.lexeme] using Lexeme.leftParen
  split
  · simpa [Shape.lexeme] using Lexeme.rightParen
  split
  · exact lexeme_hash cs
  split
  · exact lexeme_string cs
  split
  · rename_i hdigit
    exact lexeme_number ((isDigit_iff c).mp hdigit) cs
  · rename_i hl hr hhash hquote hdigit
    have hdelim : ¬IsDelimiter c := by
      simp only [IsBlank, IsDelimiter, List.mem_cons, List.not_mem_nil, or_false] at hc ⊢
      tauto
    refine lexeme_symbol hdelim (fun h => hdigit ((isDigit_iff c).mpr h)) hquote ?_ ?_
    · rintro ⟨rest, hrest⟩
      exact hhash (List.cons.inj hrest).1.symm
    · rintro ⟨rest, hrest⟩
      exact hhash (List.cons.inj hrest).1.symm

/-! What obeys the grammar is what the scanner finds. -/

theorem Lexeme.text_eq {text rest : List Char} {shape : Shape} (h : Lexeme text shape rest) :
    shape.lexeme.toList = text := by
  cases h <;> simp [Shape.lexeme, Atom.lexeme, booleanText]

theorem scan_string {value : List Char} (h : '"' ∉ value) (rest : List Char) :
    Scan.string (value ++ '"' :: rest) = (.string (.ofList value) true, rest) := by
  have hall : ∀ c ∈ value, (c != '"') = true := by
    intro c hc
    simpa using fun heq : c = '"' => h (heq ▸ hc)
  simp [Scan.string, List.dropWhile_append_of_pos hall, List.takeWhile_append_of_pos hall]

theorem scan_string_unclosed {value : List Char} (h : '"' ∉ value) :
    Scan.string value = (.string (.ofList value) false, []) := by
  have hall : ∀ c ∈ value, (c != '"') = true := by
    intro c hc
    simpa using fun heq : c = '"' => h (heq ▸ hc)
  simp [Scan.string, List.dropWhile_eq_nil_iff.mpr hall, List.takeWhile_eq_self_iff.mpr hall]

theorem scan_number {text rest : List Char} (hfirst : BeginsIn IsDigit text)
    (hchars : ∀ c ∈ text, IsNumeric c) (hrest : ¬BeginsIn IsNumeric rest)
    {value : Option Double} (hvalue : Denotes text value) :
    Scan.number (text ++ rest) =
      (match value with
        | some x => .atom (.number (.ofList text) (.double x))
        | none => .badNumber (.ofList text), rest) := by
  have hall : ∀ c ∈ text, Numeral.isChar c := fun c hc => (isChar_iff c).mpr (hchars c hc)
  have hstop : ¬BeginsIn (Numeral.isChar · = true) rest := by
    simpa only [BeginsIn, isChar_iff] using hrest
  have htext := takeWhile_append_stop hall hstop
  have htail := dropWhile_append_stop hall hstop
  have hsame := (denotes_value? hfirst hchars).unique hvalue
  cases value with
  | some x => simp only [Scan.number, htext, htail, hsame]
  | none => simp only [Scan.number, htext, htail, hsame]

theorem scan_symbol {text rest : List Char} (hchars : ∀ c ∈ text, ¬IsDelimiter c)
    (hrest : Delimited rest) :
    Scan.symbol (text ++ rest) = (.symbol (.ofList text), rest) := by
  have hends : ∀ d, (!Scan.endsSymbol d) = true ↔ ¬IsDelimiter d := by
    intro d
    rw [← endsSymbol_iff d]
    simp
  have hall : ∀ c ∈ text, (!Scan.endsSymbol c) = true := fun c hc => (hends c).mpr (hchars c hc)
  have hstop : ¬BeginsIn ((!Scan.endsSymbol ·) · = true) rest := by
    rintro ⟨c, hc, hend⟩
    rcases hrest with rfl | ⟨d, hd, hdelim⟩
    · simp at hc
    · obtain rfl : c = d := Option.mem_unique hc hd
      exact (hends c).mp hend hdelim
  simp only [Scan.symbol, takeWhile_append_stop hall hstop, dropWhile_append_stop hall hstop]

theorem IsDigit.ne {c d : Char} (hc : IsDigit c) (hd : ¬IsDigit d) : c ≠ d := fun h => hd (h ▸ hc)

theorem IsDigit.not_isBlank {c : Char} (hc : IsDigit c) : ¬IsBlank c := by
  simp [IsBlank, hc.ne (show ¬IsDigit ' ' by decide), hc.ne (show ¬IsDigit '\t' by decide),
    hc.ne (show ¬IsDigit '\r' by decide), hc.ne (show ¬IsDigit '\n' by decide)]

theorem scan_digit {c : Char} (hc : IsDigit c) (cs : List Char) :
    Scan.lexeme c cs = Scan.number (c :: cs) := by
  simp [Scan.lexeme, hc.ne (show ¬IsDigit '(' by decide), hc.ne (show ¬IsDigit ')' by decide),
    hc.ne (show ¬IsDigit '#' by decide), hc.ne (show ¬IsDigit '"' by decide), isDigit_iff, hc]

theorem append_ne_cons {c d : Char} {cs rest : List Char} (hd : ¬IsDelimiter d)
    (hpre : ¬[c, d] <+: c :: cs) (hrest : Delimited rest)
    (tail : List Char) : cs ++ rest ≠ d :: tail := by
  intro heq
  -- the second character is the first of what follows, a delimiter, or it makes the prefix
  cases cs with
  | nil =>
    rw [List.nil_append] at heq
    rw [heq, delimited_cons] at hrest
    exact hd hrest
  | cons e es =>
    obtain ⟨rfl, _⟩ := List.cons.inj heq
    exact hpre ⟨es, rfl⟩

theorem scan_hash {cs rest : List Char} (hyes : ¬['#', 't'] <+: '#' :: cs)
    (hno : ¬['#', 'f'] <+: '#' :: cs) (hrest : Delimited rest) :
    Scan.hash (cs ++ rest) = Scan.symbol ('#' :: (cs ++ rest)) := by
  unfold Scan.hash
  split
  · rename_i tail heq
    exact absurd heq (append_ne_cons (by decide) hyes hrest tail)
  · rename_i tail heq
    exact absurd heq (append_ne_cons (by decide) hno hrest tail)
  · rfl

/-- A lexeme of the grammar begins with a character that is no blank, and the scanner that meets
that character finds this very lexeme. -/
theorem Lexeme.scanned {text rest : List Char} {shape : Shape} (h : Lexeme text shape rest) :
    ∃ c cs, text ++ rest = c :: cs ∧ ¬IsBlank c ∧ Scan.lexeme c cs = (shape, rest) := by
  cases h with
  | leftParen => exact ⟨'(', rest, rfl, by decide, rfl⟩
  | rightParen => exact ⟨')', rest, rfl, by decide, rfl⟩
  | yes => exact ⟨'#', 't' :: rest, rfl, by decide, rfl⟩
  | no => exact ⟨'#', 'f' :: rest, rfl, by decide, rfl⟩
  | @closed value _ h =>
    refine ⟨'"', value ++ '"' :: rest, by simp, by decide, ?_⟩
    simp [Scan.lexeme, scan_string h]
  | @unclosed value h =>
    refine ⟨'"', value, by simp, by decide, ?_⟩
    simp [Scan.lexeme, scan_string_unclosed h]
  | number hfirst hchars hrest hvalue =>
    obtain ⟨c, cs, rfl, hc⟩ := hfirst.exists_cons
    refine ⟨c, cs ++ rest, rfl, hc.not_isBlank, ?_⟩
    rw [scan_digit hc, ← List.cons_append, scan_number hfirst hchars hrest hvalue]
  | badNumber hfirst hchars hrest hvalue =>
    obtain ⟨c, cs, rfl, hc⟩ := hfirst.exists_cons
    refine ⟨c, cs ++ rest, rfl, hc.not_isBlank, ?_⟩
    rw [scan_digit hc, ← List.cons_append, scan_number hfirst hchars hrest hvalue]
  | symbol hne hchars hdigit hquote hyes hno hrest =>
    obtain ⟨c, cs, rfl⟩ := List.exists_cons_of_ne_nil hne
    have hc := hchars c List.mem_cons_self
    have hsymbol := scan_symbol hchars hrest
    refine ⟨c, cs ++ rest, rfl, fun hb => hc (isDelimiter_of_isBlank hb), ?_⟩
    rw [List.cons_append] at hsymbol
    -- only a hash is looked at together with the character behind it
    by_cases hhash : c = '#'
    · subst hhash
      simp [Scan.lexeme, scan_hash hyes hno hrest, hsymbol]
    · have hl : c ≠ '(' := fun h => hc (h ▸ by decide)
      have hr : c ≠ ')' := fun h => hc (h ▸ by decide)
      simp only [beginsIn_cons] at hdigit hquote
      simp [Scan.lexeme, hl, hr, hhash, hquote, isDigit_iff, hdigit, hsymbol]

end Lexical
end MiniScheme
