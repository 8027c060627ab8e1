import MiniScheme.Proofs.Token.Lexeme

/-! Sources as blanks and lexemes in turn, and the scanner as the one reading of them. -/

namespace MiniScheme
namespace Lexical

theorem Spells.blank {c : Char} {cs : List Char} {pieces : List (List Char × Shape)}
    (hc : IsBlank c) (h : Spells cs pieces) : Spells (c :: cs) pieces := by
  cases h with
  | done h => exact .done (List.forall_mem_cons.mpr ⟨hc, h⟩)
  | next hblanks hlexeme hrest =>
    exact .next (List.forall_mem_cons.mpr ⟨hc, hblanks⟩) hlexeme hrest

theorem Lexeme.spells {text rest : List Char} {shape : Shape} {pieces : List (List Char × Shape)}
    (h : Lexeme text shape rest) (hrest : Spells rest pieces) :
    Spells (text ++ rest) ((text, shape) :: pieces) :=
  @Spells.next [] _ _ _ _ (List.forall_mem_nil _) h hrest

def piece (shape : Shape) : List Char × Shape := (shape.lexeme.toList, shape)

theorem tokens_blank {c : Char} (hc : IsBlank c) (line : Nat) (cs : List Char) :
    Scan.tokens line (c :: cs) = Scan.tokens (if c = '\n' then line + 1 else line) cs := by
  rw [Scan.tokens, dif_pos ((isBlank_iff c).mpr hc)]

theorem tokens_lexeme {c : Char} (hc : ¬IsBlank c) (line : Nat) (cs : List Char) :
    Scan.tokens line (c :: cs) =
      ⟨line + (Scan.lexeme c cs).1.newlines, (Scan.lexeme c cs).1⟩ ::
        Scan.tokens (line + (Scan.lexeme c cs).1.newlines) (Scan.lexeme c cs).2 := by
  rw [Scan.tokens, dif_neg (fun h => hc ((isBlank_iff c).mp h))]

theorem spells_tokens (line : Nat) (cs : List Char) :
    Spells cs ((Scan.tokens line cs).map (piece ·.shape)) := by
  -- the cases of the scanner: the end, a blank, a lexeme
  induction line, cs using Scan.tokens.induct with
  | case1 line =>
    rw [Scan.tokens]
    exact .done (List.forall_mem_nil _)
  | case2 line c cs h ih =>
    have hc := (isBlank_iff c).mp h
    rw [tokens_blank hc]
    exact .blank hc ih
  | case3 line c cs h found last ih =>
    have hc := fun hb => h ((isBlank_iff c).mpr hb)
    rw [tokens_lexeme hc, ← Scan.lexeme_append c cs]
    exact (lexeme_scanned hc cs).spells ih

theorem tokens_blanks {blanks : List Char} (h : ∀ c ∈ blanks, IsBlank c) (line : Nat)
    (cs : List Char) :
    Scan.tokens line (blanks ++ cs) = Scan.tokens (line + blanks.count '\n') cs := by
  induction blanks generalizing line with
  | nil => rfl
  | cons c blanks ih =>
    obtain ⟨hc, hblanks⟩ := List.forall_mem_cons.mp h
    rw [List.cons_append, tokens_blank hc, ih hblanks]
    by_cases hnl : c = '\n'
    · simp [hnl, Nat.add_assoc, Nat.add_comm 1]
    · simp [hnl]

theorem Spells.map_piece_tokens {cs : List Char} {pieces : List (List Char × Shape)}
    (h : Spells cs pieces) (line : Nat) : (Scan.tokens line cs).map (piece ·.shape) = pieces := by
  induction h generalizing line with
  | @done blanks h =>
    rw [← List.append_nil blanks, tokens_blanks h, Scan.tokens]
    rfl
  | next hblanks hlexeme hrest ih =>
    obtain ⟨c, cs, heq, hc, hscan⟩ := hlexeme.scanned
    rw [tokens_blanks hblanks, heq, tokens_lexeme hc, hscan, List.map_cons, ih]
    exact congrArg (fun text => (text, _) :: _) hlexeme.text_eq

theorem Spells.eq_append {cs : List Char} {pieces : List (List Char × Shape)}
    (h : Spells cs pieces) :
    ∃ front, pieces = front ++ [([], .endOfInput)] ∧ ∀ p ∈ front, p.2 ≠ .endOfInput := by
  induction h with
  | done => exact ⟨[], rfl, List.forall_mem_nil _⟩
  | @next blanks text rest shape pieces hblanks hlexeme hrest ih =>
    obtain ⟨front, rfl, hfront⟩ := ih
    refine ⟨(text, shape) :: front, rfl, List.forall_mem_cons.mpr ⟨?_, hfront⟩⟩
    cases hlexeme <;> simp

theorem Spells.lexeme_of_mem {cs text : List Char} {pieces : List (List Char × Shape)}
    (h : Spells cs pieces) {shape : Shape} (hmem : (text, shape) ∈ pieces)
    (hshape : shape ≠ .endOfInput) : ∃ rest, Lexeme text shape rest := by
  induction h with
  | done =>
    obtain ⟨rfl, rfl⟩ := Prod.mk.inj (List.mem_singleton.mp hmem)
    exact absurd rfl hshape
  | next hblanks hlexeme hrest ih =>
    rcases List.mem_cons.mp hmem with heq | hmem
    · obtain ⟨rfl, rfl⟩ := Prod.mk.inj heq
      exact ⟨_, hlexeme⟩
    · exact ih hmem

end Lexical

open Lexical

theorem scan_eq_append (source : String) :
    ∃ front line, scan source = front ++ [⟨line, .endOfInput⟩] ∧
      ∀ t ∈ front, t.shape ≠ .endOfInput := by
  obtain ⟨pieces, heq, hpieces⟩ := (spells_tokens 0 source.toList).eq_append
  obtain ⟨front, ends, hscan, rfl, hends⟩ := List.map_eq_append_iff.mp heq
  obtain ⟨⟨line, shape⟩, rfl, hshape⟩ := List.map_eq_singleton_iff.mp hends
  obtain ⟨_, rfl⟩ := Prod.mk.inj hshape
  exact ⟨front, line, hscan, fun t ht => hpieces (piece t.shape) (List.mem_map_of_mem ht)⟩

/-- The end of the input is the last token of a source and no other, and the tokens are the one
spelling that the source has. -/
theorem scan_iff_spells (source : String) :
    (∃ front line, scan source = front ++ [⟨line, .endOfInput⟩] ∧
      ∀ t ∈ front, t.shape ≠ .endOfInput) ∧
    ∀ pieces : List (List Char × Shape),
      (scan source).map (piece ·.shape) = pieces ↔ Spells source.toList pieces := by
  refine ⟨scan_eq_append source, fun pieces => ⟨?_, fun h => h.map_piece_tokens 0⟩⟩
  rintro rfl
  exact spells_tokens 0 source.toList

end MiniScheme
