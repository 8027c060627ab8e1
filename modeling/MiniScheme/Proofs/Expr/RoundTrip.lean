import MiniScheme.Proofs.Expr.Program
import MiniScheme.Proofs.Expr.Reprint

/-! Programs in print and what they are read as. Whatever stands behind an expression in print
delimits it, so tokens that touched in the source are told apart. -/

namespace MiniScheme

namespace Expr

open Lexical

structure Printed (e : Expr) (text : List Char) (shapes : List Shape) : Prop where
  text_eq : e.text = .ok (.ofList text)
  spells : ∀ rest pieces, Delimited rest → Spells rest pieces →
    Spells (text ++ rest) (shapes.map piece ++ pieces)
  reads : ∀ ts : List Token, ts.map (·.shape) = shapes →
    ∃ f : Expr, f.Clean ∧ f.depth = e.depth ∧ List.Forall₂ Mark.Fits f.flatten ts ∧ e.Reprints f

structure PrintedEach (es : List Expr) (texts : List (List Char)) (shapes : List Shape) :
    Prop where
  text_eq : textEach es = .ok (texts.map .ofList)
  spells : ∀ rest pieces, Delimited rest → Spells rest pieces →
    Spells ([' '].intercalate texts ++ rest) (shapes.map piece ++ pieces)
  reads : ∀ ts : List Token, ts.map (·.shape) = shapes →
    ∃ fs : List Expr, (∀ f ∈ fs, f.Clean) ∧ depthEach fs = depthEach es ∧
      List.Forall₂ Mark.Fits (flattenEach fs) ts ∧ List.Forall₂ Reprints es fs

theorem printedEach_nil : PrintedEach [] [] [] where
  text_eq := rfl
  spells _ _ _ h := h
  reads ts hts := by
    obtain rfl := List.map_eq_nil_iff.mp hts
    exact ⟨[], List.forall_mem_nil _, rfl, .nil, .nil⟩

theorem Printed.cons {e : Expr} {es : List Expr} {text : List Char} {texts : List (List Char)}
    {shapes shapes' : List Shape} (he : e.Printed text shapes)
    (hes : PrintedEach es texts shapes') :
    PrintedEach (e :: es) (text :: texts) (shapes ++ shapes') where
  text_eq := by
    rw [textEach, he.text_eq, hes.text_eq]
    rfl
  spells rest pieces hrest hpieces := by
    have h := hes.spells rest pieces hrest hpieces
    rw [List.map_append, List.append_assoc]
    cases texts with
    | nil =>
      rw [List.intercalate_singleton]
      exact he.spells _ _ (by simpa using hrest) h
    | cons text' texts =>
      -- the blank between the two texts delimits the first of them
      have hblank : IsBlank ' ' := by decide
      rw [List.intercalate_cons_cons, List.append_assoc, List.append_assoc]
      exact he.spells _ _ ((delimited_cons ' ' _).mpr (isDelimiter_of_isBlank hblank))
        (.blank hblank h)
  reads ts hts := by
    obtain ⟨us, vs, rfl, hus, hvs⟩ := List.map_eq_append_iff.mp hts
    obtain ⟨f, hclean, hdepth, hfits, hreprints⟩ := he.reads us hus
    obtain ⟨fs, hcleans, hdepths, hfitss, hreprintss⟩ := hes.reads vs hvs
    refine ⟨f :: fs, List.forall_mem_cons.mpr ⟨hclean, hcleans⟩, ?_, List.rel_append hfits hfitss,
      .cons hreprints hreprintss⟩
    rw [depthEach, depthEach, hdepth, hdepths]

theorem exists_printedEach {es : List Expr} (h : ∀ e ∈ es, ∃ text shapes, e.Printed text shapes) :
    ∃ texts shapes, PrintedEach es texts shapes := by
  induction es with
  | nil => exact ⟨[], [], printedEach_nil⟩
  | cons e es ih =>
    obtain ⟨⟨text, shapes, he⟩, hes⟩ := List.forall_mem_cons.mp h
    obtain ⟨texts, shapes', hes⟩ := ih hes
    exact ⟨text :: texts, shapes ++ shapes', he.cons hes⟩

theorem PrintedEach.list {es : List Expr} {texts : List (List Char)} {shapes : List Shape}
    (h : PrintedEach es texts shapes) (line : Nat) :
    Printed (.list line es) ('(' :: ([' '].intercalate texts ++ [')']))
      (.leftParen :: (shapes ++ [.rightParen])) where
  text_eq := by
    rw [text, h.text_eq]
    refine congrArg Except.ok (String.toList_inj.mp ?_)
    simp [String.toList_intercalate, List.map_map, Function.comp_def]
  spells rest pieces _ hpieces := by
    have hparen : Delimited (')' :: rest) := (delimited_cons ')' rest).mpr (by decide)
    have h := h.spells _ _ hparen (Lexeme.rightParen.spells hpieces)
    simpa [piece, Shape.lexeme] using Lexeme.leftParen.spells h
  reads ts hts := by
    obtain ⟨t, us, rfl, ht, hus⟩ := List.map_eq_cons_iff.mp hts
    obtain ⟨vs, ws, rfl, hvs, hws⟩ := List.map_eq_append_iff.mp hus
    obtain ⟨u, rfl, hu⟩ := List.map_eq_singleton_iff.mp hws
    obtain ⟨fs, hcleans, hdepths, hfits, hreprints⟩ := h.reads vs hvs
    refine ⟨.list t.line fs, .list t.line hcleans, by rw [depth, depth, hdepths], ?_,
      .list line t.line hreprints⟩
    refine .cons (Mark.fits_some.mpr ?_) (List.rel_append hfits (.cons ?_ .nil))
    · rw [← ht]
    · exact Mark.fits_closing.mpr hu

theorem PrintedEach.shapes_eq {es : List Expr} {texts : List (List Char)} {shapes : List Shape}
    (h : PrintedEach es texts shapes) {ts : List Token} {line : Nat}
    (hscan : scan (.ofList ([' '].intercalate texts)) = ts ++ [⟨line, .endOfInput⟩]) :
    ts.map (·.shape) = shapes := by
  have hspells := h.spells [] [piece .endOfInput] delimited_nil (.done (List.forall_mem_nil _))
  have hpieces := hspells.map_piece_tokens 0
  rw [scan, String.toList_ofList] at hscan
  rw [List.append_nil, hscan, List.map_append] at hpieces
  have hmap := congrArg (List.map Prod.snd) (List.append_inj_left' hpieces rfl)
  simpa [piece, Function.comp_def] using hmap

theorem exists_printed_atom {a : Atom} (h : Scanned a) (hfinite : ¬a.IsInfinite) (line : Nat) :
    ∃ text shapes, Printed (.atom line a) text shapes := by
  obtain ⟨text, b, htext, hreprints, hlexeme⟩ := h.reprints hfinite line
  refine ⟨text, [.atom b], htext, ?_, ?_⟩
  · intro rest pieces hrest hpieces
    have h := hlexeme rest hrest
    rw [List.map_singleton, List.singleton_append, piece, h.text_eq]
    exact h.spells hpieces
  · intro ts hts
    obtain ⟨t, rfl, ht⟩ := List.map_eq_singleton_iff.mp hts
    refine ⟨.atom t.line b, .atom t.line trivial, rfl, .cons (Mark.fits_some.mpr ?_) .nil,
      .atom line t.line hreprints⟩
    rw [← ht]

theorem exists_printed {e : Expr} (h : e.Every fun a => Scanned a ∧ ¬a.IsInfinite) :
    ∃ text shapes, e.Printed text shapes := by
  induction h with
  | atom line h => exact exists_printed_atom h.1 h.2 line
  | list line _ ih =>
    obtain ⟨texts, shapes, h⟩ := exists_printedEach ih
    exact ⟨_, _, h.list line⟩

end Expr

open Lexical

theorem scanned_of_readProgram {limit : Nat} {source : String} {es : List Expr}
    (hread : readProgram limit (scan source) = .ok es) {line : Nat} {a : Atom}
    (hmem : ⟨some line, .atom a⟩ ∈ Expr.flattenEach es) : Scanned a := by
  obtain ⟨ts, lastLine, hscan, hts⟩ := scan_eq_append source
  rw [hscan, readProgram_eq_ok_iff hts] at hread
  obtain ⟨t, ht, hfits⟩ := exists_mem_of_forall₂ hread.2.2 hmem
  obtain rfl := Mark.fits_some.mp hfits
  have hpiece : piece (.atom a) ∈ (scan source).map (piece ·.shape) :=
    List.mem_map.mpr ⟨_, hscan ▸ List.mem_append_left _ ht, rfl⟩
  obtain ⟨rest, hlexeme⟩ := (spells_tokens 0 source.toList).lexeme_of_mem hpiece Shape.noConfusion
  exact ⟨_, rest, hlexeme⟩

theorem every_scanned {limit : Nat} {source : String} {es : List Expr}
    (hread : readProgram limit (scan source) = .ok es)
    (hplain : ∀ e ∈ es, e.Every fun a => ¬a.IsInfinite) :
    ∀ e ∈ es, e.Every fun a => Scanned a ∧ ¬a.IsInfinite := fun e he =>
  (hplain e he).of_flatten fun _ _ hmem =>
    scanned_of_readProgram hread (Expr.flatten_subset_flattenEach he hmem)

theorem depth_le_of_readProgram {limit : Nat} {source : String} {es : List Expr}
    (hread : readProgram limit (scan source) = .ok es) :
    es ≠ [] ∧ ∀ e ∈ es, e.depth ≤ limit := by
  obtain ⟨ts, lastLine, hscan, hts⟩ := scan_eq_append source
  rw [hscan, readProgram_eq_ok_iff hts] at hread
  exact ⟨hread.1, fun e he => (hread.2.1 e he).2⟩

theorem exists_readProgram_programText {limit : Nat} {es : List Expr} (hne : es ≠ [])
    (hdepth : ∀ e ∈ es, e.depth ≤ limit)
    (hatoms : ∀ e ∈ es, e.Every fun a => Scanned a ∧ ¬a.IsInfinite) :
    ∃ text fs, Expr.programText es = .ok text ∧ readProgram limit (scan text) = .ok fs ∧
      List.Forall₂ Expr.Reprints es fs := by
  obtain ⟨texts, shapes, hprinted⟩ :=
    Expr.exists_printedEach fun e he => Expr.exists_printed (hatoms e he)
  obtain ⟨ts, line, hscan, hts⟩ := scan_eq_append (.ofList ([' '].intercalate texts))
  obtain ⟨fs, hclean, hdepths, hfits, hreprints⟩ := hprinted.reads ts (hprinted.shapes_eq hscan)
  refine ⟨.ofList ([' '].intercalate texts), fs, ?_, ?_, hreprints⟩
  · rw [Expr.programText, hprinted.text_eq]
    refine congrArg Except.ok (String.toList_inj.mp ?_)
    simp [String.toList_intercalate, List.map_map, Function.comp_def]
  · rw [hscan, readProgram_eq_ok_iff hts]
    refine ⟨?_, fun f hf => ⟨.clean (hclean f hf), ?_⟩, hfits⟩
    · rintro rfl
      exact hne (List.forall₂_nil_right_iff.mp hreprints)
    · calc f.depth ≤ Expr.depthEach fs := Expr.depth_le_depthEach hf
        _ = Expr.depthEach es := hdepths
        _ ≤ limit := Expr.depthEach_le hdepth

/-- A program in print is read again, as the same program but for the numbers that print cannot
show in full. -/
theorem readProgram_programText {limit : Nat} {source : String} {es : List Expr}
    (hread : readProgram limit (scan source) = .ok es)
    (hplain : ∀ e ∈ es, e.Every fun a => ¬a.IsInfinite) :
    ∃ text fs, Expr.programText es = .ok text ∧ readProgram limit (scan text) = .ok fs ∧
      List.Forall₂ Expr.Reprints es fs := by
  have hatoms := every_scanned hread hplain
  obtain ⟨hne, hdepth⟩ := depth_le_of_readProgram hread
  exact exists_readProgram_programText hne hdepth hatoms

theorem readProgram_programText_touching :
    let es : List Expr := [.list 0 [.atom 0 (.boolean true), .atom 0 (.symbol "x\"a")],
      .atom 0 (.string "b(" false)]
    ∃ text fs, Expr.programText es = .ok text ∧ readProgram 10 (scan text) = .ok fs ∧
      List.Forall₂ Expr.Reprints es fs := by
  have hscan : scan "(#tx\"a)\"b(" = [⟨0, .leftParen⟩, ⟨0, .atom (.boolean true)⟩,
      ⟨0, .atom (.symbol "x\"a")⟩, ⟨0, .rightParen⟩, ⟨0, .atom (.string "b(" false)⟩,
      ⟨0, .endOfInput⟩] := by decide +kernel
  refine @readProgram_programText 10 "(#tx\"a)\"b(" _ ?_ ?_
  · rw [hscan, readProgram_eq_ok, Read.program_of_ok (Read.next_of_onStack rfl), if_neg (by decide),
      Read.program_of_ok (Read.next_of_onStack rfl), if_pos (by decide)]
    rfl
  simp only [List.forall_mem_cons, List.not_mem_nil, false_imp_iff, implies_true, and_true]
  refine ⟨.list 0 ?_, .atom 0 id⟩
  simp only [List.forall_mem_cons, List.not_mem_nil, false_imp_iff, implies_true, and_true]
  exact ⟨.atom 0 id, .atom 0 id⟩

end MiniScheme
