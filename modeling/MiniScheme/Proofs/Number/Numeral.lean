import MiniScheme.Proofs.Token.Grammar

/-! The printed form of a double that is not negative is a numeral again, and the numeral of a whole
number stands for that number. -/

namespace MiniScheme

def Double.IsInteger : Double → Prop
  | .finite _ u _ => unitsPerOne ∣ u
  | _ => False

def Double.IsInfinite : Double → Prop
  | .infinite _ => True
  | _ => False

namespace Lexical

theorem isDigit_toDigits {n : Nat} {c : Char} (h : c ∈ Nat.toDigits 10 n) : IsDigit c :=
  (isDigit_iff c).mp (Nat.isDigit_of_mem_toDigits (by decide) (by decide) h)

theorem isDigit_threeDigits {n : Nat} {c : Char} (h : c ∈ (Numeral.threeDigits n).toList) :
    IsDigit c := by
  have hdigit : ∀ k, IsDigit (k % 10).digitChar := by
    intro k
    rw [← isDigit_iff, Nat.isDigit_digitChar]
    exact decide_eq_true (Nat.mod_lt k (by decide))
  simp only [Numeral.threeDigits, String.toList_ofList, List.mem_cons, List.not_mem_nil,
    or_false] at h
  rcases h with rfl | rfl | rfl
  · exact hdigit (n / 100)
  · exact hdigit (n / 10)
  · exact hdigit n

theorem beginsIn_toDigits (n : Nat) (cs : List Char) :
    BeginsIn IsDigit (Nat.toDigits 10 n ++ cs) := by
  obtain ⟨c, ds, heq⟩ := List.exists_cons_of_ne_nil (@Nat.toDigits_ne_nil n 10)
  have hc : IsDigit c := isDigit_toDigits (heq ▸ List.mem_cons_self)
  rw [heq, List.cons_append, beginsIn_cons]
  exact hc

theorem nearest_toDigits {u : Nat} (h : Representable u) (hu : unitsPerOne ∣ u) :
    Numeral.nearest (Nat.toDigits 10 (u / unitsPerOne)) [] = .finite false u h := by
  -- the count is on the grid already, so rounding does nothing
  have hgrid : Grid.nearest u 1 = u := Grid.nearest_of_onGrid h.onGrid
  have hpow : Nat.pow 10 ([] : List Char).length = 1 := rfl
  simp only [Numeral.nearest, List.append_nil, Nat.ofDigitChars_ten_toDigits, hpow,
    Nat.div_mul_cancel hu, Double.ofQuotient, hgrid, dif_pos h.lt_limit]

structure IsNumeral (text : List Char) (y : Double) : Prop where
  first : BeginsIn IsDigit text
  chars : ∀ c ∈ text, IsNumeric c
  value : Denotes text (some y)

theorem isNumeral_whole (k : Nat) :
    IsNumeral k.repr.toList (Numeral.nearest (Nat.toDigits 10 k) []) := by
  rw [Nat.toList_repr]
  refine ⟨?_, fun c hc => .inl (isDigit_toDigits hc),
    denotes_whole Nat.toDigits_ne_nil fun c => isDigit_toDigits⟩
  simpa using beginsIn_toDigits k []

theorem isNumeral_fixed (n : Nat) :
    IsNumeral (Numeral.fixed false n).toList
      (Numeral.nearest (Nat.toDigits 10 (n / 1000)) (Numeral.threeDigits (n % 1000)).toList) := by
  have htext : (Numeral.fixed false n).toList =
      Nat.toDigits 10 (n / 1000) ++ '.' :: (Numeral.threeDigits (n % 1000)).toList := by
    simp [Numeral.fixed]
  rw [htext]
  refine ⟨beginsIn_toDigits _ _, fun c hc => ?_, denotes_fraction Nat.toDigits_ne_nil
    (fun c => isDigit_toDigits) fun c => isDigit_threeDigits⟩
  rcases List.mem_append.mp hc with hc | hc
  · exact .inl (isDigit_toDigits hc)
  · rcases List.mem_cons.mp hc with rfl | hc
    · exact .inr rfl
    · exact .inl (isDigit_threeDigits hc)

/-- What is printed for a finite double is a numeral, and a whole number is its own value. -/
theorem isNumeral_text (u : Nat) (h : Representable u) :
    ∃ y, IsNumeral (Double.finite false u h).text.toList y ∧
      ((Double.finite false u h).IsInteger → y = .finite false u h) := by
  by_cases hu : u % unitsPerOne = 0
  · have htext : (Double.finite false u h).text = (u / unitsPerOne).repr := by
      simp only [Double.text, if_pos hu]
      rfl
    rw [htext]
    exact ⟨_, isNumeral_whole _, nearest_toDigits h⟩
  · have htext : (Double.finite false u h).text =
        Numeral.fixed false (roundDiv (u * 1000) unitsPerOne) := by
      simp only [Double.text, if_neg hu]
    rw [htext]
    exact ⟨_, isNumeral_fixed _, fun hint => absurd (Nat.mod_eq_zero_of_dvd hint) hu⟩

theorem Denotes.finite_or_infinite {cs : List Char} {x : Double} (h : Denotes cs (some x)) :
    (∃ u hu, x = .finite false u hu) ∨ x = .infinite false := by
  cases h with
  | nearest _ _ hnearest =>
    cases hnearest with
    | finite hu => exact .inl ⟨_, hu, rfl⟩
    | infinite => exact .inr rfl

end Lexical
end MiniScheme
