import MetaPostEditor.Proofs.Numerals
import MetaPostEditor.Terminal.Color

/-!
# Colours in hexadecimal digits

A colour can be given by the two hexadecimal digits of each of its parts, with at most one `#` in
front.  The digits are read as numerals, and a numeral may have a plus sign in front.  So each part
may also be a plus sign and a single digit.

The main result is `Terminal.Color.hex?_exactly`: what is read in either way is the colour that is
written, all other texts are refused, and the plus sign is the only thing in which the texts that
are read differ from those with six digits.  `Terminal.Color.hex?_plus_signs` is such a text.
-/

namespace MetaPostEditor
namespace Terminal
namespace Color

/-- The character is the hexadecimal digit `d`, as a small or as a capital letter if it is one. -/
def IsDigit (c : Char) (d : Nat) : Prop :=
  d < 16 ∧ (c = d.digitChar ∨ c = d.digitChar.toUpper)

/-- The two hexadecimal digits of a byte. -/
def Pair (high low : Char) (n : UInt8) : Prop :=
  ∃ h l, IsDigit high h ∧ IsDigit low l ∧ n.toNat = 16 * h + l

/-- A plus sign and one digit. -/
def Signed (high low : Char) (n : UInt8) : Prop :=
  high = '+' ∧ IsDigit low n.toNat

/-- At most one `#`, and six characters behind it of which each two write a part of the colour. -/
def Triple (Part : Char → Char → UInt8 → Prop) (text : List Char) (r g b : UInt8) : Prop :=
  ∃ r₁ r₂ g₁ g₂ b₁ b₂,
    (text = [r₁, r₂, g₁, g₂, b₁, b₂] ∨ text = ['#', r₁, r₂, g₁, g₂, b₁, b₂]) ∧
      Part r₁ r₂ r ∧ Part g₁ g₂ g ∧ Part b₁ b₂ b

variable {high low : Char} {n : UInt8} {text : List Char} {r g b : UInt8}

/-! ## One part -/

lemma digit?_iff {c : Char} {d : Nat} : Numeral.digit? 16 c = some d ↔ IsDigit c d :=
  Numeral.digit?_eq_some_iff le_rfl

lemma IsDigit.ne {c e : Char} {d : Nat} (h : IsDigit c d) (he : Numeral.digit? 16 e = none) :
    c ≠ e := by
  rintro rfl
  rw [digit?_iff.2 h] at he
  cases he

lemma digits?_one {d : Nat} : Numeral.digits? 16 0 [low] = some d ↔ IsDigit low d := by
  simp [Numeral.digits?, digit?_iff]

lemma digits?_two {d : Nat} :
    Numeral.digits? 16 0 [high, low] = some d ↔
      ∃ h l, IsDigit high h ∧ IsDigit low l ∧ d = 16 * h + l := by
  simp only [Numeral.digits?, Option.bind_eq_bind, Option.bind_eq_some_iff, digit?_iff,
    Option.some.injEq]
  constructor
  · rintro ⟨h, hh, l, hl, rfl⟩
    exact ⟨h, l, hh, hl, by omega⟩
  · rintro ⟨h, l, hh, hl, rfl⟩
    exact ⟨h, hh, l, hl, by omega⟩

/-- No numeral of two characters is too large for a byte. -/
lemma read?_two {d : Nat} :
    Numeral.read? 16 UInt8.size [high, low] = some d ↔
      (∃ h l, IsDigit high h ∧ IsDigit low l ∧ d = 16 * h + l) ∨ high = '+' ∧ IsDigit low d := by
  by_cases hsign : high = '+'
  · subst hsign
    rw [Numeral.read?_plus, Option.filter_eq_some_iff, digits?_one, decide_eq_true_eq]
    constructor
    · rintro ⟨hl, -⟩
      exact .inr ⟨rfl, hl⟩
    · rintro (⟨h, l, hh, -, -⟩ | ⟨-, hl⟩)
      · exact absurd rfl (hh.ne Numeral.digit?_plus)
      · exact ⟨hl, hl.1.trans (by decide)⟩
  · rw [Numeral.read?_of_head hsign, Option.filter_eq_some_iff, digits?_two, decide_eq_true_eq]
    constructor
    · rintro ⟨hpair, -⟩
      exact .inl hpair
    · rintro (⟨h, l, hh, hl, rfl⟩ | ⟨hplus, -⟩)
      · have hlt : 16 * h + l < 256 := by
          have hh' := hh.1
          have hl' := hl.1
          omega
        exact ⟨⟨h, l, hh, hl, rfl⟩, hlt⟩
      · exact absurd hplus hsign

/-- A part is read if it is written in one of the two ways. -/
lemma channel?_iff : channel? high low = some n ↔ Pair high low n ∨ Signed high low n := by
  rw [channel?, Option.map_eq_some_iff]
  constructor
  · rintro ⟨d, hread, rfl⟩
    have hd : d < UInt8.size := Numeral.lt_of_read? hread
    rw [read?_two] at hread
    rwa [Pair, Signed, UInt8.toNat_ofNat_of_lt' hd]
  · intro h
    exact ⟨n.toNat, read?_two.2 h, UInt8.ofNat_toNat⟩

lemma channel?_hash (low : Char) : channel? '#' low = none := rfl

/-! ## Three parts -/

lemma parts?_iff {digits : List Char} {c : Color} :
    parts? digits = some c ↔
      ∃ r₁ r₂ g₁ g₂ b₁ b₂, digits = [r₁, r₂, g₁, g₂, b₁, b₂] ∧
        ∃ r g b, c = rgb r g b ∧
          channel? r₁ r₂ = some r ∧ channel? g₁ g₂ = some g ∧ channel? b₁ b₂ = some b := by
  constructor
  · intro h
    unfold parts? at h
    split at h
    · next r₁ r₂ g₁ g₂ b₁ b₂ =>
      simp only [Option.bind_eq_bind, Option.bind_eq_some_iff, Option.pure_def,
        Option.some.injEq] at h
      obtain ⟨r, hr, g, hg, b, hb, rfl⟩ := h
      exact ⟨r₁, r₂, g₁, g₂, b₁, b₂, rfl, r, g, b, rfl, hr, hg, hb⟩
    · cases h
  · rintro ⟨r₁, r₂, g₁, g₂, b₁, b₂, rfl, r, g, b, rfl, hr, hg, hb⟩
    simp [parts?, hr, hg, hb]

lemma parts?_hash (digits : List Char) : parts? ('#' :: digits) = none := by
  rw [Option.eq_none_iff_forall_ne_some]
  intro c h
  obtain ⟨r₁, r₂, g₁, g₂, b₁, b₂, heq, r, g, b, -, hr, -, -⟩ := parts?_iff.1 h
  rw [← (List.cons.inj heq).1, channel?_hash] at hr
  cases hr

lemma hex?_hash (digits : List Char) : hex? ('#' :: digits) = parts? digits := rfl

lemma hex?_of_head (h : text.head? ≠ some '#') : hex? text = parts? text := by
  unfold hex?
  split
  · exact absurd rfl h
  · rfl

/-- The six characters are the whole text, or all but the first one. -/
lemma hex?_cases {c : Color} :
    hex? text = some c ↔
      parts? text = some c ∨ ∃ digits, text = '#' :: digits ∧ parts? digits = some c := by
  by_cases hhead : text.head? = some '#'
  · obtain ⟨digits, rfl⟩ := List.head?_eq_some_iff.1 hhead
    simp [hex?_hash, parts?_hash]
  · rw [hex?_of_head hhead, or_iff_left]
    rintro ⟨digits, rfl, -⟩
    exact hhead rfl

/-- What is read is a colour of three parts, each written in one of the two ways. -/
lemma hex?_iff {c : Color} :
    hex? text = some c ↔
      ∃ r g b, c = rgb r g b ∧
        Triple (fun high low n => Pair high low n ∨ Signed high low n) text r g b := by
  simp only [hex?_cases, parts?_iff, channel?_iff, Triple]
  constructor
  · rintro (⟨r₁, r₂, g₁, g₂, b₁, b₂, rfl, r, g, b, rfl, hparts⟩ |
      ⟨_, rfl, r₁, r₂, g₁, g₂, b₁, b₂, rfl, r, g, b, rfl, hparts⟩)
    · exact ⟨r, g, b, rfl, r₁, r₂, g₁, g₂, b₁, b₂, .inl rfl, hparts⟩
    · exact ⟨r, g, b, rfl, r₁, r₂, g₁, g₂, b₁, b₂, .inr rfl, hparts⟩
  · rintro ⟨r, g, b, rfl, r₁, r₂, g₁, g₂, b₁, b₂, rfl | rfl, hparts⟩
    · exact .inl ⟨r₁, r₂, g₁, g₂, b₁, b₂, rfl, r, g, b, rfl, hparts⟩
    · exact .inr ⟨_, rfl, r₁, r₂, g₁, g₂, b₁, b₂, rfl, r, g, b, rfl, hparts⟩

/-! ## Plus signs -/

lemma Pair.notMem_plus (h : Pair high low n) : '+' ∉ [high, low] := by
  obtain ⟨d, e, hd, he, -⟩ := h
  have hhigh := hd.ne Numeral.digit?_plus
  have hlow := he.ne Numeral.digit?_plus
  simp [hhigh.symm, hlow.symm]

lemma Triple.notMem_plus (h : Triple Pair text r g b) : '+' ∉ text := by
  obtain ⟨r₁, r₂, g₁, g₂, b₁, b₂, htext, hr, hg, hb⟩ := h
  have hr' := hr.notMem_plus
  have hg' := hg.notMem_plus
  have hb' := hb.notMem_plus
  rcases htext with rfl | rfl <;> simp_all

/-- Without plus signs, all parts are written with two digits. -/
lemma Triple.of_notMem_plus
    (h : Triple (fun high low n => Pair high low n ∨ Signed high low n) text r g b)
    (hplus : '+' ∉ text) : Triple Pair text r g b := by
  obtain ⟨r₁, r₂, g₁, g₂, b₁, b₂, htext, hr, hg, hb⟩ := h
  have hne : r₁ ≠ '+' ∧ g₁ ≠ '+' ∧ b₁ ≠ '+' := by
    refine ⟨?_, ?_, ?_⟩ <;> rintro rfl <;> rcases htext with rfl | rfl <;> simp at hplus
  refine ⟨r₁, r₂, g₁, g₂, b₁, b₂, htext, ?_, ?_, ?_⟩
  · exact hr.resolve_right fun h => hne.1 h.1
  · exact hg.resolve_right fun h => hne.2.1 h.1
  · exact hb.resolve_right fun h => hne.2.2 h.1

/-- **Which texts are colours in hexadecimal digits.**  A text is read as a colour exactly if it is
at most one `#` and three parts of two characters, each of them two digits or a plus sign and one
digit, and then the colour has the values of these parts.  The texts without a plus sign among them
are exactly those in which six digits follow at most one `#`.  All other texts are refused. -/
theorem hex?_exactly (text : List Char) :
    (∀ r g b, hex? text = some (rgb r g b) ↔
      Triple (fun high low n => Pair high low n ∨ Signed high low n) text r g b) ∧
    (∀ r g b, Triple Pair text r g b ↔ hex? text = some (rgb r g b) ∧ '+' ∉ text) ∧
    (hex? text = none ∨ ∃ r g b, hex? text = some (rgb r g b)) := by
  have hread : ∀ r g b, hex? text = some (rgb r g b) ↔
      Triple (fun high low n => Pair high low n ∨ Signed high low n) text r g b := by
    intro r g b
    rw [hex?_iff]
    constructor
    · rintro ⟨_, _, _, heq, htriple⟩
      cases heq
      exact htriple
    · intro htriple
      exact ⟨r, g, b, rfl, htriple⟩
  refine ⟨hread, fun r g b => ⟨fun h => ⟨?_, h.notMem_plus⟩, ?_⟩, ?_⟩
  · obtain ⟨r₁, r₂, g₁, g₂, b₁, b₂, htext, hr, hg, hb⟩ := h
    exact (hread r g b).2 ⟨r₁, r₂, g₁, g₂, b₁, b₂, htext, .inl hr, .inl hg, .inl hb⟩
  · rintro ⟨hhex, hplus⟩
    exact ((hread r g b).1 hhex).of_notMem_plus hplus
  · cases hhex : hex? text with
    | none => exact .inl rfl
    | some c =>
      obtain ⟨r, g, b, rfl, -⟩ := hex?_iff.1 hhex
      exact .inr ⟨r, g, b, rfl⟩

/-- Three plus signs, each with a digit, are read as a colour, but they are not six digits. -/
theorem hex?_plus_signs :
    hex? "#+1+2+3".toList = some (rgb 1 2 3) ∧
      ¬ ∃ r g b, Triple Pair "#+1+2+3".toList r g b := by
  refine ⟨by decide, ?_⟩
  rintro ⟨r, g, b, h⟩
  exact h.notMem_plus (by decide)

end Color
end Terminal
end MetaPostEditor
