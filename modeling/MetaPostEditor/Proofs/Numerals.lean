import MetaPostEditor.Numeral
import Mathlib.Tactic.IntervalCases
import Mathlib.Tactic.Lemma

/-!
# Reading and writing numbers

A character is read as a digit exactly if it is the digit that the value is written with, or that
digit as a capital letter (`Numeral.digit?_eq_some_iff`).  So a number that was written in a radix
up to sixteen is read back (`Numeral.digits?_toDigits`, `Numeral.read?_toDigits`).
-/

namespace MetaPostEditor
namespace Numeral

variable {radix : Nat}

lemma digit?_eq_some_iff (hradix : radix ≤ 16) {c : Char} {d : Nat} :
    digit? radix c = some d ↔ d < radix ∧ (c = d.digitChar ∨ c = d.digitChar.toUpper) := by
  rw [digit?, Option.filter_eq_some_iff, decide_eq_true_eq, and_comm, and_congr_right_iff]
  intro hd
  have hlt : d < 16 := by omega
  constructor
  · intro hvalue
    -- the character is known by the place of its code point in one of the three ranges
    have hchar : ∀ n, c.toNat = n → c = Char.ofNat n := by
      rintro n rfl
      exact (Char.ofNat_toNat c).symm
    split at hvalue
    · next h =>
      have hge : 48 ≤ c.toNat := UInt32.le_iff_toNat_le.1 h.1
      have hle : c.toNat ≤ 57 := UInt32.le_iff_toNat_le.1 h.2
      have hcode : c.toNat - 48 = d := Option.some.inj hvalue
      left
      rw [hchar (d + 48) (by omega)]
      have hten : d < 10 := by omega
      interval_cases d <;> rfl
    split at hvalue
    · next h =>
      have hge : 97 ≤ c.toNat := UInt32.le_iff_toNat_le.1 h.1
      have hcode : c.toNat - 97 + 10 = d := Option.some.inj hvalue
      left
      rw [hchar (d + 87) (by omega)]
      have hten : 10 ≤ d := by omega
      interval_cases d <;> rfl
    split at hvalue
    · next h =>
      have hge : 65 ≤ c.toNat := UInt32.le_iff_toNat_le.1 h.1
      have hcode : c.toNat - 65 + 10 = d := Option.some.inj hvalue
      right
      rw [hchar (d + 55) (by omega)]
      have hten : 10 ≤ d := by omega
      interval_cases d <;> rfl
    · cases hvalue
  · intro hc
    interval_cases d <;> rcases hc with rfl | rfl <;> rfl

lemma digit?_digitChar (hradix : radix ≤ 16) {d : Nat} (hd : d < radix) :
    digit? radix d.digitChar = some d :=
  (digit?_eq_some_iff hradix).2 ⟨hd, .inl rfl⟩

lemma digits?_append (acc : Nat) (as bs : List Char) :
    digits? radix acc (as ++ bs) = (digits? radix acc as).bind fun n => digits? radix n bs := by
  induction as generalizing acc with
  | nil => rfl
  | cons c as ih =>
    rw [List.cons_append, digits?, digits?]
    cases digit? radix c with
    | none => rfl
    | some d => exact ih _

lemma exists_digit?_of_mem {acc n : Nat} {cs : List Char} (h : digits? radix acc cs = some n)
    {c : Char} (hc : c ∈ cs) : ∃ d, digit? radix c = some d := by
  induction cs generalizing acc with
  | nil => cases hc
  | cons e cs ih =>
    rw [digits?, Option.bind_eq_bind, Option.bind_eq_some_iff] at h
    obtain ⟨d, hd, hrest⟩ := h
    rcases List.mem_cons.1 hc with rfl | hc
    · exact ⟨d, hd⟩
    · exact ih hrest hc

/-- Digits give back the number that was written with them. -/
lemma digits?_toDigits (hone : 1 < radix) (hradix : radix ≤ 16) (n : Nat) :
    digits? radix 0 (radix.toDigits n) = some n := by
  -- all but the last digit are those of `n / radix`
  induction n using Nat.strong_induction_on with
  | _ n ih =>
    by_cases hn : n < radix
    · rw [Nat.toDigits_of_lt_base hn, digits?, digit?_digitChar hradix hn]
      simp [digits?]
    · have hlast : n % radix < radix := Nat.mod_lt n (by omega)
      rw [Nat.toDigits_of_base_le hone (by omega), digits?_append,
        ih (n / radix) (Nat.div_lt_self (by omega) hone), Option.bind_some, digits?,
        digit?_digitChar hradix hlast]
      simp [digits?, Nat.div_add_mod']

lemma read?_of_head {c : Char} (hc : c ≠ '+') (bound : Nat) (cs : List Char) :
    read? radix bound (c :: cs) = (digits? radix 0 (c :: cs)).filter (· < bound) := by
  simp [read?, hc]

lemma lt_of_read? {bound n : Nat} {text : List Char} (h : read? radix bound text = some n) :
    n < bound := by
  unfold read? at h
  extract_lets digits at h
  split at h
  · cases h
  · simpa using (Option.filter_eq_some_iff.1 h).2

lemma read?_plus (bound : Nat) (c : Char) (cs : List Char) :
    read? radix bound ('+' :: c :: cs) = (digits? radix 0 (c :: cs)).filter (· < bound) := rfl

lemma digit?_plus : digit? radix '+' = none := rfl

/-- A number below the bound is read as it was written. -/
lemma read?_toDigits (hone : 1 < radix) (hradix : radix ≤ 16) {n bound : Nat} (h : n < bound) :
    read? radix bound (radix.toDigits n) = some n := by
  have hread := digits?_toDigits hone hradix n
  obtain ⟨c, cs, hcs⟩ := List.exists_cons_of_ne_nil (Nat.toDigits_ne_nil (n := n) (b := radix))
  rw [hcs] at hread ⊢
  have hsign : c ≠ '+' := by
    rintro rfl
    rw [digits?, digit?_plus] at hread
    cases hread
  rw [read?_of_head hsign, hread]
  simp [Option.filter, h]

end Numeral
end MetaPostEditor
