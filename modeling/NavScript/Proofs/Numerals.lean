import Mathlib
import NavScript.Literal.Arithmetic
import NavScript.Proofs.Scanning

/-!
# Decimal numerals

A decimal numeral is an optional minus sign, digits, and optionally a point and digits. `numeral?` reads its
value. Integers and finite binary values are written as numerals: an integer as itself
(`numeral?_int`), a binary value as the decimal with the fewest digits (`numeral?_text`). What is written of
the other binary values is no numeral.
-/

namespace NavScript.Decimal

open Float.Model (Format UnpackedFloat)
open Float.Model.UnpackedFloat (Sign)

variable {whole fraction cs : List Char}

/-- The integer that digits denote. -/
def wholeValue (ds : List Char) : ℕ := Nat.ofDigitChars 10 ds 0

/-- The value of a numeral without sign. -/
def unsigned? (cs : List Char) : Option ℚ :=
  let whole := cs.takeWhile Char.isDigit
  if whole = [] then none
  else
    match cs.dropWhile Char.isDigit with
    | [] => some (wholeValue whole)
    | '.' :: fraction =>
      if fraction ≠ [] ∧ fraction.all Char.isDigit then
        some (wholeValue (whole ++ fraction) / 10 ^ fraction.length)
      else none
    | _ => none

def signed? : List Char → Option ℚ
  | '-' :: cs => (unsigned? cs).map (- ·)
  | cs => unsigned? cs

/-- The value of a decimal numeral. -/
def numeral? (text : String) : Option ℚ := signed? text.toList

/-- The text is a decimal numeral. -/
def IsNumeral (text : String) : Prop := (numeral? text).isSome

instance (text : String) : Decidable (IsNumeral text) := by unfold IsNumeral; infer_instance

/-- A run of digits. -/
structure AreDigits (ds : List Char) : Prop where
  nonempty : ds ≠ []
  digits : ∀ c ∈ ds, c.isDigit = true

theorem unsigned?_whole (h : AreDigits whole) : unsigned? whole = some (wholeValue whole : ℚ) := by
  have taken := takeWhile_run h.digits stopped_nil
  have dropped := dropWhile_run h.digits stopped_nil
  rw [List.append_nil] at taken dropped
  unfold unsigned?
  simp only [taken, dropped, h.nonempty, if_false]

theorem unsigned?_point (h : AreDigits whole) (h' : AreDigits fraction) :
    unsigned? (whole ++ '.' :: fraction) =
      some ((wholeValue (whole ++ fraction) : ℚ) / 10 ^ fraction.length) := by
  have stopped : Stopped Char.isDigit ('.' :: fraction) := stopped_cons (by decide) _
  unfold unsigned?
  simp only [takeWhile_run h.digits stopped, dropWhile_run h.digits stopped, h.nonempty, if_false]
  rw [if_pos ⟨h'.nonempty, List.all_eq_true.2 h'.digits⟩]

/-- What is read without sign is a run of digits, with a point and another run behind it or without. -/
theorem unsigned?_isSome_iff : (unsigned? cs).isSome ↔
    ∃ whole, AreDigits whole ∧
      (cs = whole ∨ ∃ fraction, AreDigits fraction ∧ cs = whole ++ '.' :: fraction) := by
  constructor
  · intro read
    have parts := List.takeWhile_append_dropWhile (p := Char.isDigit) (l := cs)
    have run : ∀ c ∈ cs.takeWhile Char.isDigit, c.isDigit = true := fun c => List.mem_takeWhile_imp
    unfold unsigned? at read
    generalize cs.takeWhile Char.isDigit = whole at *
    generalize cs.dropWhile Char.isDigit = rest at *
    simp only at read
    split at read
    · cases read
    rename_i nonempty
    refine ⟨whole, ⟨nonempty, run⟩, ?_⟩
    split at read
    · exact .inl (by rw [← parts, List.append_nil])
    · rename_i fraction
      split at read
      · rename_i h
        exact .inr ⟨fraction, ⟨h.1, List.all_eq_true.1 h.2⟩, parts.symm⟩
      · cases read
    · cases read
  · rintro ⟨whole, h, rfl | ⟨fraction, h', rfl⟩⟩
    · rw [unsigned?_whole h]
      rfl
    · rw [unsigned?_point h h']
      rfl

/-- A value under a sign. -/
def withSign : Sign → ℚ → ℚ
  | .negative, q => -q
  | .positive, q => q

theorem numeral?_of_sign {text : String} {q : ℚ} (s : Sign) (h : unsigned? cs = some q)
    (ht : text.toList = (Layout.signText s).toList ++ cs) : numeral? text = some (withSign s q) := by
  unfold numeral?
  rw [ht]
  cases s with
  | negative => exact congrArg (Option.map _) h
  | positive =>
    have unlike : ∀ rest, cs ≠ '-' :: rest := by
      rintro rest rfl
      simp [unsigned?] at h
    show signed? cs = some q
    unfold signed?
    split
    · exact absurd rfl (unlike _)
    · exact h

/-- A numeral is an optional minus sign, digits, and optionally a point and digits. -/
theorem isNumeral_iff {text : String} : IsNumeral text ↔ ∃ s whole, AreDigits whole ∧
    (text.toList = (Layout.signText s).toList ++ whole ∨ ∃ fraction, AreDigits fraction ∧
      text.toList = (Layout.signText s).toList ++ (whole ++ '.' :: fraction)) := by
  constructor
  · intro read
    unfold IsNumeral numeral? signed? at read
    split at read
    · rename_i cs ht
      rw [Option.isSome_map] at read
      obtain ⟨whole, h, rfl | ⟨fraction, h', rfl⟩⟩ := unsigned?_isSome_iff.1 read
      · exact ⟨.negative, _, h, .inl ht⟩
      · exact ⟨.negative, _, h, .inr ⟨_, h', ht⟩⟩
    · obtain ⟨whole, h, ht | ⟨fraction, h', ht⟩⟩ := unsigned?_isSome_iff.1 read
      · exact ⟨.positive, _, h, .inl ht⟩
      · exact ⟨.positive, _, h, .inr ⟨_, h', ht⟩⟩
  · rintro ⟨s, whole, h, ht | ⟨fraction, h', ht⟩⟩
    · rw [IsNumeral, numeral?_of_sign s (unsigned?_whole h) ht]
      rfl
    · rw [IsNumeral, numeral?_of_sign s (unsigned?_point h h') ht]
      rfl

theorem areDigits_toDigits (n : ℕ) : AreDigits (Nat.toDigits 10 n) :=
  ⟨Nat.toDigits_ne_nil, fun _ hc => Nat.isDigit_of_mem_toDigits (by decide) (by decide) hc⟩

theorem wholeValue_toDigits (n : ℕ) : wholeValue (Nat.toDigits 10 n) = n :=
  Nat.ofDigitChars_toDigits (by decide) (by decide)

theorem areDigits_append_zeros (h : AreDigits whole) (k : ℕ) : AreDigits (whole ++ List.replicate k '0') := by
  refine ⟨List.append_ne_nil_of_left_ne_nil h.nonempty _, fun c hc => ?_⟩
  rcases List.mem_append.1 hc with hc | hc
  · exact h.digits c hc
  · rw [List.eq_of_mem_replicate hc]
    decide

theorem areDigits_zeros_append (h : AreDigits whole) (k : ℕ) : AreDigits (List.replicate k '0' ++ whole) := by
  refine ⟨List.append_ne_nil_of_right_ne_nil _ h.nonempty, fun c hc => ?_⟩
  rcases List.mem_append.1 hc with hc | hc
  · rw [List.eq_of_mem_replicate hc]
    decide
  · exact h.digits c hc

theorem wholeValue_zeros_append (k : ℕ) (ds : List Char) :
    wholeValue (List.replicate k '0' ++ ds) = wholeValue ds := by
  rw [wholeValue, Nat.ofDigitChars_append, Nat.ofDigitChars_replicate_zero, Nat.mul_zero, wholeValue]

theorem wholeValue_append_zeros (ds : List Char) (k : ℕ) :
    wholeValue (ds ++ List.replicate k '0') = wholeValue ds * 10 ^ k := by
  rw [wholeValue, Nat.ofDigitChars_append, Nat.ofDigitChars_replicate_zero, Nat.mul_comm, wholeValue]

/-- An integer is written as a numeral that denotes it. -/
theorem numeral?_int (v : ℤ) : numeral? (toString v) = some (v : ℚ) := by
  have text (n : ℕ) : (toString n).toList = Nat.toDigits 10 n := by
    rw [Nat.toString_eq_ofList_toDigits, String.toList_ofList]
  have read (s : Sign) (n : ℕ) (ht : (toString v).toList = (Layout.signText s).toList ++ Nat.toDigits 10 n) :
      numeral? (toString v) = some (withSign s n) := by
    rw [numeral?_of_sign s (unsigned?_whole (areDigits_toDigits n)) ht, wholeValue_toDigits]
  obtain n | n := v
  · exact read .positive n (text n)
  · have ht : (toString (Int.negSucc n)).toList = '-' :: Nat.toDigits 10 (n + 1) := by
      rw [← text]
      exact String.toList_append
    rw [read .negative (n + 1) ht, Int.cast_negSucc]
    rfl

theorem isNumeral_int (v : ℤ) : IsNumeral (toString v) := by
  rw [IsNumeral, numeral?_int]
  rfl

/-- Zeros behind digits multiply. -/
theorem unsigned?_padded (h : AreDigits whole) (k : ℕ) :
    unsigned? (whole ++ List.replicate k '0') = some (wholeValue whole * 10 ^ k : ℚ) := by
  rw [unsigned?_whole (areDigits_append_zeros h k), wholeValue_append_zeros, Nat.cast_mul, Nat.cast_pow]
  rfl

/-- A point before the last digits divides. -/
theorem unsigned?_inner {k split : ℕ} (h : AreDigits whole) (front : 0 < split) (back : 0 < k)
    (cut : split + k = whole.length) :
    unsigned? (whole.take split ++ '.' :: whole.drop split) = some (wholeValue whole / 10 ^ k : ℚ) := by
  have taken : AreDigits (whole.take split) := by
    refine ⟨?_, fun c hc => h.digits c (List.mem_of_mem_take hc)⟩
    rw [Ne, List.take_eq_nil_iff]
    rintro (rfl | empty)
    · omega
    · exact h.nonempty empty
  have dropped : AreDigits (whole.drop split) := by
    refine ⟨?_, fun c hc => h.digits c (List.mem_of_mem_drop hc)⟩
    rw [Ne, List.drop_eq_nil_iff]
    omega
  have places : (whole.drop split).length = k := by
    rw [List.length_drop]
    omega
  rw [unsigned?_point taken dropped, List.take_append_drop, places]

/-- A point before all digits, and zeros between, divide. -/
theorem unsigned?_outer {k : ℕ} (h : AreDigits whole) (short : whole.length ≤ k) :
    unsigned? (['0'] ++ '.' :: (List.replicate (k - whole.length) '0' ++ whole)) =
      some (wholeValue whole / 10 ^ k : ℚ) := by
  have zero : AreDigits ['0'] := ⟨by decide, List.all_eq_true.1 (by decide)⟩
  have places : (List.replicate (k - whole.length) '0' ++ whole).length = k := by
    rw [List.length_append, List.length_replicate]
    omega
  rw [unsigned?_point zero (areDigits_zeros_append h _), places, ← List.replicate_one,
    wholeValue_zeros_append, wholeValue_zeros_append]

/-- A decimal is written without exponent as a numeral that denotes it. -/
theorem unsigned?_positionalText (d : Digits) :
    unsigned? (Layout.plain.positionalText d).toList = some (d.digits * 10 ^ d.exponent : ℚ) := by
  have digits := areDigits_toDigits d.digits
  have whole : (wholeValue (Nat.toDigits 10 d.digits) : ℚ) = d.digits := by rw [wholeValue_toDigits]
  unfold Layout.positionalText
  dsimp only
  split
  · rename_i up
    obtain ⟨k, hk⟩ := Int.eq_ofNat_of_zero_le up
    have text : (String.ofList (Nat.toDigits 10 d.digits ++ List.replicate d.exponent.toNat '0') ++
        Layout.plain.whole).toList = Nat.toDigits 10 d.digits ++ List.replicate k '0' := by
      simp [Layout.plain, hk]
    rw [text, unsigned?_padded digits, whole, hk]
    rfl
  rename_i down
  obtain ⟨k, hk⟩ : ∃ k : ℕ, d.exponent = -k := ⟨(-d.exponent).toNat, by omega⟩
  have places : (-d.exponent).toNat = k := by omega
  have value : (d.digits * 10 ^ d.exponent : ℚ) = d.digits / 10 ^ k := by
    rw [hk, zpow_neg, zpow_natCast, div_eq_mul_inv]
  rw [value, places]
  split
  · rename_i inside
    rw [String.toList_ofList, unsigned?_inner digits (by omega) (by omega) (Nat.sub_add_cancel inside.le),
      whole]
  · rename_i outside
    rw [String.toList_ofList, ← whole]
    exact unsigned?_outer digits (by omega)

/-- The value that is written of a binary value. -/
def written? (format : Format) : UnpackedFloat → Option ℚ
  | .finite s m e _ =>
    let d := (Binary.ofFormat format m e).shortest
    some (withSign s (d.digits * 10 ^ d.exponent))
  | .zero _ => some 0
  | _ => none

/-- A binary value is written as a numeral exactly if it is finite. -/
theorem numeral?_text (format : Format) (x : UnpackedFloat) :
    numeral? (Layout.plain.text format x) = written? format x := by
  cases x with
  | notANumber => exact (by decide : numeral? "NaN" = none)
  | infinity s =>
    show numeral? (Layout.signText s ++ "inf") = none
    cases s <;> decide
  | zero s =>
    show numeral? (Layout.signText s ++ "0" ++ "") = some 0
    cases s <;> decide
  | finite s m e positive =>
    rw [Layout.text, written?]
    generalize (Binary.ofFormat format m e).shortest = d
    exact numeral?_of_sign s (unsigned?_positionalText d) String.toList_append

theorem isNumeral_text_iff (format : Format) (x : UnpackedFloat) :
    IsNumeral (Layout.plain.text format x) ↔ x.isFinite = true := by
  unfold IsNumeral
  rw [numeral?_text]
  cases x with
  | finite | zero => exact iff_of_true rfl rfl
  | infinity | notANumber => exact iff_of_false Bool.false_ne_true Bool.false_ne_true

end NavScript.Decimal
