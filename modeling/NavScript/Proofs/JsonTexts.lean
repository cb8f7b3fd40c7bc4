import NavScript.Json.Floating
import NavScript.Json.Printer
import NavScript.Proofs.Scanning

/-!
# Reading what was written

A value is read back from its text as it was, except that a number written as a decimal fraction
may come back as another number: `reread` is what the text of a value is read as, and `parse?_render`
says so for all values that are not nested deeper than the reader goes. Each part of a text is read
up to a character that cannot belong to it, so what follows the part makes no difference.
-/

namespace NavScript.Json

/-! ## Strings -/

section Strings

variable {sound : Bool} {done cs : List Char}

/-- What stands between the quotes. -/
def escaped (cs : List Char) : List Char := cs.flatMap fun c => (escapeChar c).toList

theorem quote_toList (s : String) : (quote s).toList = '"' :: (escaped s.toList ++ ['"']) := by
  have gathered (cs : List Char) (text : String) :
      (cs.foldl (fun text c => text ++ escapeChar c) text).toList = text.toList ++ escaped cs := by
    induction cs generalizing text with
    | nil => simp [escaped]
    | cons c cs ih => simp [ih, escaped]
  simp [quote, String.foldl_eq_foldl_toList, gathered]

/-- A control is written with four hexadecimal digits that denote it. -/
theorem hexUnit?_hexPadded {n : Nat} (h : n < 0x20) :
    ∃ a b c d, (hexPadded n).toList = [a, b, c, d] ∧ hexUnit? a b c d = some n := by
  have digits : ∀ n < 0x20, let ds := (hexPadded n).toList
      ds = [ds.getD 0 '0', ds.getD 1 '0', ds.getD 2 '0', ds.getD 3 '0'] ∧
        hexUnit? (ds.getD 0 '0') (ds.getD 1 '0') (ds.getD 2 '0') (ds.getD 3 '0') = some n := by
    decide
  exact ⟨_, _, _, _, digits n h⟩

theorem pairChar?_low {high low : Nat} (h : high < 0xD800) : pairChar? high low = none := by
  have : ¬ 0xD800 ≤ high := by omega
  simp [pairChar?, this]

/-- An escape of four digits below the surrogates stands for its character, even where another
such escape follows. -/
theorem readString_unit {a b c d : Char} {n : Nat} (hn : hexUnit? a b c d = some n)
    (h : n < 0xD800) :
    readString sound done ('\\' :: 'u' :: a :: b :: c :: d :: cs) =
      readString sound (Char.ofNat n :: done) cs := by
  have plain : isSurrogate n = false := by
    have : ¬ 0xD800 ≤ n := by omega
    simp [isSurrogate, this]
  have alone (unit : Option Nat) : unit.bind (pairChar? n) = none := by
    cases unit with
    | none => rfl
    | some low => exact pairChar?_low h
  rw [readString.eq_def]
  split <;> rename_i h'
  · simp at h'
  · simp at h'
  · simp only [List.cons.injEq, true_and] at h'
    obtain ⟨rfl, rfl, rfl, rfl, rfl⟩ := h'
    simp only [hn, alone, plain, Bool.not_false, Bool.and_true]
  · simp only [List.cons.injEq, true_and] at h'
    obtain ⟨rfl, rfl, rfl, rfl, rfl⟩ := h'
    simp only [hn, plain, Bool.not_false, Bool.and_true]
  · rename_i _ noUnit
    simp only [List.cons.injEq, true_and] at h'
    exact absurd h'.2.symm (noUnit a b c d cs h'.1.symm)
  · rename_i _ _ noUnit _
    simp only [List.cons.injEq] at h'
    exact absurd h'.2.symm (noUnit a b c d cs h'.1.symm)

/-- An escape of one character stands for what it is listed with. -/
theorem readString_escape {e c : Char} (h : escapes.lookup e = some c) (hu : e ≠ 'u') :
    readString sound done ('\\' :: e :: cs) = readString sound (c :: done) cs := by
  rw [readString]
  · simp only [h]
  · intro a b c d e' f g h cs' hu'
    exact absurd hu' hu
  · intro a b c d cs' hu'
    exact absurd hu' hu

/-- What is neither a quote nor a backslash nor a control stands for itself. -/
theorem readString_plain {c : Char} (hq : c ≠ '"') (hb : c ≠ '\\') (hc : 0x20 ≤ c.toNat) :
    readString sound done (c :: cs) = readString sound (c :: done) cs := by
  have keep : (decide (c.toNat < 0x20) || c == '\\') = false := by
    simpa using ⟨hc, hb⟩
  rw [readString, keep]
  · rfl
  · exact hq
  all_goals
    intros
    exact absurd ‹c = '\\'› hb

/-- How characters are escaped: by one character, by four digits, or not at all. -/
theorem escapeChar_cases (c : Char) :
    (∃ e, e ≠ 'u' ∧ escapes.lookup e = some c ∧ (escapeChar c).toList = ['\\', e]) ∨
    (c.toNat < 0x20 ∧ (escapeChar c).toList = '\\' :: 'u' :: (hexPadded c.toNat).toList) ∨
    (c ≠ '"' ∧ c ≠ '\\' ∧ 0x20 ≤ c.toNat ∧ (escapeChar c).toList = [c]) := by
  by_cases listed : c ∈ ['"', '\\', '\n', '\r', '\t', '\x08', '\x0c']
  · left
    have found : (['"', '\\', '\n', '\r', '\t', '\x08', '\x0c'].all fun c =>
        (escapes.map (·.1)).any fun e => e != 'u' && escapes.lookup e == some c &&
          (escapeChar c).toList == ['\\', e]) = true := by decide
    simp only [List.all_eq_true, List.any_eq_true, Bool.and_eq_true, beq_iff_eq, bne_iff_ne] at found
    obtain ⟨e, -, ⟨hu, he⟩, text⟩ := found c listed
    exact ⟨e, hu, he, text⟩
  · simp only [List.mem_cons, List.not_mem_nil, or_false, not_or] at listed
    obtain ⟨hq, hb, hn, hr, ht, h8, hc⟩ := listed
    right
    by_cases control : c.toNat < 0x20
    · exact .inl ⟨control, by simp [escapeChar, hq, hb, hn, hr, ht, h8, hc, control]⟩
    · exact .inr ⟨hq, hb, by omega, by simp [escapeChar, hq, hb, hn, hr, ht, h8, hc, control]⟩

/-- A character is read from its escaped form. -/
theorem readString_escapeChar (c : Char) :
    readString sound done ((escapeChar c).toList ++ cs) = readString sound (c :: done) cs := by
  obtain ⟨e, hu, he, text⟩ | ⟨control, text⟩ | ⟨hq, hb, hc, text⟩ := escapeChar_cases c
  · rw [text]
    exact readString_escape he hu
  · obtain ⟨x, y, z, w, digits, hn⟩ := hexUnit?_hexPadded control
    rw [text, digits]
    have unit : readString sound done ('\\' :: 'u' :: x :: y :: z :: w :: cs) = _ :=
      readString_unit hn (by omega)
    simpa using unit
  · rw [text]
    exact readString_plain hq hb hc

theorem readString_escaped (s : List Char) :
    readString sound done (escaped s ++ cs) = readString sound (s.reverse ++ done) cs := by
  induction s generalizing done with
  | nil => rfl
  | cons c s ih =>
    rw [escaped, List.flatMap_cons, List.append_assoc, readString_escapeChar]
    refine ih.trans ?_
    simp

/-- A string is read from its quoted form. -/
theorem readString_quoted (s : String) (rest : List Char) :
    readString true [] (escaped s.toList ++ '"' :: rest) = some (some s, rest) := by
  rw [readString_escaped]
  simp [readString]

end Strings

/-! ## Numbers -/

section Numbers

variable {cs rest whole tail : List Char} {negative : Bool}

/-- What follows a number does not continue it. -/
def Ends (rest : List Char) : Prop :=
  ∀ c ∈ rest.head?, isDigit c = false ∧ c ≠ '.' ∧ c ≠ 'e' ∧ c ≠ 'E'

theorem Ends.stopped (h : Ends rest) : Stopped isDigit rest := fun c hc => (h c hc).1

theorem isDigit_of_mem_toDigits {n : Nat} {c : Char} (h : c ∈ Nat.toDigits 10 n) :
    isDigit c = true := by
  have := Nat.isDigit_of_mem_toDigits (by decide) (by decide) h
  simpa [Char.isDigit, isDigit, Char.le_def] using this

theorem digitsValue_toDigits (n : Nat) : digitsValue (Nat.toDigits 10 n) = n := by
  have := Nat.ofDigitChars_toDigits (b := 10) (n := n) (by decide) (by decide)
  simpa [Nat.ofDigitChars_eq_foldl, digitsValue, digitValue, Nat.mul_comm] using this

/-- A run of digits that may stand in front of the point. -/
structure IsWhole (whole : List Char) : Prop where
  nonempty : whole ≠ []
  digits : ∀ c ∈ whole, isDigit c = true
  leading : 1 < whole.length → whole.head? ≠ some '0'

theorem head?_toDigits {n : Nat} (h : 0 < n) : (Nat.toDigits 10 n).head? ≠ some '0' := by
  induction n using Nat.strongRecOn with
  | ind n ih =>
    rw [Nat.toDigits_eq_if (by decide)]
    split
    · rename_i small
      have : ∀ n < 10, 0 < n → [n.digitChar].head? ≠ some '0' := by decide
      exact this n small h
    · have shorter := ih (n / 10) (by omega) (by omega)
      rw [List.head?_append]
      obtain ⟨c, ds, e⟩ := List.exists_cons_of_ne_nil (Nat.toDigits_ne_nil (n := n / 10) (b := 10))
      rw [e] at shorter ⊢
      exact shorter

theorem isWhole_toDigits (n : Nat) : IsWhole (Nat.toDigits 10 n) where
  nonempty := Nat.toDigits_ne_nil
  digits _ h := isDigit_of_mem_toDigits h
  leading h := by
    refine head?_toDigits (Nat.pos_of_ne_zero ?_)
    rintro rfl
    simp at h

theorem isWhole_zero : IsWhole ['0'] := ⟨by decide, List.all_eq_true.1 (by decide), by decide⟩

/-- The number that digits, digits behind a point and an exponent make. -/
def numberOf (negative : Bool) (whole fraction : List Char) : Option Int → Number
  | none =>
    if fraction = [] then .integer negative (digitsValue whole)
    else decimalOf negative whole fraction 0
  | some exponent => decimalOf negative whole fraction exponent

theorem readNumber?_of_parts {fraction r : List Char} {exponent : Option Int} (hw : IsWhole whole)
    (ht : Stopped isDigit tail) (hf : readFraction? tail = some (fraction, r))
    (he : readExponent? r = some (exponent, rest)) (negative : Bool) :
    readNumber? negative (whole ++ tail) =
      some (numberOf negative whole fraction exponent, rest) := by
  have refused : (whole.isEmpty || (decide (whole.length > 1) && whole.head? == some '0')) = false := by
    have := hw.leading
    simp [hw.nonempty]
    exact this
  unfold readNumber?
  simp only [takeWhile_run hw.digits ht, dropWhile_run hw.digits ht, refused, hf]
  cases exponent with
  | some e => simp [he, numberOf]
  | none => cases fraction <;> simp [he, numberOf]

theorem readFraction?_point {fraction : List Char} (hn : fraction ≠ [])
    (hf : ∀ c ∈ fraction, isDigit c = true) (hr : Stopped isDigit rest) :
    readFraction? ('.' :: (fraction ++ rest)) = some (fraction, rest) := by
  simp [readFraction?, takeWhile_run hf hr, dropWhile_run hf hr, hn]

theorem readFraction?_none (h : ∀ c ∈ rest.head?, c ≠ '.') : readFraction? rest = some ([], rest) := by
  unfold readFraction?
  split
  · exact absurd rfl (h '.' rfl)
  · rfl

theorem readExponent?_none (h : ∀ c ∈ rest.head?, c ≠ 'e' ∧ c ≠ 'E') :
    readExponent? rest = some (none, rest) := by
  cases rest with
  | nil => rfl
  | cons c rest => simp [readExponent?, h c rfl]

theorem toString_toList (n : Nat) : (toString n).toList = Nat.toDigits 10 n := by
  rw [Nat.toString_eq_ofList_toDigits, String.toList_ofList]

/-- The digits of an exponent, after its sign. -/
theorem readExponent?_digits (n : Nat) (hr : Stopped isDigit rest) :
    readExponent? ('e' :: (Nat.toDigits 10 n ++ rest)) = some (some (n : Int), rest) ∧
    readExponent? ('e' :: '-' :: (Nat.toDigits 10 n ++ rest)) = some (some (-(n : Int)), rest) := by
  have digits : ∀ c ∈ Nat.toDigits 10 n, isDigit c = true := fun c => isDigit_of_mem_toDigits
  constructor
  · have unsigned : ∀ c ∈ (Nat.toDigits 10 n ++ rest).head?, isDigit c = true := by
      obtain ⟨c, ds, e⟩ := List.exists_cons_of_ne_nil (Nat.toDigits_ne_nil (n := n) (b := 10))
      intro c' hc
      rw [e] at hc digits
      obtain rfl : c = c' := by simpa using hc
      exact digits c List.mem_cons_self
    unfold readExponent?
    simp only [beq_self_eq_true, Bool.true_or, if_true]
    split
    · rename_i e
      exact absurd (unsigned '+' (by rw [e]; rfl)) (by decide)
    · rename_i e
      exact absurd (unsigned '-' (by rw [e]; rfl)) (by decide)
    · simp [takeWhile_run digits hr, dropWhile_run digits hr, Nat.toDigits_ne_nil,
        digitsValue_toDigits]
  · simp [readExponent?, takeWhile_run digits hr, dropWhile_run digits hr, Nat.toDigits_ne_nil,
      digitsValue_toDigits]

theorem readExponent?_int (k : Int) (hr : Stopped isDigit rest) :
    readExponent? ('e' :: ((toString k).toList ++ rest)) = some (some k, rest) := by
  obtain n | n := k
  · have text : (toString (Int.ofNat n)).toList = Nat.toDigits 10 n := toString_toList n
    rw [text]
    exact (readExponent?_digits n hr).1
  · have text : (toString (Int.negSucc n)).toList = '-' :: Nat.toDigits 10 (n + 1) := by
      rw [← toString_toList]
      exact String.toList_append
    rw [text]
    exact (readExponent?_digits (n + 1) hr).2

/-- Digits without exponent always have a point and a digit behind it. -/
theorem positionalText_parts {d : Decimal.Digits} (h : 0 < d.digits) :
    ∃ whole fraction, IsWhole whole ∧ fraction ≠ [] ∧ (∀ c ∈ fraction, isDigit c = true) ∧
      (Decimal.Layout.marked.positionalText d).toList = whole ++ '.' :: fraction := by
  have digits : ∀ c ∈ Nat.toDigits 10 d.digits, isDigit c = true := fun c => isDigit_of_mem_toDigits
  have zeros (k : Nat) : ∀ c ∈ List.replicate k '0', isDigit c = true := fun c hc => by
    rw [List.eq_of_mem_replicate hc]
    decide
  have leading := head?_toDigits h
  unfold Decimal.Layout.positionalText
  obtain ⟨c, ds, e⟩ := List.exists_cons_of_ne_nil (Nat.toDigits_ne_nil (n := d.digits) (b := 10))
  rw [e] at digits leading ⊢
  dsimp only
  split
  · refine ⟨c :: ds ++ List.replicate d.exponent.toNat '0', ['0'], ⟨by simp, ?_, fun _ => leading⟩,
      by simp, List.all_eq_true.1 (by decide), by simp [Decimal.Layout.marked]⟩
    intro x hx
    rcases List.mem_append.1 hx with hx | hx
    · exact digits x hx
    · exact zeros _ x hx
  rename_i fractional
  split
  · rename_i short
    obtain ⟨k, hk⟩ : ∃ k, (c :: ds).length - (-d.exponent).toNat = k + 1 :=
      ⟨(c :: ds).length - (-d.exponent).toNat - 1, by omega⟩
    rw [hk]
    refine ⟨(c :: ds).take (k + 1), (c :: ds).drop (k + 1), ⟨by simp, ?_, fun _ => leading⟩, ?_, ?_,
      String.toList_ofList⟩
    · exact fun x hx => digits x (List.mem_of_mem_take hx)
    · rw [Ne, List.drop_eq_nil_iff]
      omega
    · exact fun x hx => digits x (List.mem_of_mem_drop hx)
  · refine ⟨['0'], List.replicate ((-d.exponent).toNat - (c :: ds).length) '0' ++ (c :: ds),
      isWhole_zero, by simp, ?_, by simp⟩
    intro x hx
    rcases List.mem_append.1 hx with hx | hx
    · exact zeros _ x hx
    · exact digits x hx

/-- A decimal is written as a text that is read as a number. -/
theorem readNumber?_digitsText {d : Decimal.Digits} (h : 0 < d.digits) (negative : Bool) :
    ∃ n, ∀ rest, Ends rest →
      readNumber? negative ((Decimal.Layout.marked.digitsText d).toList ++ rest) = some (n, rest) := by
  unfold Decimal.Layout.digitsText
  split
  · obtain ⟨whole, fraction, hw, hn, hf, text⟩ := positionalText_parts h
    refine ⟨numberOf negative whole fraction none, fun rest hr => ?_⟩
    rw [text, List.append_assoc]
    exact readNumber?_of_parts hw (stopped_cons (by decide) _) (readFraction?_point hn hf hr.stopped)
      (readExponent?_none fun c hc => (hr c hc).2.2) negative
  · have digits : ∀ c ∈ Nat.toDigits 10 d.digits, isDigit c = true :=
      fun c => isDigit_of_mem_toDigits
    unfold Decimal.Layout.exponentText
    have nonempty : Nat.toDigits 10 d.digits ≠ [] := Nat.toDigits_ne_nil
    generalize Nat.toDigits 10 d.digits = ds at digits nonempty
    match ds, nonempty, digits with
    | [c], _, digits =>
      refine ⟨numberOf negative [c] [] (some d.leading), fun rest hr => ?_⟩
      have whole : IsWhole [c] := ⟨nofun, digits, by simp⟩
      have := readNumber?_of_parts whole (stopped_cons (by decide) _) (readFraction?_none (by simp))
        (readExponent?_int d.leading hr.stopped) negative
      simpa using this
    | c :: c' :: ds, _, digits =>
      refine ⟨numberOf negative [c] (c' :: ds) (some d.leading), fun rest hr => ?_⟩
      have fraction : readFraction?
          ('.' :: (c' :: ds ++ 'e' :: ((toString d.leading).toList ++ rest))) = some (c' :: ds, _) :=
        readFraction?_point nofun (fun x hx => digits x (List.mem_cons_of_mem _ hx))
          (stopped_cons (by decide) _)
      have whole : IsWhole [c] := ⟨nofun, fun x hx => digits x (by simp_all), by simp⟩
      have := readNumber?_of_parts whole (stopped_cons (by decide) _) fraction
        (readExponent?_int d.leading hr.stopped) negative
      simpa using this

namespace Number

/-- The text of a number without its sign. -/
def magnitude : Number → List Char
  | .integer _ n => Nat.toDigits 10 n
  | .decimal _ digits exponent =>
    if digits = 0 then "0.0".toList
    else (Decimal.Layout.marked.digitsText ⟨digits, exponent⟩).toList

/-- The number that is read from the text of a number. Integers keep their digits, and a decimal
may be read with others than it was written from. -/
def reread (n : Number) : Number := ((readNumber? n.isNegative n.magnitude).map (·.1)).getD n

theorem render_toList (n : Number) :
    n.render.toList = (if n.isNegative then ['-'] else []) ++ n.magnitude := by
  cases n with
  | integer negative n =>
    simp only [render, isNegative, magnitude, String.toList_append, toString_toList]
    cases negative <;> rfl
  | decimal negative digits exponent =>
    simp only [render, isNegative, magnitude, String.toList_append]
    congr 1
    · cases negative <;> rfl
    · split <;> rfl

theorem readNumber?_magnitude (n : Number) :
    ∃ m, ∀ rest, Ends rest → readNumber? n.isNegative (n.magnitude ++ rest) = some (m, rest) := by
  have zero (negative : Bool) (rest : List Char) (h : Ends rest) := readNumber?_of_parts
    isWhole_zero (stopped_cons (by decide) _)
    (readFraction?_point isWhole_zero.nonempty isWhole_zero.digits h.stopped)
    (readExponent?_none fun c hc => (h c hc).2.2) negative
  cases n with
  | integer negative n =>
    exact ⟨_, fun rest h => readNumber?_of_parts (isWhole_toDigits n) h.stopped
      (readFraction?_none fun c hc => (h c hc).2.1)
      (readExponent?_none fun c hc => (h c hc).2.2) negative⟩
  | decimal negative digits exponent =>
    simp only [magnitude, isNegative]
    split
    · exact ⟨_, zero negative⟩
    · rename_i nonzero
      exact readNumber?_digitsText (Nat.pos_of_ne_zero nonzero) negative

theorem ends_nil : Ends [] := nofun

/-- The text of a number is read as what it denotes, up to where the number ends. -/
theorem readNumber?_reread (n : Number) (h : Ends rest) :
    readNumber? n.isNegative (n.magnitude ++ rest) = some (n.reread, rest) := by
  obtain ⟨m, hm⟩ := readNumber?_magnitude n
  have alone := hm [] ends_nil
  rw [List.append_nil] at alone
  rw [hm rest h, reread, alone]
  rfl

@[simp] theorem reread_integer (negative : Bool) (n : Nat) :
    reread (.integer negative n) = .integer negative n := by
  have := readNumber?_of_parts (isWhole_toDigits n) stopped_nil (readFraction?_none (by simp))
    (readExponent?_none (by simp)) negative
  rw [List.append_nil] at this
  simp [reread, magnitude, isNegative, this, numberOf, digitsValue_toDigits]

end Number

/-- A number starts with a digit. -/
theorem digit_of_readNumber? {negative : Bool} {x : Number × List Char}
    (h : readNumber? negative cs = some x) : ∃ c cs', cs = c :: cs' ∧ isDigit c = true := by
  cases cs with
  | nil => simp [readNumber?] at h
  | cons c cs =>
    refine ⟨c, cs, rfl, ?_⟩
    by_contra hc
    simp [readNumber?, hc] at h

theorem skipBlanks_cons {c : Char} (h : isBlank c = false) (cs : List Char) :
    skipBlanks (c :: cs) = c :: cs := by
  simp [skipBlanks, h]

theorem ne_of_isDigit {c d : Char} (hc : isDigit c = true) (hd : isDigit d = false) : c ≠ d := by
  rintro rfl
  exact absurd hc (by simp [hd])

theorem not_blank_of_isDigit {c : Char} (h : isDigit c = true) : isBlank c = false := by
  have other {d : Char} (hd : isDigit d = false) : c ≠ d := ne_of_isDigit h hd
  simp [isBlank, other (d := ' ') (by decide), other (d := '\n') (by decide),
    other (d := '\t') (by decide), other (d := '\r') (by decide)]

theorem readValue_digit {c : Char} (h : isDigit c = true) (fuel depth : Nat) (cs : List Char) :
    readValue (fuel + 1) depth (c :: cs) =
      (readNumber? false (c :: cs)).map fun (n, cs) => (number n, cs) := by
  rw [readValue, skipBlanks_cons (not_blank_of_isDigit h)]
  split
  · contradiction
  case h_9 => rfl
  all_goals
    rename_i e
    exact absurd (List.cons.inj e).1 (ne_of_isDigit h (by decide))

/-- A number is read from its text. -/
theorem readValue_number (n : Number) (h : Ends rest) (fuel depth : Nat) :
    readValue (fuel + 1) depth (n.render.toList ++ rest) = some (number n.reread, rest) := by
  have read := n.readNumber?_reread h
  rw [Number.render_toList]
  cases hn : n.isNegative with
  | true =>
    rw [hn] at read
    rw [if_pos rfl, List.append_assoc, List.singleton_append, readValue, skipBlanks_cons (by decide)]
    simp [read]
  | false =>
    rw [hn] at read
    obtain ⟨c, cs, e, hc⟩ := digit_of_readNumber? read
    rw [if_neg (by decide), List.nil_append, e, readValue_digit hc, ← e, read]
    rfl

end Numbers

/-! ## Values -/

mutual

/-- The value that is read from the text of a value. -/
def reread : Json → Json
  | null | illFormed => null
  | bool b => bool b
  | number n => number n.reread
  | string s => string s
  | array items => array (rereadItems items)
  | object members => object (rereadMembers members)

def rereadItems : List Json → List Json
  | [] => []
  | j :: rest => reread j :: rereadItems rest

def rereadMembers : List (String × Json) → List (String × Json)
  | [] => []
  | (key, j) :: rest => (key, reread j) :: rereadMembers rest

end

section Values

variable {rest : List Char}

/-- The items after the first one, each behind a comma. -/
def itemsText (items : List Json) : List Char := items.flatMap fun j => ',' :: (render j).toList

/-- The members after the first one, each behind a comma. -/
def membersText (members : List (String × Json)) : List Char :=
  members.flatMap fun m => ',' :: ((quote m.1).toList ++ ':' :: (render m.2).toList)

theorem renderItems_cons (j : Json) (items : List Json) :
    (renderItems (j :: items)).toList = (render j).toList ++ itemsText items := by
  induction items generalizing j with
  | nil => simp [renderItems, itemsText]
  | cons k items ih => simp [renderItems, ih, itemsText]

theorem renderMembers_cons (key : String) (j : Json) (members : List (String × Json)) :
    (renderMembers ((key, j) :: members)).toList =
      (quote key).toList ++ ':' :: ((render j).toList ++ membersText members) := by
  induction members generalizing key j with
  | nil => simp [renderMembers, membersText]
  | cons m members ih =>
    obtain ⟨key', j'⟩ := m
    simp [renderMembers, ih, membersText]

theorem ends_cons {c : Char} (h : c ∈ [',', ']', '\x7d']) (rest : List Char) : Ends (c :: rest) := by
  intro d hd
  obtain rfl : c = d := by simpa using hd
  simp only [List.mem_cons, List.not_mem_nil, or_false] at h
  rcases h with rfl | rfl | rfl <;> exact ⟨by decide, by decide, by decide, by decide⟩

theorem ends_itemsText (items : List Json) (rest : List Char) :
    Ends (itemsText items ++ ']' :: rest) := by
  cases items with
  | nil => exact ends_cons (by decide) rest
  | cons j items => exact ends_cons (by decide) _

theorem ends_membersText (members : List (String × Json)) (rest : List Char) :
    Ends (membersText members ++ '\x7d' :: rest) := by
  cases members with
  | nil => exact ends_cons (by decide) rest
  | cons m members => exact ends_cons (by decide) _

/-- Values start with no blank and no closing bracket. -/
theorem render_starts (j : Json) :
    ∃ c cs, (render j).toList = c :: cs ∧ isBlank c = false ∧ c ≠ ']' := by
  cases j with
  | null | illFormed => exact ⟨'n', _, rfl, by decide, by decide⟩
  | bool b => cases b <;> exact ⟨_, _, rfl, by decide, by decide⟩
  | string s => exact ⟨'"', _, quote_toList s, by decide, by decide⟩
  | array items => exact ⟨'[', _, by simp [render]; rfl, by decide, by decide⟩
  | object members => exact ⟨'\x7b', _, by simp [render]; rfl, by decide, by decide⟩
  | number n =>
    rw [render, Number.render_toList]
    cases h : n.isNegative with
    | true => exact ⟨'-', _, rfl, by decide, by decide⟩
    | false =>
      obtain ⟨c, cs, e, hc⟩ := digit_of_readNumber? (n.readNumber?_reread Number.ends_nil)
      rw [List.append_nil] at e
      exact ⟨c, cs, by rw [e]; rfl, not_blank_of_isDigit hc, ne_of_isDigit hc (by decide)⟩

theorem readValue_array {j : Json} {items : List Json} {fuel depth : Nat} {cs : List Char}
    (first : readValue fuel depth ((render j).toList ++ cs) = some (j.reread, cs))
    (others : readItems fuel depth cs = some (items, rest)) :
    readValue (fuel + 1) (depth + 1) ('[' :: ((render j).toList ++ cs)) =
      some (array (j.reread :: items), rest) := by
  obtain ⟨c, cs', e, hb, hc⟩ := render_starts j
  rw [readValue, skipBlanks_cons (by decide)]
  rw [e, List.cons_append] at first ⊢
  simp only [skipBlanks_cons hb]
  split
  · rename_i e'
    exact absurd (List.cons.inj e').1 hc
  · simp [first, others, within]

/-- A name and its value are read from their text, given how the value is read. -/
theorem readMember_text (key : String) {j : Json} {fuel depth : Nat} {cs : List Char}
    (h : readValue fuel depth cs = some (j, rest)) :
    readMember (fuel + 1) depth ((quote key).toList ++ ':' :: cs) = some ((some key, j), rest) := by
  rw [readMember, quote_toList, List.cons_append, skipBlanks_cons (by decide)]
  have name := readString_quoted key (':' :: cs)
  simp only [List.append_assoc, List.singleton_append]
  rw [name]
  simp [skipBlanks_cons (c := ':') (by decide), h]

/-- Members whose names denote something make an object. -/
theorem objectOf_named (members : List (String × Json)) :
    objectOf (members.map fun m => (some m.1, m.2)) = object members := by
  have named : (members.map fun m => (some m.1, m.2)).mapM
      (fun m : Option String × Json => m.1.map fun key => (key, m.2)) = some members := by
    induction members with
    | nil => rfl
    | cons m members ih => simp [ih]
  simp [objectOf, named]

theorem readValue_object {key : String} {j : Json} {members : List (String × Json)}
    {fuel depth : Nat} {cs r : List Char} (first : readMember fuel depth ((quote key).toList ++ cs) =
      some ((some key, j), r))
    (others : readMembers fuel depth r = some (members.map fun m => (some m.1, m.2), rest)) :
    readValue (fuel + 1) (depth + 1) ('\x7b' :: ((quote key).toList ++ cs)) =
      some (object ((key, j) :: members), rest) := by
  obtain ⟨cs', e⟩ : ∃ cs', (quote key).toList ++ cs = '"' :: cs' := ⟨_, by rw [quote_toList]; rfl⟩
  have whole := objectOf_named ((key, j) :: members)
  rw [List.map_cons] at whole
  rw [e] at first ⊢
  rw [readValue, skipBlanks_cons (by decide)]
  simp [skipBlanks_cons (c := '"') (by decide), first, others, within, whole]

mutual

/-- A value is read from its text, with its decimals as they are written. -/
theorem readValue_render : ∀ (j : Json) (fuel depth : Nat) (rest : List Char),
    (render j).length < fuel → j.depth ≤ depth → Ends rest →
      readValue fuel depth ((render j).toList ++ rest) = some (j.reread, rest)
  | null, fuel + 1, depth, rest, _, _, _ => by
    simp [render, readValue, skipBlanks, isBlank, expect?, reread]
  | illFormed, fuel + 1, depth, rest, _, _, _ => by
    simp [render, readValue, skipBlanks, isBlank, expect?, reread]
  | bool true, fuel + 1, depth, rest, _, _, _ => by
    simp [render, readValue, skipBlanks, isBlank, expect?, reread]
  | bool false, fuel + 1, depth, rest, _, _, _ => by
    simp [render, readValue, skipBlanks, isBlank, expect?, reread]
  | number n, fuel + 1, depth, rest, _, _, h => by
    rw [render, reread]
    exact readValue_number n h fuel depth
  | string s, fuel + 1, depth, rest, _, _, _ => by
    have name := readString_quoted s rest
    rw [render, reread, quote_toList, readValue, List.cons_append, skipBlanks_cons (by decide)]
    simp [name]
  | array [], fuel + 1, depth + 1, rest, _, _, _ => by
    simp [render, renderItems, readValue, skipBlanks, isBlank, within, reread, rereadItems]
  | array (j :: items), fuel + 1, depth + 1, rest, hf, hd, _ => by
    have text : (render (array (j :: items))).toList =
        '[' :: ((render j).toList ++ (itemsText items ++ [']'])) := by
      simp [render, renderItems_cons]
    have bounds : (render j).length < fuel ∧ (itemsText items).length < fuel := by
      rw [← String.length_toList, text] at hf
      simp only [List.length_cons, List.length_append, String.length_toList] at hf
      omega
    simp only [Json.depth, depthItems] at hd
    have first := readValue_render j fuel depth (itemsText items ++ ']' :: rest) bounds.1
      (Nat.le_trans (Nat.le_max_left ..) (Nat.le_of_succ_le_succ hd)) (ends_itemsText items rest)
    have others := readItems_text items fuel depth rest bounds.2
      (Nat.le_trans (Nat.le_max_right ..) (Nat.le_of_succ_le_succ hd))
    have := readValue_array first others
    rw [text]
    simpa [reread, rereadItems] using this
  | object [], fuel + 1, depth + 1, rest, _, _, _ => by
    simp [render, renderMembers, readValue, skipBlanks, isBlank, within, reread, rereadMembers]
  | object ((key, j) :: members), fuel + 1, depth + 1, rest, hf, hd, _ => by
    have text : (render (object ((key, j) :: members))).toList = '\x7b' ::
        ((quote key).toList ++ ':' :: ((render j).toList ++ (membersText members ++ ['\x7d']))) := by
      simp [render, renderMembers_cons]
    obtain ⟨fuel, rfl, value, others⟩ : ∃ f, fuel = f + 1 ∧ (render j).length < f ∧
        (membersText members).length < f + 1 := by
      rw [← String.length_toList, text] at hf
      simp only [List.length_cons, List.length_append, String.length_toList] at hf
      exact ⟨fuel - 1, by omega, by omega, by omega⟩
    simp only [Json.depth, depthMembers] at hd
    have value := readValue_render j fuel depth (membersText members ++ '\x7d' :: rest) value
      (Nat.le_trans (Nat.le_max_left ..) (Nat.le_of_succ_le_succ hd)) (ends_membersText members rest)
    have others := readMembers_text members (fuel + 1) depth rest others
      (Nat.le_trans (Nat.le_max_right ..) (Nat.le_of_succ_le_succ hd))
    have := readValue_object (readMember_text key value) others
    rw [text]
    simpa [reread, rereadMembers] using this

theorem readItems_text : ∀ (items : List Json) (fuel depth : Nat) (rest : List Char),
    (itemsText items).length < fuel → depthItems items ≤ depth →
      readItems fuel depth (itemsText items ++ ']' :: rest) = some (rereadItems items, rest)
  | [], fuel + 1, depth, rest, _, _ => by
    simp [itemsText, readItems, rereadItems, skipBlanks, isBlank]
  | j :: items, fuel + 1, depth, rest, hf, hd => by
    have bounds : (render j).length < fuel ∧ (itemsText items).length < fuel := by
      simp only [itemsText, List.flatMap_cons, List.length_append, List.length_cons,
        String.length_toList] at hf
      exact ⟨by omega, by rw [itemsText]; omega⟩
    simp only [depthItems] at hd
    have first := readValue_render j fuel depth (itemsText items ++ ']' :: rest) bounds.1
      (Nat.le_trans (Nat.le_max_left ..) hd) (ends_itemsText items rest)
    have others := readItems_text items fuel depth rest bounds.2
      (Nat.le_trans (Nat.le_max_right ..) hd)
    have text : itemsText (j :: items) ++ ']' :: rest =
        ',' :: ((render j).toList ++ (itemsText items ++ ']' :: rest)) := by
      simp [itemsText]
    rw [text, readItems, skipBlanks_cons (by decide)]
    simp [first, others, rereadItems]

theorem readMembers_text : ∀ (members : List (String × Json)) (fuel depth : Nat)
    (rest : List Char), (membersText members).length < fuel → depthMembers members ≤ depth →
      readMembers fuel depth (membersText members ++ '\x7d' :: rest) =
        some ((rereadMembers members).map fun m => (some m.1, m.2), rest)
  | [], fuel + 1, depth, rest, _, _ => by
    simp [membersText, readMembers, rereadMembers, skipBlanks, isBlank]
  | (key, j) :: members, fuel + 1, depth, rest, hf, hd => by
    obtain ⟨fuel, rfl, value, others⟩ : ∃ f, fuel = f + 1 ∧ (render j).length < f ∧
        (membersText members).length < f + 1 := by
      simp only [membersText, List.flatMap_cons, List.length_append, List.length_cons,
        String.length_toList] at hf
      exact ⟨fuel - 1, by omega, by omega, by rw [membersText]; omega⟩
    simp only [depthMembers] at hd
    have value := readValue_render j fuel depth (membersText members ++ '\x7d' :: rest) value
      (Nat.le_trans (Nat.le_max_left ..) hd) (ends_membersText members rest)
    have others := readMembers_text members (fuel + 1) depth rest others
      (Nat.le_trans (Nat.le_max_right ..) hd)
    have text : membersText ((key, j) :: members) ++ '\x7d' :: rest = ',' ::
        ((quote key).toList ++ ':' :: ((render j).toList ++ (membersText members ++ '\x7d' :: rest))) := by
      simp [membersText]
    rw [text, readMembers, skipBlanks_cons (by decide)]
    simp [readMember_text key value, others, rereadMembers]

end

/-- The text of a value that is not nested too deep is read as the value, with its decimals as they
are written. -/
theorem parse?_render {j : Json} (h : j.depth ≤ nestingLimit) : parse? j.render = some j.reread := by
  have read := readValue_render j (j.render.length + 1) nestingLimit [] (by omega) h
    Number.ends_nil
  rw [List.append_nil, ← String.length_toList] at read
  unfold parse?
  simp only [read]
  rfl

end Values

end NavScript.Json
