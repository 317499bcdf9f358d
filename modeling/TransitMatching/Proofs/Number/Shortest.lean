import TransitMatching.Number.Double
import TransitMatching.Proofs.Number.Interval
import TransitMatching.Proofs.Number.Sum

/-!
# What the shortest decimal tells

The shortest decimal of a double is read back as its sign and a number that rounds
to it. No number rounds to two doubles, so the text tells a double apart from every
other; all that is no number has one name.

* `magnitude?_positionalText`: digits written without an exponent are read as what
  they stand for.
* `read?_shortestText`: **the shortest text reads back** as the double.
* `Double.shortest_eq_iff`: **doubles print alike only if they are the same, or if
  neither is a number.**
-/

namespace TransitMatching

/-! ## Digits are read back -/

theorem digitsValue_append (s t : List Char) :
    digitsValue (s ++ t) = 10 ^ t.length * digitsValue s + digitsValue t :=
  (Nat.ofDigitChars_append 0).trans Nat.ofDigitChars_eq_ofDigitChars_zero

theorem toList_paddedDigits (width n : Nat) :
    (paddedDigits width n).toList =
      List.replicate (width - (Nat.toDigits 10 n).length) '0' ++ Nat.toDigits 10 n :=
  String.toList_ofList

/-- Zeros in front do not change the value. -/
theorem digitsValue_paddedDigits (width n : Nat) :
    digitsValue (paddedDigits width n).toList = n := by
  rw [toList_paddedDigits, digitsValue_append]
  have hzeros : digitsValue (List.replicate (width - (Nat.toDigits 10 n).length) '0') = 0 :=
    Nat.ofDigitChars_replicate_zero.trans (Nat.mul_zero _)
  have hdigits : digitsValue (Nat.toDigits 10 n) = n := Nat.ofDigitChars_ten_toDigits
  rw [hzeros, hdigits, Nat.mul_zero, Nat.zero_add]

theorem isDigit_of_mem_paddedDigits {width n : Nat} {c : Char}
    (h : c ∈ (paddedDigits width n).toList) : c.isDigit = true := by
  rw [toList_paddedDigits, List.mem_append] at h
  rcases h with h | h
  · rw [List.eq_of_mem_replicate h]
    decide
  · exact Nat.isDigit_of_mem_toDigits (by decide) (by decide) h

theorem paddedDigits_ne_nil (width n : Nat) : (paddedDigits width n).toList ≠ [] := by
  rw [toList_paddedDigits]
  exact List.append_ne_nil_of_right_ne_nil _ Nat.toDigits_ne_nil

/-- What fits in a width of digits is written with as many. -/
theorem length_paddedDigits {width n : Nat} (hw : 0 < width) (hn : n < 10 ^ width) :
    (paddedDigits width n).toList.length = width := by
  have hle : (Nat.toDigits 10 n).length ≤ width :=
    (Nat.length_toDigits_le_iff (by decide) hw).2 hn
  rw [toList_paddedDigits, List.length_append, List.length_replicate]
  omega

/-- Digits are split off whole where none follows. -/
theorem splitDigits_of_digits {digits rest : List Char} (h : ∀ c ∈ digits, c.isDigit = true)
    (hrest : ∀ c ∈ rest.head?, c.isDigit = false) :
    splitDigits (digits ++ rest) = (digits, rest) := by
  have htake : rest.takeWhile Char.isDigit = [] := by
    cases rest with
    | nil => rfl
    | cons c rest => simp [hrest c rfl]
  have hdrop : rest.dropWhile Char.isDigit = rest := by
    cases rest with
    | nil => rfl
    | cons c rest => simp [hrest c rfl]
  rw [splitDigits, List.takeWhile_append_of_pos h, List.dropWhile_append_of_pos h, htake, hdrop,
    List.append_nil]

theorem splitDigits_self {digits : List Char} (h : ∀ c ∈ digits, c.isDigit = true) :
    splitDigits digits = (digits, []) := by
  have hsplit : splitDigits (digits ++ []) = (digits, []) := splitDigits_of_digits h (by simp)
  rwa [List.append_nil] at hsplit

namespace Numeral

/-- Digits without a point are read as a whole number. -/
theorem magnitude?_whole (negative : Bool) {digits : List Char}
    (h : ∀ c ∈ digits, c.isDigit = true) (hne : digits ≠ []) :
    magnitude? negative digits = some (finite negative (digitsValue digits) 0) := by
  simp [magnitude?, splitDigits_self h, hne, exponent?]

/-- Digits with a point among them are read as all of them, less a place for each after it. -/
theorem magnitude?_point (negative : Bool) {whole fraction : List Char}
    (hw : ∀ c ∈ whole, c.isDigit = true) (hf : ∀ c ∈ fraction, c.isDigit = true)
    (hne : whole ≠ []) :
    magnitude? negative (whole ++ '.' :: fraction) =
      some (finite negative (digitsValue (whole ++ fraction)) (-fraction.length)) := by
  have hsplit : splitDigits (whole ++ '.' :: fraction) = (whole, '.' :: fraction) :=
    splitDigits_of_digits hw (by simp)
  simp [magnitude?, hsplit, splitDigits_self hf, hne, exponent?]

/-- **Digits written without an exponent are read as what they stand for.** -/
theorem magnitude?_positionalText (negative : Bool) (digits : Nat) (unit : Int) :
    ∃ d e, magnitude? negative (positionalText digits unit).toList = some (finite negative d e) ∧
      (d : ℚ) * 10 ^ e = digits * 10 ^ unit := by
  cases unit with
  | ofNat u =>
    refine ⟨digits * 10 ^ u, 0, ?_, ?_⟩
    · show magnitude? negative (paddedDigits 1 (digits * 10 ^ u)).toList = _
      rw [magnitude?_whole negative (fun c h => isDigit_of_mem_paddedDigits h)
        (paddedDigits_ne_nil _ _), digitsValue_paddedDigits]
    · show ((digits * 10 ^ u : Nat) : ℚ) * 10 ^ (0 : Int) = digits * 10 ^ (u : Int)
      push_cast
      rw [mul_one, zpow_natCast]
  | negSucc u =>
    refine ⟨digits, Int.negSucc u, ?_, rfl⟩
    have htext : (positionalText digits (Int.negSucc u)).toList =
        (paddedDigits 1 (digits / 10 ^ (u + 1))).toList ++
          '.' :: (paddedDigits (u + 1) (digits % 10 ^ (u + 1))).toList := by
      show (paddedDigits 1 _ ++ "." ++ paddedDigits (u + 1) _).toList = _
      rw [String.toList_append, String.toList_append, List.append_assoc]
      rfl
    have hlength := length_paddedDigits (Nat.succ_pos u)
      (Nat.mod_lt digits (show 10 ^ (u + 1) > 0 by positivity))
    rw [htext, magnitude?_point negative (fun c h => isDigit_of_mem_paddedDigits h)
      (fun c h => isDigit_of_mem_paddedDigits h) (paddedDigits_ne_nil _ _), digitsValue_append,
      digitsValue_paddedDigits, digitsValue_paddedDigits, hlength, Nat.div_add_mod]
    rfl

theorem toLower_of_isDigit {c : Char} (h : c.isDigit = true) : c.toLower = c := by
  simp only [Char.isDigit, Bool.and_eq_true, decide_eq_true_eq] at h
  refine dif_neg fun hu => ?_
  have hle := UInt32.le_trans hu.1 h.2
  exact absurd hle (by decide)

theorem splitSign_of_isDigit {c : Char} (h : c.isDigit = true) (s : List Char) :
    splitSign (c :: s) = (false, c :: s) := by
  unfold splitSign
  split
  · next hs =>
    cases hs
    exact absurd h (by decide)
  · next hs =>
    cases hs
    exact absurd h (by decide)
  · rfl

/-- What starts with a digit after its sign is no name. -/
theorem read?_signed (negative : Bool) {text : String} (h : ∃ c s, text.toList = c :: s ∧
    c.isDigit = true) :
    read? ((if negative then "-" else "") ++ text) = magnitude? negative text.toList := by
  obtain ⟨c, s, htext, hc⟩ := h
  have hsign : splitSign ((if negative then "-" else "") ++ text).toList = (negative, c :: s) := by
    rw [String.toList_append, htext]
    cases negative with
    | true => rfl
    | false => exact splitSign_of_isDigit hc s
  have hname (name : String) (d : Char) (rest : List Char) (hn : name.toList = d :: rest)
      (hd : d.isDigit = false) : String.ofList ((c :: s).map Char.toLower) ≠ name := by
    intro hw
    have hhead := congrArg String.toList hw
    rw [String.toList_ofList, hn, List.map_cons, toLower_of_isDigit hc] at hhead
    rw [(List.cons.inj hhead).1, hd] at hc
    cases hc
  rw [read?, hsign, htext]
  dsimp only
  rw [if_neg (hname "nan" 'n' _ rfl rfl), if_neg]
  rintro (hw | hw)
  · exact hname "inf" 'i' _ rfl rfl hw
  · exact hname "infinity" 'i' _ rfl rfl hw

end Numeral

/-- Digits written without an exponent start with one. -/
theorem positionalText_head (digits : Nat) (unit : Int) :
    ∃ c s, (positionalText digits unit).toList = c :: s ∧ c.isDigit = true := by
  have hpadded (width n : Nat) :
      ∃ c s, (paddedDigits width n).toList = c :: s ∧ c.isDigit = true := by
    obtain ⟨c, s, h⟩ := List.exists_cons_of_ne_nil (paddedDigits_ne_nil width n)
    exact ⟨c, s, h, isDigit_of_mem_paddedDigits (h ▸ List.mem_cons_self)⟩
  cases unit with
  | ofNat u => exact hpadded 1 _
  | negSucc u =>
    obtain ⟨c, s, h, hc⟩ := hpadded 1 (digits / 10 ^ (u + 1))
    refine ⟨c, s ++ '.' :: (paddedDigits (u + 1) (digits % 10 ^ (u + 1))).toList, ?_, hc⟩
    show (paddedDigits 1 (digits / 10 ^ (u + 1)) ++ "." ++ paddedDigits (u + 1) _).toList = _
    rw [String.toList_append, String.toList_append, h, List.append_assoc]
    rfl

namespace Binary

/-- A decimal numeral that reads back as a double: the name of what is infinite or no number, and
else its sign and a number that rounds to it. -/
def ReadsAs : Binary → Numeral → Prop
  | notANumber, n => n = .notANumber
  | infinite negative, n => n = .infinite negative
  | finite negative mantissa exponent, n => ∃ digits unit, n = .finite negative digits unit ∧
      (RoundingInterval.ofParts mantissa exponent).Contains (digits * 10 ^ unit)

/-- The mantissa and exponent of what is finite are those of a double. -/
def Canonical : Binary → Prop
  | finite _ mantissa exponent => Normal mantissa exponent
  | _ => True

/-- The digits of a finite double are those of a number that rounds to it. -/
theorem exists_read?_positionalText (negative : Bool) {i : RoundingInterval} {digits : Nat}
    {unit : Int} (h : i.Contains (digits * 10 ^ unit)) :
    ∃ d e, Numeral.read? ((if negative then "-" else "") ++ positionalText digits unit) =
      some (.finite negative d e) ∧ i.Contains (d * 10 ^ e) := by
  rw [Numeral.read?_signed negative (positionalText_head digits unit)]
  obtain ⟨d, e, hread, hvalue⟩ := Numeral.magnitude?_positionalText negative digits unit
  exact ⟨d, e, hread, by rwa [hvalue]⟩

theorem shortestText_zero (negative : Bool) (e : Int) :
    (finite negative 0 e).shortestText = (if negative then "-" else "") ++ positionalText 0 0 := rfl

theorem shortestText_finite (negative : Bool) {m : Nat} (hm : m ≠ 0) (e : Int) :
    (finite negative m e).shortestText = (if negative then "-" else "") ++
      positionalText (RoundingInterval.ofParts m e).shortest.1
        (RoundingInterval.ofParts m e).shortest.2 := by
  unfold shortestText
  dsimp only
  rw [if_neg hm]

/-- **The shortest text of a double reads back as that double.** -/
theorem read?_shortestText {b : Binary} (h : b.Canonical) :
    ∃ n, Numeral.read? b.shortestText = some n ∧ b.ReadsAs n := by
  cases b with
  | notANumber => exact ⟨.notANumber, by decide, rfl⟩
  | infinite negative =>
    refine ⟨.infinite negative, ?_, rfl⟩
    cases negative <;> decide
  | finite negative m e =>
    by_cases hm : m = 0
    · subst hm
      rw [shortestText_zero]
      obtain ⟨d, u, hread, hvalue⟩ :=
        exists_read?_positionalText negative (RoundingInterval.contains_zero e)
      exact ⟨_, hread, d, u, rfl, hvalue⟩
    · rw [shortestText_finite negative hm]
      obtain ⟨d, u, hread, hvalue⟩ :=
        exists_read?_positionalText negative (RoundingInterval.contains_shortest h.least)
      exact ⟨_, hread, d, u, rfl, hvalue⟩

/-- Numerals that read back as one double are of that double. -/
theorem ReadsAs.unique {b c : Binary} {n : Numeral} (hb : b.Canonical) (hc : c.Canonical)
    (h : b.ReadsAs n) (k : c.ReadsAs n) : b = c := by
  cases b with
  | notANumber =>
    cases c with
    | notANumber => rfl
    | infinite _ => cases h.symm.trans k
    | finite _ _ _ =>
      obtain ⟨d, e, k, -⟩ := k
      cases h.symm.trans k
  | infinite _ =>
    cases c with
    | notANumber => cases h.symm.trans k
    | infinite _ =>
      cases h.symm.trans k
      rfl
    | finite _ _ _ =>
      obtain ⟨d, e, k, -⟩ := k
      cases h.symm.trans k
  | finite _ _ _ =>
    obtain ⟨d, e, h, hq⟩ := h
    cases c with
    | notANumber => cases h.symm.trans k
    | infinite _ => cases h.symm.trans k
    | finite _ _ _ =>
      obtain ⟨_, _, k, kq⟩ := k
      cases h.symm.trans k
      obtain ⟨rfl, rfl⟩ := RoundingInterval.apart_ofParts hb hc hq kq
      rfl

/-- **Doubles print alike only if they are the same.** -/
theorem shortestText_injective {b c : Binary} (hb : b.Canonical) (hc : c.Canonical)
    (h : b.shortestText = c.shortestText) : b = c := by
  obtain ⟨n, hread, hn⟩ := read?_shortestText hb
  obtain ⟨k, kread, hk⟩ := read?_shortestText hc
  rw [h] at hread
  cases hread.symm.trans kread
  exact hn.unique hb hc hk

theorem canonical_ofFloat (x : Float) : (ofFloat x).Canonical := by
  simp only [ofFloat]
  split
  · split <;> trivial
  · split
    · exact ⟨by omega, by omega, .inl rfl⟩
    · exact ⟨by omega, by omega, .inr (by omega)⟩

theorem ofFloat_eq_notANumber_iff {x : Float} :
    ofFloat x = notANumber ↔ Amount.ofFloat? x = none := by
  simp only [ofFloat, Amount.ofFloat?, Amount.ofBits?]
  split <;> split <;> try split
  all_goals simp
  all_goals omega

/-- The sixty-four bits of a double of the given parts. -/
def bits : Binary → Nat
  | notANumber => 0x7FF8000000000000
  | infinite negative => (if negative then 0x8000000000000000 else 0) + 0x7FF0000000000000
  | finite negative mantissa exponent =>
    (if negative then 0x8000000000000000 else 0) +
      ((exponent + 1074).toNat * 0x10000000000000 + mantissa)

theorem bits_ofFloat (x : Float) : (ofFloat x).bits = x.toBits.toNat := by
  have hlt := x.toBits.toNat_lt
  by_cases hn : ofFloat x = notANumber
  · rw [hn, Double.toBits_of_amount_none (ofFloat_eq_notANumber_iff.1 hn)]
    rfl
  · simp only [ofFloat] at hn ⊢
    split at hn
    · split at hn
      · rw [if_pos ‹_›, if_pos ‹_›]
        simp only [bits, decide_eq_true_eq]
        split <;> omega
      · exact absurd rfl hn
    · rw [if_neg ‹_›]
      split
      · have hleast : ((-1074 : Int) + 1074).toNat = 0 := by decide
        simp only [bits, decide_eq_true_eq, hleast]
        split <;> omega
      · simp only [bits, decide_eq_true_eq]
        split <;> omega

/-- The parts of a double say which one it is. -/
theorem ofFloat_injective {x y : Float} (h : ofFloat x = ofFloat y) : x = y := by
  apply Double.toBits_injective
  apply UInt64.toNat_inj.1
  rw [← bits_ofFloat, ← bits_ofFloat, h]

end Binary

namespace Double

theorem isNaN_of_amount_none {x : Float} (h : Amount.ofFloat? x = none) : x.isNaN = true := by
  have hparts := Amount.ofParts?_unpack x.toBits.toBitVec
  change Amount.ofParts? x.toModel.unpack = Amount.ofFloat? x at hparts
  rw [h] at hparts
  change x.toModel.unpack.isNaN = true
  cases hu : x.toModel.unpack with
  | notANumber => rfl
  | infinity s =>
    rw [hu] at hparts
    cases hparts
  | zero s =>
    rw [hu] at hparts
    cases hparts
  | finite s m e hm =>
    rw [hu] at hparts
    cases hparts

/-- What is no number has one form once it is a float. -/
theorem ofFloat_toFloat_eq_notANumber_iff {x : Double} :
    Binary.ofFloat x.toFloat = .notANumber ↔ x.isNaN = true := by
  cases x with
  | of x =>
    rw [Binary.ofFloat_eq_notANumber_iff]
    refine ⟨isNaN_of_amount_none, fun h => ?_⟩
    cases ha : Amount.ofFloat? x with
    | none => exact ha
    | some a => exact absurd h (by rw [isNaN, isNaN_of_amount ha]; decide)
  | undefined => exact iff_of_true (by decide +kernel) rfl

/-- Doubles of one value are the same, or neither is a number. -/
theorem toFloat_eq_iff {x y : Double} :
    x.toFloat = y.toFloat ↔ x = y ∨ x.isNaN = true ∧ y.isNaN = true := by
  constructor
  · intro h
    by_cases hn : x.isNaN = true
    · refine .inr ⟨hn, ?_⟩
      rw [← ofFloat_toFloat_eq_notANumber_iff] at hn ⊢
      rw [← h, hn]
    · have hy : ¬ y.isNaN = true := by
        rwa [← ofFloat_toFloat_eq_notANumber_iff, ← h, ofFloat_toFloat_eq_notANumber_iff]
      cases x with
      | undefined => exact absurd rfl hn
      | of x =>
        cases y with
        | undefined => exact absurd rfl hy
        | of y => exact .inl (congrArg of h)
  · rintro (rfl | ⟨hx, hy⟩)
    · rfl
    · rw [← ofFloat_toFloat_eq_notANumber_iff] at hx hy
      exact Binary.ofFloat_injective (hx.trans hy.symm)

/-- **Doubles print alike only if they are the same, or if neither is a number.** -/
theorem shortest_eq_iff {x y : Double} :
    DecimalText.shortest x = DecimalText.shortest y ↔
      x = y ∨ x.isNaN = true ∧ y.isNaN = true := by
  rw [← toFloat_eq_iff]
  refine ⟨fun h => ?_, fun h => ?_⟩
  · exact Binary.ofFloat_injective
      (Binary.shortestText_injective (Binary.canonical_ofFloat _) (Binary.canonical_ofFloat _) h)
  · show (Binary.ofFloat x.toFloat).shortestText = (Binary.ofFloat y.toFloat).shortestText
    rw [h]

/-- No double prints as a hyphen, which reads back as nothing. -/
theorem shortest_ne_hyphen (x : Double) : DecimalText.shortest x ≠ "-" := by
  intro h
  obtain ⟨n, hread, -⟩ := Binary.read?_shortestText (Binary.canonical_ofFloat x.toFloat)
  have hnone : Numeral.read? "-" = none := by decide
  rw [show (Binary.ofFloat x.toFloat).shortestText = "-" from h, hnone] at hread
  cases hread

end Double

end TransitMatching
