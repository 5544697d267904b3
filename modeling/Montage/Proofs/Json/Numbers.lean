import Montage.Proofs.Decimal.Shortest
import Montage.Proofs.Decimal.Value
import Montage.Proofs.Json.Layout

/-! # Numbers of a data text

A number is read as the parts that it is written with. A natural number that fits is read as it was.
Of a finite binary64 number some number is always read, though the reader's arithmetic may miss it
by a unit in the last place: what is written is never refused as too great. -/

namespace Montage.Json

open Decimal (isDigit ofDigits)

/-! ## Well-formed numbers -/

namespace NumberParts

def fractionText : Option (List Char) → List Char
  | none => []
  | some digits => '.' :: digits

def exponentText : Option (Bool × List Char) → List Char
  | none => []
  | some (down, digits) => 'e' :: if down then '-' :: digits else digits

/-- The text of the parts, with a small mark and no plus sign in the exponent. -/
def text (p : NumberParts) : List Char :=
  (if p.negative then ['-'] else []) ++
    (p.whole ++ (fractionText p.fraction ++ exponentText p.exponent))

/-- One or more digits. -/
def Digits (digits : List Char) : Prop := digits ≠ [] ∧ ∀ c ∈ digits, isDigit c

/-- Every part has digits, and a leading zero stands alone. -/
structure WellFormed (p : NumberParts) : Prop where
  whole : Digits p.whole
  lead : p.whole.head? = some '0' → p.whole.length = 1
  fraction : ∀ digits ∈ p.fraction, Digits digits
  exponent : ∀ e ∈ p.exponent, Digits e.2

variable {p : NumberParts} {digits : List Char} {exponent : Option (Bool × List Char)}

theorem Digits.head_ne {first c : Char} {more : List Char} (h : Digits (first :: more))
    (hc : isDigit c = false) : first ≠ c := by
  rintro rfl
  exact Bool.false_ne_true (hc.symm.trans (h.2 first List.mem_cons_self))

theorem head?_exponentText (exponent : Option (Bool × List Char)) :
    ∀ c ∈ (exponentText exponent).head?, isDigit c = false := by
  intro c hc
  cases exponent with
  | none => cases hc
  | some e =>
      cases hc
      rfl

/-- The exponent is read last. -/
theorem read_exponentText (parts : Option (Bool × List Char) → NumberParts)
    (h : ∀ e ∈ exponent, Digits e.2) :
    (match exponentText exponent with
      | [] => some (parts none)
      | c :: more =>
          if c = 'e' ∨ c = 'E' then
            let (down, digits) := match more with
              | '-' :: digits => (true, digits)
              | '+' :: digits => (false, digits)
              | digits => (false, digits)
            if digits ≠ [] ∧ digits.all isDigit then some (parts (some (down, digits)))
            else none
          else none) = some (parts exponent) := by
  cases exponent with
  | none => rfl
  | some e =>
      obtain ⟨down, digits⟩ := e
      have hdigits : Digits digits := h _ rfl
      have hall : digits ≠ [] ∧ digits.all isDigit :=
        ⟨hdigits.1, List.all_eq_true.mpr hdigits.2⟩
      cases down with
      | true => exact if_pos hall
      | false =>
          obtain ⟨first, more, rfl⟩ := List.exists_cons_of_ne_nil hdigits.1
          simp only [exponentText, Bool.false_eq_true, if_false, true_or, if_true]
          split
          case h_1 heq => exact absurd (List.cons.inj heq).1 (hdigits.head_ne rfl)
          case h_2 heq => exact absurd (List.cons.inj heq).1 (hdigits.head_ne rfl)
          case h_3 => exact if_pos hall

/-- A well-formed number is read as its parts. -/
theorem ofText?_text (h : p.WellFormed) : ofText? p.text = some p := by
  obtain ⟨negative, whole, fraction, exponent⟩ := p
  obtain ⟨hwhole, hlead, hfraction, hexponent⟩ := h
  dsimp only at *
  have hlead' : ¬ (whole = [] ∨ (whole.head? = some '0' ∧ whole.length ≠ 1)) := by
    rintro (hempty | ⟨hzero, hlength⟩)
    · exact hwhole.1 hempty
    · exact hlength (hlead hzero)
  have hend := head?_exponentText exponent
  rw [text, ofText?.eq_def]
  split
  case h_1 negative' rest hsign =>
    obtain ⟨rfl, rfl⟩ : negative = negative' ∧
        rest = whole ++ (fractionText fraction ++ exponentText exponent) := by
      cases negative with
      | true =>
          cases hsign
          exact ⟨rfl, rfl⟩
      | false =>
          obtain ⟨first, more, rfl⟩ := List.exists_cons_of_ne_nil hwhole.1
          split at hsign
          case h_1 heq => exact absurd (List.cons.inj heq).1 (hwhole.head_ne rfl)
          case h_2 =>
            cases hsign
            exact ⟨rfl, rfl⟩
    dsimp only
    cases fraction with
    | none =>
        rw [fractionText, List.nil_append]
        obtain ⟨htake, hdrop⟩ := Decimal.takeWhile_digits _ hwhole.2 hend
        rw [htake, hdrop, if_neg hlead']
        refine .trans ?_ (read_exponentText (⟨negative, whole, none, ·⟩) hexponent)
        cases exponent <;> rfl
    | some digits =>
        obtain ⟨hne, hdigits⟩ := hfraction digits rfl
        obtain ⟨htake, hdrop⟩ := Decimal.takeWhile_digits
          ('.' :: (digits ++ exponentText exponent)) hwhole.2 (by simp [isDigit])
        rw [fractionText, List.cons_append, htake, hdrop, if_neg hlead']
        split
        case h_1 more heq =>
          obtain ⟨htake, hdrop⟩ := Decimal.takeWhile_digits _ hdigits hend
          rw [← (List.cons.inj heq).2, htake, hdrop, if_neg hne]
          exact read_exponentText (⟨negative, whole, some digits, ·⟩) hexponent
        case h_2 hpoint => exact (hpoint _ rfl).elim

theorem Digits.isNumberChar (h : Digits digits) : ∀ c ∈ digits, isNumberChar c := by
  intro c hc
  have hdigit : '0' ≤ c ∧ c ≤ '9' := by simpa [isDigit] using h.2 c hc
  simp [Json.isNumberChar, hdigit]

/-- A well-formed number is sound data. -/
theorem isSound_text (h : p.WellFormed) : (number p.text).IsSound := by
  have hread := ofText?_text h
  obtain ⟨negative, whole, fraction, exponent⟩ := p
  obtain ⟨hwhole, -, hfraction, hexponent⟩ := h
  have hafter : ∀ c ∈ fractionText fraction ++ exponentText exponent, isNumberChar c := by
    rw [List.forall_mem_append]
    constructor
    · cases fraction with
      | none => exact List.forall_mem_nil _
      | some digits => exact List.forall_mem_cons.mpr ⟨rfl, (hfraction digits rfl).isNumberChar⟩
    · rcases exponent with _ | ⟨_ | _, digits⟩
      · exact List.forall_mem_nil _
      · exact List.forall_mem_cons.mpr ⟨rfl, (hexponent _ rfl).isNumberChar⟩
      · exact List.forall_mem_cons.mpr
          ⟨rfl, List.forall_mem_cons.mpr ⟨rfl, (hexponent _ rfl).isNumberChar⟩⟩
  have hdigits : ∀ c ∈ whole ++ (fractionText fraction ++ exponentText exponent),
      isNumberChar c := List.forall_mem_append.mpr ⟨hwhole.isNumberChar, hafter⟩
  rw [IsSound, hread]
  cases negative with
  | true => exact ⟨rfl, by simp [text], hdigits⟩
  | false =>
      obtain ⟨first, more, rfl⟩ := List.exists_cons_of_ne_nil hwhole.1
      have hfirst : '0' ≤ first ∧ first ≤ '9' := by
        simpa [isDigit] using hwhole.2 first List.mem_cons_self
      exact ⟨rfl, by simp [text, hfirst], fun c hc => hdigits c (List.mem_cons_of_mem _ hc)⟩

end NumberParts

open NumberParts (Digits)

/-! ## Natural numbers -/

theorem digits_toDigits (n : Nat) : Digits (Nat.toDigits 10 n) :=
  ⟨Nat.toDigits_ne_nil, fun _ h => Decimal.isDigit_of_mem_toDigits h⟩

theorem length_toDigits_of_head? {n : Nat} (h : (Nat.toDigits 10 n).head? = some '0') :
    (Nat.toDigits 10 n).length = 1 := by
  rw [Decimal.head?_toDigits h]
  rfl

theorem wellFormed_toDigits (n : Nat) :
    NumberParts.WellFormed ⟨false, Nat.toDigits 10 n, none, none⟩ :=
  ⟨digits_toDigits n, length_toDigits_of_head?, by simp, by simp⟩

theorem text_toDigits (n : Nat) :
    NumberParts.text ⟨false, Nat.toDigits 10 n, none, none⟩ = Nat.toDigits 10 n :=
  List.append_nil _

/-- A natural number is written as a number. -/
theorem ofText?_toDigits (n : Nat) :
    NumberParts.ofText? (Nat.toDigits 10 n) = some ⟨false, Nat.toDigits 10 n, none, none⟩ := by
  have hread := NumberParts.ofText?_text (wellFormed_toDigits n)
  rwa [text_toDigits] at hread

theorem quantity?_toDigits {n : Nat} (h : n ≤ topSignificand) :
    quantity? (Nat.toDigits 10 n) = some (.natural n) := by
  simp [quantity?, ofText?_toDigits, Decimal.ofDigits_toDigits, h]

theorem natUpTo?_ofNat {top n : Nat} (h : n ≤ top) (htop : top ≤ topSignificand) :
    natUpTo? top (ofNat n) = some n := by
  simp only [ofNat, natUpTo?, quantity?_toDigits (h.trans htop), if_pos h]

theorem nat32?_ofNat {n : Nat} (h : n ≤ Binary64.top32) : nat32? (ofNat n) = some n :=
  natUpTo?_ofNat h (by decide)

theorem isSound_ofNat (n : Nat) : (ofNat n).IsSound := by
  have hsound := NumberParts.isSound_text (wellFormed_toDigits n)
  rwa [text_toDigits] at hsound

/-! ## The significand -/

variable {s E : Nat} {digits : List Char}

/-- A whole part that fits is read to its end. -/
theorem wholeDigits_eq (h : ofDigits digits ≤ topSignificand) :
    wholeDigits digits = (ofDigits digits, 0) := by
  induction digits using List.reverseRecOn with
  | nil => rfl
  | append_singleton digits c ih =>
      have hsnoc : ofDigits (digits ++ [c]) = 10 * ofDigits digits + (c.toNat - '0'.toNat) := by
        simp [ofDigits]
      have hfirst := ih (by omega)
      rw [wholeDigits] at hfirst
      rw [wholeDigits, List.foldl_append, hfirst, hsnoc]
      simp only [List.foldl_cons, List.foldl_nil, true_and]
      rw [if_pos (by omega)]

/-- Digits of the fraction are read as long as the significand fits, so that it is no more than all
digits together. -/
theorem fractionDigits_spec {value : Nat} (digits : List Char) (hvalue : value ≤ topSignificand) :
    (fractionDigits value digits).1 ≤ topSignificand ∧
      (fractionDigits value digits).2 ≤ digits.length ∧
      (fractionDigits value digits).1 * 10 ^ (digits.length - (fractionDigits value digits).2) ≤
        10 ^ digits.length * value + ofDigits digits := by
  induction digits generalizing value with
  | nil => simp [fractionDigits, hvalue]
  | cons c digits ih =>
      rw [fractionDigits]
      dsimp only
      split
      case isTrue hmore =>
        obtain ⟨hfits, hcount, hle⟩ := ih hmore
        have hcons := Decimal.ofDigits_append [c] digits
        have hone : ofDigits [c] = c.toNat - '0'.toNat := by simp [ofDigits]
        rw [hone, List.singleton_append] at hcons
        refine ⟨hfits, by simpa using hcount, ?_⟩
        rw [List.length_cons, Nat.add_sub_add_right, hcons]
        refine hle.trans_eq ?_
        ring
      case isFalse =>
        refine ⟨hvalue, Nat.zero_le _, ?_⟩
        rw [Nat.sub_zero, Nat.mul_comm]
        exact Nat.le_add_right _ _

/-! ## Scaling -/

section Scaling

open Binary64 (rounded)
open Decimal (Scalable)

theorem isSome_scaleUp? (hs : s ≤ topSignificand) (h : Scalable s E) :
    (scaleUp? (.ofNat s) E).isSome := by
  rw [scaleUp?]
  split
  case isTrue hpower =>
    have hsignificand : (Binary64.ofNat s).Has (rounded s) := by
      refine Binary64.has_ofRat (Binary64.abs_rounded_lt_overflow ?_)
      rw [Nat.abs_cast]
      exact le_trans (by exact_mod_cast hs) (by decide +kernel : (topSignificand : Rat) ≤ _)
    have hpow : (Binary64.ofRat ((10 : Rat) ^ E)).Has (rounded ((10 : Rat) ^ E)) := by
      refine Binary64.has_ofRat ?_
      rw [Binary64.abs_rounded, abs_of_nonneg (by positivity)]
      refine (Binary64.rounded_mono (pow_le_pow_right₀ (by norm_num) hpower)).trans_lt ?_
      decide +kernel
    have hproduct := hsignificand.mul hpow ?_
    · obtain ⟨_, _, _, _, hfinite⟩ := Binary64.exists_eq_finite hproduct.isFinite
      rw [hfinite]
      rfl
    · rw [Binary64.abs_rounded, abs_of_nonneg (mul_nonneg
        (Binary64.rounded_nonneg (by positivity)) (Binary64.rounded_nonneg (by positivity)))]
      exact h.product
  case isFalse hpower =>
    obtain rfl : s = 0 := by
      by_contra hne
      exact hpower (h.power hne)
    rfl

/-- A significand times any power of ten, as the reader takes it. -/
def scaled? (s : Nat) (exp : Int) : Option Binary64 :=
  if 0 ≤ exp then scaleUp? (.ofNat s) exp.toNat else some (scaleDown (.ofNat s) (-exp).toNat)

theorem isSome_scaled? {exp : Int} (hs : s ≤ topSignificand)
    (h : ∀ E : Nat, exp = E → Scalable s E) : (scaled? s exp).isSome := by
  rw [scaled?]
  split
  case isTrue hexp => exact isSome_scaleUp? hs (h exp.toNat (Int.toNat_of_nonneg hexp).symm)
  case isFalse => rfl

theorem isSome_scaled?_of_le {exp : Int} (hs : s ≤ topSignificand) (hexp : exp ≤ 0) :
    (scaled? s exp).isSome := by
  refine isSome_scaled? hs fun E hE => Decimal.scalable_of_le ?_
  obtain rfl : E = 0 := by omega
  rw [pow_zero, mul_one]
  exact le_trans (by exact_mod_cast hs) (by decide +kernel : (topSignificand : Rat) ≤ _)

namespace NumberParts

variable {p : NumberParts}

/-- The significand that is read, and how many of its digits are from the fraction. -/
def significand (p : NumberParts) : Nat × Nat :=
  fractionDigits (ofDigits p.whole) (p.fraction.getD [])

theorem isSome_toBinary64?_of_fraction (hwhole : ofDigits p.whole ≤ topSignificand)
    (hexponent : p.exponent = none) : p.toBinary64?.isSome := by
  obtain ⟨hfits, -, -⟩ := fractionDigits_spec (p.fraction.getD []) hwhole
  rw [toBinary64?]
  simp only [wholeDigits_eq hwhole, hexponent, Option.isSome_map]
  exact isSome_scaled?_of_le hfits (by omega)

theorem isSome_toBinary64?_of_exponent {down : Bool} (hwhole : ofDigits p.whole ≤ topSignificand)
    (hexponent : p.exponent = some (down, digits))
    (htop : down = false → p.significand.1 ≠ 0 → ofDigits digits ≤ topExponent)
    (hup : down = false → ∀ E : Nat, (ofDigits digits : Int) = p.significand.2 + E →
      Scalable p.significand.1 E) : p.toBinary64?.isSome := by
  obtain ⟨hfits, -, -⟩ := fractionDigits_spec (p.fraction.getD []) hwhole
  rw [toBinary64?]
  simp only [wholeDigits_eq hwhole, hexponent]
  simp only [significand] at htop hup
  split
  case isTrue hlarge =>
    rw [if_pos]
    · rfl
    · by_contra h
      simp only [not_or, Bool.not_eq_true] at h
      exact absurd hlarge (not_lt.mpr (htop h.2 h.1))
  case isFalse =>
    rw [Option.isSome_map]
    cases down with
    | true => exact isSome_scaled?_of_le hfits (by simp only [if_true]; omega)
    | false =>
        refine isSome_scaled? hfits fun E hE => hup rfl E ?_
        simp only [Bool.false_eq_true, if_false] at hE
        omega

end NumberParts

end Scaling

/-! ## Binary64 numbers -/

section Reals

open Decimal (Scaled pointed)

variable {d : Scaled}

/-- With its sign, a text is that of a number that is read, and not as an integer. -/
structure IsReal (negative : Bool) (text : List Char) (p : NumberParts) : Prop where
  text_eq : (if negative then ['-'] else []) ++ text = p.text
  wellFormed : p.WellFormed
  marked : p.fraction ≠ none ∨ p.exponent ≠ none
  isSome : p.toBinary64?.isSome

/-- A whole number that fits is marked by a zero behind the point. -/
theorem isReal_whole (negative : Bool) {n : Nat} (h : n ≤ topSignificand) :
    IsReal negative (pointed n 0 ++ ['.', '0'])
      ⟨negative, Nat.toDigits 10 n, some ['0'], none⟩ := by
  have hpointed : pointed n 0 = Nat.toDigits 10 n := by
    have hlength : 1 ≤ (Nat.toDigits 10 n).length := Nat.length_toDigits_pos
    rw [pointed, if_pos rfl, Nat.sub_zero, List.take_length, Decimal.padded, List.leftpad]
    simp [Nat.sub_eq_zero_of_le hlength]
  refine ⟨?_, ⟨digits_toDigits n, length_toDigits_of_head?, ?_, by simp⟩, .inl (by simp),
    NumberParts.isSome_toBinary64?_of_fraction (by rwa [Decimal.ofDigits_toDigits]) rfl⟩
  · simp [hpointed, NumberParts.text, NumberParts.fractionText, NumberParts.exponentText]
  · simp [Digits, isDigit]

/-- Digits around a point, where those before it fit. -/
theorem exists_isReal_pointed (negative : Bool) {n places : Nat} (hplaces : places ≠ 0)
    (h : n < 10 ^ (16 + places)) : ∃ p, IsReal negative (pointed n places) p := by
  obtain ⟨whole, fraction, htext, hwhole, hlength, hdigits, hvalue, hlead⟩ :=
    Decimal.pointed_spec n hplaces
  rw [List.forall_mem_append] at hdigits
  have hfraction : fraction ≠ [] := by
    rw [← List.length_pos_iff_ne_nil]
    omega
  have hfits : ofDigits whole ≤ topSignificand := by
    rw [Decimal.ofDigits_append, hlength] at hvalue
    have hless : 10 ^ places * ofDigits whole < 10 ^ places * 10 ^ 16 := by
      rw [← pow_add, add_comm places]
      omega
    exact (Nat.lt_of_mul_lt_mul_left hless).le.trans (by decide)
  refine ⟨⟨negative, whole, some fraction, none⟩, ?_, ⟨⟨hwhole, hdigits.1⟩, hlead, ?_, by simp⟩,
    .inl (by simp), NumberParts.isSome_toBinary64?_of_fraction hfits rfl⟩
  · simp [htext, NumberParts.text, NumberParts.fractionText, NumberParts.exponentText]
  · simpa using ⟨hfraction, hdigits.2⟩

theorem toList_repr (k : Int) : 'e' :: k.repr.toList =
    NumberParts.exponentText (some (decide (k < 0), Nat.toDigits 10 k.natAbs)) := by
  cases k <;> simp [NumberParts.exponentText, Int.repr, Nat.toList_repr]

theorem ofDigits_digit_lt {c : Char} (h : isDigit c) : ofDigits [c] < 10 := by
  simp only [isDigit, Bool.and_eq_true, decide_eq_true_eq, Char.le_def, UInt32.le_iff_toNat_le] at h
  have htop : '9'.val.toNat = 57 := rfl
  have hvalue : ofDigits [c] = c.val.toNat - 48 := by simp [ofDigits]
  omega

theorem pow_length_le {n : Nat} {first : Char} {rest : List Char}
    (h : Nat.toDigits 10 n = first :: rest) (hn : n ≠ 0) : 10 ^ rest.length ≤ n := by
  by_contra hsmall
  have hlength := congrArg List.length h
  rw [List.length_cons] at hlength
  rcases Nat.eq_zero_or_pos rest.length with hzero | hpos
  · rw [hzero, pow_zero] at hsmall
    omega
  · have hshort := (Nat.length_toDigits_le_iff (by decide) hpos).mpr (not_le.mp hsmall)
    omega

theorem le_value {k : Nat} (h : s * 10 ^ k ≤ d.digits) (hE : (E : Int) = d.exp + k) :
    (s : Rat) * 10 ^ E ≤ d.value := by
  have hpow : (10 : Rat) ^ E = 10 ^ k * (10 : Rat) ^ d.exp := by
    rw [← zpow_natCast, hE, zpow_add₀ (by norm_num), zpow_natCast, mul_comm]
  rw [hpow, ← mul_assoc, Scaled.value]
  gcongr
  exact_mod_cast h

/-- A digit, others behind a point, and an exponent. -/
theorem isReal_exponent (negative : Bool) (h : d.Scalable) {first : Char} {rest : List Char}
    (hwritten : Nat.toDigits 10 d.digits = first :: rest) :
    IsReal negative (first :: ((if rest = [] then [] else '.' :: rest) ++
        'e' :: (toString (rest.length + d.exp)).toList))
      ⟨negative, [first], if rest = [] then none else some rest,
        some (decide (rest.length + d.exp < 0), Nat.toDigits 10 (rest.length + d.exp).natAbs)⟩ := by
  obtain ⟨-, hdigits⟩ := digits_toDigits d.digits
  rw [hwritten, List.forall_mem_cons] at hdigits
  refine ⟨?text, ⟨⟨by simp, by simpa using hdigits.1⟩, by simp, ?fraction, ?exponent⟩,
    .inr (by simp), ?value⟩
  case text => cases rest <;> simp [NumberParts.text, NumberParts.fractionText, toList_repr]
  case fraction =>
    intro digits hfraction
    obtain ⟨hne, hrest⟩ := Option.ite_none_left_eq_some.mp hfraction
    cases hrest
    exact ⟨hne, hdigits.2⟩
  case exponent =>
    rintro e he
    cases he
    exact digits_toDigits _
  case value =>
    have hfirst : ofDigits [first] ≤ topSignificand :=
      (ofDigits_digit_lt hdigits.1).le.trans (by decide)
    have hgetD : (if rest = [] then none else some rest).getD [] = rest := by
      split <;> simp_all
    obtain ⟨-, hcount, hle⟩ := fractionDigits_spec rest hfirst
    rw [← Decimal.ofDigits_append, List.singleton_append, ← hwritten, Decimal.ofDigits_toDigits]
      at hle
    refine NumberParts.isSome_toBinary64?_of_exponent hfirst rfl ?_ ?_
    all_goals
      simp only [NumberParts.significand, hgetD, Decimal.ofDigits_toDigits,
        decide_eq_false_iff_not, not_lt]
      generalize (fractionDigits (ofDigits [first]) rest).1 = s at *
      generalize (fractionDigits (ofDigits [first]) rest).2 = count at *
      intro hup
    · intro hs
      have hpos : 0 < d.digits :=
        (Nat.mul_pos (Nat.pos_of_ne_zero hs) (Nat.pow_pos (by decide))).trans_le hle
      have hone : 1 * 10 ^ rest.length ≤ d.digits := by
        rw [one_mul]
        exact pow_length_le hwritten hpos.ne'
      have hscalable := h 1 (rest.length + d.exp).natAbs (by omega) (le_value hone (by omega))
      exact (hscalable.power one_ne_zero).trans (by decide)
    · intro E hE
      exact h s E (by omega) (le_value hle (by omega))

/-- A decimal that can be scaled up is written as a number that is read. -/
theorem exists_isReal_data (negative : Bool) (h : d.Scalable) :
    ∃ p, IsReal negative d.data p := by
  rw [Scaled.data]
  dsimp only
  split
  case isTrue hpoint =>
    rw [Decimal.greatestPoint] at hpoint
    have hdigits : d.digits < 10 ^ (Nat.toDigits 10 d.digits).length :=
      (Nat.length_toDigits_le_iff (by decide) Nat.length_toDigits_pos).mp le_rfl
    split
    case isTrue hexp =>
      have hless : d.digits * 10 ^ d.exp.toNat < 10 ^ 16 := calc
        d.digits * 10 ^ d.exp.toNat
            < 10 ^ (Nat.toDigits 10 d.digits).length * 10 ^ d.exp.toNat := by gcongr
        _ = 10 ^ ((Nat.toDigits 10 d.digits).length + d.exp.toNat) := (pow_add ..).symm
        _ ≤ 10 ^ 16 := Nat.pow_le_pow_right (by decide) (by omega)
      rw [Scaled.positional, if_pos hexp]
      exact ⟨_, isReal_whole negative (hless.le.trans (by decide))⟩
    case isFalse hexp =>
      rw [Scaled.positional, if_neg hexp]
      refine exists_isReal_pointed negative (by omega) (hdigits.trans_le ?_)
      exact Nat.pow_le_pow_right (by decide) (by omega)
  case isFalse =>
    obtain ⟨first, rest, hwritten⟩ :=
      List.exists_cons_of_ne_nil (Nat.toDigits_ne_nil (b := 10) (n := d.digits))
    have hreal := isReal_exponent negative h hwritten
    have hpoint : ((first :: rest).length : Int) + d.exp - 1 = rest.length + d.exp := by
      rw [List.length_cons]
      omega
    rw [hwritten, hpoint]
    cases rest with
    | nil => exact ⟨_, by simpa using hreal⟩
    | cons second rest => exact ⟨_, by simpa using hreal⟩

variable {x : Binary64}

/-- A finite number is written as a number that is read. -/
theorem exists_isReal (h : x.isFinite) : ∃ negative text p,
    Decimal.data? x = some (String.ofList ((if negative then ['-'] else []) ++ text)) ∧
      IsReal negative text p := by
  obtain ⟨negative, mant, exp, hc, rfl⟩ := Binary64.exists_eq_finite h
  by_cases hmant : mant = 0
  · refine ⟨negative, ['0', '.', '0'], _, ?_, isReal_whole negative (n := 0) (Nat.zero_le _)⟩
    simp [Decimal.data?, hmant]
  · obtain ⟨p, hp⟩ := exists_isReal_data negative (Decimal.scalable_shortestOf hc)
    refine ⟨negative, _, p, ?_, hp⟩
    simp [Decimal.data?, hmant]

/-- Of what is written for a finite number, some number is read. -/
theorem isSome_real?_ofBinary64 (h : x.isFinite) :
    (ofBinary64 x).IsSound ∧ (real? (ofBinary64 x)).isSome := by
  obtain ⟨negative, text, p, hdata, htext, hp, hmarked, hvalue⟩ := exists_isReal h
  have hnumber : ofBinary64 x = .number p.text := by
    rw [ofBinary64, hdata, htext]
    simp
  have hreal : ¬ (p.fraction = none ∧ p.exponent = none ∧ (if p.negative then
      0 < ofDigits p.whole ∧ ofDigits p.whole ≤ topNegative else
        ofDigits p.whole ≤ topSignificand)) := by
    rintro ⟨hfraction, hexponent, -⟩
    exact hmarked.elim (· hfraction) (· hexponent)
  rw [hnumber]
  refine ⟨NumberParts.isSound_text hp, ?_⟩
  rw [real?, Option.isSome_map, quantity?, NumberParts.ofText?_text hp]
  simp only [Option.bind_eq_bind, Option.bind_some, if_neg hreal, Option.isSome_map, hvalue]

end Reals

end Montage.Json
