import Montage.Proofs.Binary64.Bounds
import Montage.Proofs.Progress.Tracker

/-! # The pace of the encoder

While encoding, the reported percent follows the last time that the encoder has told, as a share of
the expected length. This holds as long as the last time that can be read is finite. -/

namespace Montage

namespace Binary64

variable {x y : Binary64} {q v w : Rat}

/-- The share of a length that was reached, within the unit range and rounded. -/
def share (reached length : Rat) : Rat := rounded (max 0 (min (reached / length) 1))

theorem monotone_rounded : Monotone rounded := fun _ _ => rounded_mono

theorem rounded_one : rounded 1 = 1 := by simpa using rounded_natCast (n := 1) (by decide)

theorem rounded_between {m n : Nat} (hm : m ≤ mantBound) (hn : n ≤ mantBound) (h : m ≤ q)
    (h' : q ≤ n) : m ≤ rounded q ∧ rounded q ≤ n :=
  ⟨(rounded_natCast hm).ge.trans (rounded_mono h), rounded_le_natCast hn h'⟩

/-- Also a quotient that is too great is clamped to the nearest bound. -/
theorem Has.clamp?_div (hx : x.Has v) (hy : y.Has w) (hw : 0 < w) :
    ∃ z, (x / y).clamp? 0 1 = some z ∧ z.Has (share v w) := by
  obtain ⟨sign, heq⟩ := hx.div_eq hy hw.ne'
  rw [heq, share, monotone_rounded.map_max, monotone_rounded.map_min, rounded_zero, rounded_one]
  have hinfinite {q : Rat} (hq : 0 < q) (h : ¬ |rounded q| < overflow) :
      ofRat q = .infinite false :=
    (unsigned_ofRat hq.le).eq_infinite (h ∘ (isFinite_ofRat_iff hq).mp)
  have hone : (1 : Rat) < overflow := by decide +kernel
  by_cases hfits : |rounded (v / w)| < overflow
  · exact (has_ofRatSigned sign hfits).clamp? has_zero has_one zero_le_one
  rcases lt_trichotomy (v / w) 0 with hneg | hzero | hpos
  · have hbelow := rounded_nonpos hneg.le
    rw [ofRatSigned_of_neg sign hneg,
      hinfinite (neg_pos.mpr hneg) (by rwa [rounded_neg, abs_neg]),
      max_eq_left ((min_le_left _ _).trans hbelow)]
    exact ⟨0, by decide +kernel, has_zero⟩
  · rw [hzero, rounded_zero, abs_zero] at hfits
    exact absurd (one_pos.trans hone) hfits
  · have habove := hone.le.trans (not_lt.mp hfits)
    rw [abs_of_nonneg (rounded_nonneg hpos.le)] at habove
    rw [ofRatSigned_of_pos sign hpos, hinfinite hpos hfits, min_eq_right habove,
      max_eq_right zero_le_one]
    exact ⟨1, by decide +kernel, has_one⟩

theorem Has.minimum_of_le (hx : x.Has v) (hy : y.Has w) (h : v ≤ w) : x.minimum y = x := by
  have hnot : ¬ y < x := fun hlt => absurd ((hy.lt_iff hx).mp hlt) (not_lt.mpr h)
  rw [minimum, hx.isNaN_eq_false, hy.isNaN_eq_false, if_neg Bool.false_ne_true,
    if_neg Bool.false_ne_true, if_neg hnot]

theorem div_of_isNaN (h : x.isNaN) (y : Binary64) : x / y = nan := by
  simp [HDiv.hDiv, Div.div, div, h]

theorem Has.infinite_div (hy : y.Has w) (hw : 0 < w) (negative : Bool) :
    .infinite negative / y = .infinite negative := by
  have hpos : 0 < y := (has_zero.lt_iff hy).mpr hw
  have hsign := (toRat_pos hy.isFinite hpos).2.sign
  obtain ⟨positive, _, _, _, rfl⟩ := exists_eq_finite hy.isFinite
  obtain rfl : positive = false := hsign
  cases negative <;> rfl

end Binary64

open Binary64 (share rounded)

theorem share_bounds (reached length : Rat) :
    0 ≤ share reached length ∧ share reached length ≤ 1 := by
  have hone := Binary64.rounded_mono (max_le zero_le_one (min_le_right (reached / length) 1))
  rw [Binary64.rounded_one] at hone
  exact ⟨Binary64.rounded_nonneg (le_max_left _ _), hone⟩

theorem Progress.has_compiled : compiled.Has 10 := Binary64.has_literal 10 (by decide)

theorem Progress.has_span : (ceiling - compiled).Has 89 := ⟨by decide +kernel, by decide +kernel⟩

/-- Neither the part that is encoded nor the percent is rounded out of its range. -/
theorem percent_bounds {v : Rat} (hzero : 0 ≤ v) (hone : v ≤ 1) :
    (0 ≤ rounded (89 * v) ∧ rounded (89 * v) ≤ 89) ∧
      10 ≤ rounded (10 + rounded (89 * v)) ∧ rounded (10 + rounded (89 * v)) ≤ 99 := by
  have hpart := Binary64.rounded_between (m := 0) (n := 89) (q := 89 * v) (by decide) (by decide)
    (by push_cast; linarith) (by push_cast; linarith)
  push_cast at hpart
  have hwhole := Binary64.rounded_between (m := 10) (n := 99) (q := 10 + rounded (89 * v))
    (by decide) (by decide) (by push_cast; linarith) (by push_cast; linarith)
  push_cast at hwhole
  exact ⟨hpart, hwhole⟩

theorem has_encodePercent {ratio : Binary64} {v : Rat} (h : ratio.Has v) (hzero : 0 ≤ v)
    (hone : v ≤ 1) : (encodePercent ratio).Has (rounded (10 + rounded (89 * v))) := by
  obtain ⟨⟨hpart, hpart'⟩, hwhole, hwhole'⟩ := percent_bounds hzero hone
  have hproduct := Progress.has_span.mul h
    (Binary64.abs_lt_overflow_of_le hpart (hpart'.trans (by norm_num)))
  have hsum := Progress.has_compiled.add hproduct
    (Binary64.abs_lt_overflow_of_le (by linarith) (hwhole'.trans (by norm_num)))
  rwa [encodePercent, h.clamp?_eq Binary64.has_zero Binary64.has_one hzero hone, Option.getD_some,
    hsum.minimum_of_le Progress.has_ceiling hwhole']

/-- The two roundings of a percent move it by no more than their last places. -/
theorem abs_rounded_percent_sub_le {v : Rat} (hzero : 0 ≤ v) (hone : v ≤ 1) :
    |rounded (10 + rounded (89 * v)) - (10 + 89 * v)| ≤ (2 : Rat) ^ (-46 : Int) := by
  have hpart : |rounded (89 * v) - 89 * v| ≤ (2 : Rat) ^ (-47 : Int) := by
    apply Binary64.abs_rounded_sub_le (k := 7)
    rw [abs_of_nonneg (by linarith)]
    linarith
  have hwhole : |rounded (10 + rounded (89 * v)) - (10 + rounded (89 * v))| ≤
      (2 : Rat) ^ (-47 : Int) := by
    obtain ⟨hlow, hhigh⟩ := (percent_bounds hzero hone).1
    apply Binary64.abs_rounded_sub_le (k := 7)
    rw [abs_of_nonneg (by linarith)]
    linarith
  calc |rounded (10 + rounded (89 * v)) - (10 + 89 * v)|
      = |(rounded (10 + rounded (89 * v)) - (10 + rounded (89 * v))) +
          (rounded (89 * v) - 89 * v)| := by ring_nf
    _ ≤ (2 : Rat) ^ (-47 : Int) + (2 : Rat) ^ (-47 : Int) :=
        (abs_add_le _ _).trans (add_le_add hwhole hpart)
    _ = (2 : Rat) ^ (-46 : Int) := by norm_num

namespace EncodeState

variable {s : EncodeState} {length : Binary64}

theorem ratio_eq (h : length.Positive) : s.ratio length =
    ((s.reached / length).clamp? 0 1).getD (s.reached / length) := by
  rw [ratio, if_neg]
  rw [(Binary64.has_toRat h.1).le_iff Binary64.has_zero]
  exact not_le.mpr h.2

theorem has_ratio (h : length.Positive) {time : Rat} (hs : s.reached.Has time) :
    (s.ratio length).Has (share time length.toRat) := by
  obtain ⟨z, hz, hvalue⟩ := hs.clamp?_div (Binary64.has_toRat h.1) h.2
  rwa [ratio_eq h, hz, Option.getD_some]

theorem ratio_of_isNaN (h : length.Positive) (hs : s.reached.isNaN) : (s.ratio length).isNaN := by
  rw [ratio_eq h, Binary64.div_of_isNaN hs]
  decide +kernel

theorem ratio_of_infinite (h : length.Positive) {negative : Bool}
    (hs : s.reached = .infinite negative) :
    (s.ratio length).Has (if negative then 0 else 1) := by
  rw [ratio_eq h, hs, (Binary64.has_toRat h.1).infinite_div h.2]
  cases negative with
  | true => exact ⟨by decide +kernel, by decide +kernel⟩
  | false => exact ⟨by decide +kernel, by decide +kernel⟩

/-! ## Statements of the encoder -/

/-- The microseconds that a statement tells, if its value can be read as a number. -/
def micros? (key value : String) : Option Binary64 :=
  if key = "out_time_ms" ∨ key = "out_time_us" then Decimal.numberOfText? value.toList else none

/-- What is known after some statements. -/
def heard (statements : List (String × String)) : EncodeState :=
  statements.foldl (fun s statement => s.update statement.1 statement.2) {}

/-- The numbers that were told as microseconds. -/
def readings (statements : List (String × String)) : List Binary64 :=
  statements.filterMap fun statement => micros? statement.1 statement.2

/-- The last time that is finite, in seconds; none was told at the beginning. -/
def lastTime (statements : List (String × String)) : Rat :=
  (((readings statements).filter (·.isFinite)).getLast?.map fun micros =>
    rounded (micros.toRat / 1000000)).getD 0

/-- A statement without a number that can be read leaves the time as it was. -/
theorem reached_update (s : EncodeState) (key value : String) :
    (s.update key value).reached = ((micros? key value).map (· / 1000000)).getD s.reached := by
  rw [update, micros?]
  split
  case isTrue => cases Decimal.numberOfText? value.toList <;> rfl
  case isFalse => split <;> rfl

/-- The time that was reached is the last one that could be read. -/
theorem reached_heard (statements : List (String × String)) : (heard statements).reached =
    ((readings statements).getLast?.map (· / 1000000)).getD 0 := by
  induction statements using List.reverseRecOn with
  | nil => rfl
  | append_singleton statements statement ih =>
      rw [heard, List.foldl_concat, ← heard, reached_update, readings, List.filterMap_append,
        ← readings, List.filterMap_cons, List.filterMap_nil]
      cases micros? statement.1 statement.2 with
      | none => simpa using ih
      | some micros => simp

theorem has_million : (1000000 : Binary64).Has 1000000 := Binary64.has_literal _ (by decide)

theorem has_seconds {micros : Binary64} (h : micros.isFinite) :
    (micros / 1000000).Has (rounded (micros.toRat / 1000000)) := by
  apply (Binary64.has_toRat h).div has_million (by norm_num)
  have hsmaller : |micros.toRat / 1000000| ≤ |micros.toRat| := by
    rw [abs_div]
    exact div_le_self (abs_nonneg _) (by norm_num)
  calc |rounded (micros.toRat / 1000000)| = rounded |micros.toRat / 1000000| :=
        Binary64.abs_rounded _
    _ ≤ rounded |micros.toRat| := Binary64.rounded_mono hsmaller
    _ = |micros.toRat| := by rw [← Binary64.abs_rounded, Binary64.rounded_toRat h]
    _ < Binary64.overflow := (Binary64.has_toRat h).abs_lt_overflow

theorem lastTime_of_readings {statements : List (String × String)} {micros : Binary64}
    (hlast : (readings statements).getLast? = some micros) (hfinite : micros.isFinite) :
    lastTime statements = rounded (micros.toRat / 1000000) := by
  obtain ⟨earlier, heq⟩ := List.getLast?_eq_some_iff.mp hlast
  rw [lastTime, heq, List.filter_append]
  simp [hfinite]

/-- The reported progress goes with a time: the ratio is its share of the length, and the percent
lies so far between the percents at the beginning and at the end of encoding. -/
structure Paced (s : EncodeState) (time : Rat) (length : Binary64) : Prop where
  ratio : (s.ratio length).Has (share time length.toRat)
  bounds : (s.ratio length).Within 0 1
  percent : (encodePercent (s.ratio length)).Within 10 99
  near : |(encodePercent (s.ratio length)).toRat - (10 + 89 * (s.ratio length).toRat)| ≤
    (2 : Rat) ^ (-46 : Int)

/-- A ratio that is a number is paced with a time exactly if it is the share of that time. -/
theorem paced_iff_of_has {time v : Rat} (h : (s.ratio length).Has v) (hzero : 0 ≤ v)
    (hone : v ≤ 1) : s.Paced time length ↔ share time length.toRat = v := by
  constructor
  · intro hpaced
    exact hpaced.ratio.toRat_eq.symm.trans h.toRat_eq
  · rintro rfl
    have hpercent := has_encodePercent h hzero hone
    obtain ⟨-, hlow, hhigh⟩ := percent_bounds hzero hone
    refine ⟨h, h.within hzero hone, hpercent.within hlow hhigh, ?_⟩
    rw [hpercent.toRat_eq, h.toRat_eq]
    exact abs_rounded_percent_sub_le hzero hone

theorem paced_of_has_reached (h : length.Positive) {time : Rat} (hs : s.reached.Has time) :
    s.Paced time length := by
  obtain ⟨hzero, hone⟩ := share_bounds time length.toRat
  exact (paced_iff_of_has (has_ratio h hs) hzero hone).mpr rfl

theorem paced_iff_of_infinite (h : length.Positive) {time : Rat} {negative : Bool}
    (hs : s.reached = .infinite negative) :
    s.Paced time length ↔ share time length.toRat = if negative then 0 else 1 := by
  apply paced_iff_of_has (ratio_of_infinite h hs)
  · cases negative <;> simp
  · cases negative <;> simp

theorem not_paced_of_isNaN (h : length.Positive) {time : Rat} (hs : s.reached.isNaN) :
    ¬ s.Paced time length := by
  intro hpaced
  have hnan := ratio_of_isNaN h hs
  rw [hpaced.ratio.isNaN_eq_false] at hnan
  cases hnan

/-- The progress follows the last finite time exactly as long as no infinity or value that is not a
number was read after it, or where an infinity happens to give the same share. -/
theorem paced_iff (statements : List (String × String)) (h : length.Positive) :
    (heard statements).Paced (lastTime statements) length ↔
      ∀ micros ∈ (readings statements).getLast?, micros.isFinite ∨
        micros = .infinite false ∧ share (lastTime statements) length.toRat = 1 ∨
        micros = .infinite true ∧ share (lastTime statements) length.toRat = 0 := by
  have hreached := reached_heard statements
  cases hlast : (readings statements).getLast? with
  | none =>
      have htime : lastTime statements = 0 := by
        rw [lastTime, List.getLast?_eq_none_iff.mp hlast]
        rfl
      rw [hlast] at hreached
      have hs : (heard statements).reached.Has (lastTime statements) := by
        rw [htime, hreached]
        exact Binary64.has_zero
      simpa using paced_of_has_reached h hs
  | some micros =>
      rw [hlast] at hreached
      simp only [Option.mem_some_iff, forall_eq']
      cases micros with
      | finite negative mant exp hc =>
          have hfinite : (Binary64.finite negative mant exp hc).isFinite := rfl
          have hs := has_seconds hfinite
          rw [← lastTime_of_readings hlast hfinite] at hs
          have hpaced : (heard statements).Paced (lastTime statements) length :=
            paced_of_has_reached h (hreached ▸ hs)
          simpa [Binary64.isFinite] using hpaced
      | infinite negative =>
          have hinfinite := hreached.trans (has_million.infinite_div (by norm_num) negative)
          cases negative with
          | true => simpa [Binary64.isFinite] using paced_iff_of_infinite h hinfinite
          | false => simpa [Binary64.isFinite] using paced_iff_of_infinite h hinfinite
      | undefined negative payload hvalid =>
          have hnan : (heard statements).reached.isNaN := by
            rw [hreached]
            rfl
          simpa [Binary64.isFinite] using not_paced_of_isNaN h hnan

theorem paced_iff_of_unknown_time :
    let statements := [("out_time_us", "2500000"), ("progress", "continue"),
      ("out_time_ms", "5000000"), ("out_time_us", "N/A")]
    (10 : Binary64).Positive ∧ (heard statements).Paced (lastTime statements) 10 := by
  intro statements
  have hpositive : (10 : Binary64).Positive := ⟨by decide +kernel, by decide +kernel⟩
  have hlast : (readings statements).getLast? = some 5000000 := by decide +kernel
  refine ⟨hpositive, (paced_iff statements hpositive).mpr ?_⟩
  rw [hlast]
  rintro micros ⟨⟩
  exact .inl (by decide +kernel)

/-- After five seconds of ten, a time that is not a number shows the encoding as done. -/
theorem not_paced_of_nan :
    let statements := [("out_time_us", "5000000"), ("out_time_us", "nan")]
    lastTime statements = 5 ∧ encodePercent ((heard statements).ratio 10) = 99 ∧
      ¬ (heard statements).Paced (lastTime statements) 10 := by
  intro statements
  have hpositive : (10 : Binary64).Positive := ⟨by decide +kernel, by decide +kernel⟩
  have hnan : (heard statements).reached.isNaN := by decide +kernel
  exact ⟨by decide +kernel, by decide +kernel, not_paced_of_isNaN hpositive hnan⟩

end EncodeState

end Montage
