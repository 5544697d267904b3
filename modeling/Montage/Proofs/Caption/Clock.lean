import Montage.Proofs.Caption.Rows

/-! # The clock of a document

Times stand in a document as readings of a clock: hours, and below them minutes, seconds and
hundredths that never reach the next higher field. A time in milliseconds is shown as the reading
after the hundredths that are over by then. -/

namespace Montage.Caption

/-- A reading of the clock. -/
structure Clock where
  hours : Nat
  minutes : Nat
  seconds : Nat
  centis : Nat
  minutes_lt : minutes < 60
  seconds_lt : seconds < 60
  centis_lt : centis < 100
  deriving DecidableEq

namespace Clock

/-- The hundredths of a second that a reading stands for. -/
def total (c : Clock) : Nat := 100 * (60 * (60 * c.hours + c.minutes) + c.seconds) + c.centis

/-- The milliseconds that a reading stands for. -/
def ms (c : Clock) : Nat := 10 * c.total

/-- The reading after a number of hundredths. -/
def after (n : Nat) : Clock where
  hours := n / 100 / 60 / 60
  minutes := n / 100 / 60 % 60
  seconds := n / 100 % 60
  centis := n % 100
  minutes_lt := Nat.mod_lt _ (by decide)
  seconds_lt := Nat.mod_lt _ (by decide)
  centis_lt := Nat.mod_lt _ (by decide)

@[simp] theorem total_after (n : Nat) : (after n).total = n := by
  simp only [total, after, Nat.div_add_mod]

/-- Reads a text `H:MM:SS.cc`: the last three fields have two digits each, and each field stays
below its bound. -/
def read? (text : List Char) : Option Clock :=
  match text.splitOn ':' with
  | [hours, minutes, rest] =>
      match rest.splitOn '.' with
      | [seconds, centis] => do
          let hours ← Decimal.natOfText? hours
          let minutes ← twoDigits? minutes
          let seconds ← twoDigits? seconds
          let centis ← twoDigits? centis
          if h : minutes < 60 ∧ seconds < 60 ∧ centis < 100 then
            return { hours, minutes, seconds, centis, minutes_lt := h.1, seconds_lt := h.2.1,
                     centis_lt := h.2.2 }
          else none
      | _ => none
  | _ => none

/-- The fields are the remainders of the hundredths by an hour, a minute and a second. -/
theorem read?_timestamp (ms : Nat) : read? (timestamp ms).toList = some (after (ms / 10)) := by
  obtain ⟨hfields, hlast⟩ := splitOn_timestamp ms
  generalize ms / 10 = centis at hfields hlast ⊢
  have hhours : centis / 360000 = centis / 100 / 60 / 60 := by
    rw [Nat.div_div_eq_div_mul, Nat.div_div_eq_div_mul]
  have hminutes : centis % 360000 / 6000 = centis / 100 / 60 % 60 := by
    rw [Nat.div_div_eq_div_mul]
    exact Nat.mod_mul_right_div_self centis 6000 60
  have hseconds : centis % 6000 / 100 = centis / 100 % 60 :=
    Nat.mod_mul_right_div_self centis 100 60
  rw [hhours, hminutes, hseconds] at hfields
  rw [hseconds] at hlast
  obtain ⟨hminute, hsecond, hcenti⟩ :=
    (⟨(after centis).minutes_lt, (after centis).seconds_lt, (after centis).centis_lt⟩ :
      centis / 100 / 60 % 60 < 60 ∧ centis / 100 % 60 < 60 ∧ centis % 100 < 100)
  simp only [read?, hfields, hlast, Decimal.natOfText?_toDigits,
    twoDigits?_padded (hminute.trans (by decide)), twoDigits?_padded (hsecond.trans (by decide)),
    twoDigits?_padded hcenti, Option.bind_eq_bind, Option.bind_some, hminute, hsecond, hcenti,
    and_self, dif_pos, Option.pure_def, after]

/-- Each time is shown as a reading of the clock, and that reading is the time cut off to hundredths
of a second. So a later time never reads as an earlier one, and two times look alike when they agree
up to the hundredth, and only then. -/
theorem reads_timestamp : ∃ shown : Nat → Clock,
    (∀ ms, read? (timestamp ms).toList = some (shown ms) ∧ (shown ms).ms = ms - ms % 10) ∧
    Monotone (fun ms => (shown ms).ms) ∧
    ∀ a b, timestamp a = timestamp b ↔ a / 10 = b / 10 := by
  have hms (ms : Nat) : (after (ms / 10)).ms = ms - ms % 10 := by
    rw [Clock.ms, total_after]
    omega
  refine ⟨fun ms => after (ms / 10), fun ms => ⟨read?_timestamp ms, hms ms⟩, fun a b h => ?_,
    fun a b => ⟨fun h => ?_, fun h => ?_⟩⟩
  · have hle : a / 10 ≤ b / 10 := Nat.div_le_div_right h
    simpa only [Clock.ms, total_after] using Nat.mul_le_mul_left 10 hle
  · have hread : some (after (a / 10)) = some (after (b / 10)) := by
      rw [← read?_timestamp, ← read?_timestamp, h]
    simpa only [total_after] using congrArg total (Option.some.inj hread)
  · simp only [timestamp, h]

example : (timestamp 3599999 = "0:59:59.99" ∧ timestamp 3600000 = "1:00:00.00") ∧
    read? "0:60:00.00".toList = none ∧ read? "0:1:00.00".toList = none := by decide +kernel

end Clock

end Montage.Caption
