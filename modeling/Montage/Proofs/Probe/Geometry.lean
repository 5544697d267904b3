import Montage.Probe
import Montage.Proofs.Binary64.Bounds
import Montage.Proofs.Decimal.Digits
import Montage.Proofs.Json.Records

/-! # The size of a picture as it is shown

What a report of the probe says is told from its value, whose records may all have members that are
not looked at. The first video stream of a report tells the size, and which side is the width
depends on how far the picture is turned. -/

namespace Montage.Probe

/-! ## The form of a report -/

open Json (IsRecord IsNullable IsList string? nat32? real?)

/-- A record with one declared member, that may be null, or left out of an object. -/
inductive IsSingle {α : Type} (name : String) (read : Json → Option α) (j : Json) (a : Option α) :
    Prop
  | intro {slot : Json.Slot} (hrecord : IsRecord [name] j [slot])
      (h : slot.Omissible (IsNullable (read · = some ·)) none a)

/-- The form of a stream: its kind has to be there, and whatever else is there has its type. -/
inductive IsStream (j : Json) (s : StreamReport) : Prop
  | intro {kind width height tags sides : Json.Slot} {tag : Option (Option String)}
      (hrecord : IsRecord ["codec_type", "width", "height", "tags", "side_data_list"] j
        [kind, width, height, tags, sides])
      (hkind : kind.Required (string? · = some ·) s.kind)
      (hwidth : width.Omissible (IsNullable (nat32? · = some ·)) none s.width)
      (hheight : height.Omissible (IsNullable (nat32? · = some ·)) none s.height)
      (htags : tags.Defaulted (IsNullable (IsSingle "rotate" string?)) none tag)
      (htag : tag.join = s.rotateTag)
      (hsides : sides.Defaulted (IsList (IsSingle "rotation" real?)) [] s.rotations)

/-- The form of a report: both of its members may be left out. -/
inductive IsReport (j : Json) (r : Report) : Prop
  | intro {format streams : Json.Slot} {duration : Option (Option String)}
      (hrecord : IsRecord ["format", "streams"] j [format, streams])
      (hformat : format.Defaulted (IsNullable (IsSingle "duration" string?)) none duration)
      (hduration : duration.join = r.duration)
      (hstreams : streams.Defaulted (IsList IsStream) [] r.streams)

/-- A text that is a report with this content. -/
def Reads (text : String) (r : Report) : Prop := ∃ j, Json.read? text = some j ∧ IsReport j r

/-! ## Reading the forms -/

variable {j : Json}

theorem single_eq_some {α : Type} {name : String} {read : Json → Option α} {a : Option α} :
    (do (← Json.fields? [name] j).optionalMember name read) = some a ↔ IsSingle name read j a := by
  simp only [Option.bind_eq_bind, Option.bind_eq_some_iff, Json.fields?_iff,
    Json.Fields.optionalMember_eq_some Iff.rfl]
  constructor
  · rintro ⟨_, ⟨slots, hrecord, rfl⟩, h⟩
    match slots, hrecord.length_eq with
    | [slot], _ =>
        refine .intro hrecord ?_
        simpa [Json.Fields.slot] using h
  · rintro ⟨hrecord, h⟩
    refine ⟨_, ⟨_, hrecord, rfl⟩, ?_⟩
    simpa [Json.Fields.slot] using h

theorem rotateOfJson?_eq_some {tag : Option String} :
    rotateOfJson? j = some tag ↔ IsSingle "rotate" string? j tag := single_eq_some

theorem rotationOfJson?_eq_some {x : Option Binary64} :
    rotationOfJson? j = some x ↔ IsSingle "rotation" real? j x := single_eq_some

theorem durationOfJson?_eq_some {duration : Option String} :
    durationOfJson? j = some duration ↔ IsSingle "duration" string? j duration := single_eq_some

theorem streamOfJson?_eq_some {s : StreamReport} :
    StreamReport.ofJson? j = some s ↔ IsStream j s := by
  simp only [StreamReport.ofJson?, Option.bind_eq_bind, Option.bind_eq_some_iff, Option.pure_def,
    Option.some.injEq, Json.fields?_iff, Json.Fields.required_eq_some Iff.rfl,
    Json.Fields.optionalMember_eq_some Iff.rfl, Json.Fields.optional_eq_some rotateOfJson?_eq_some,
    Json.Fields.defaulted_eq_some (Json.list?_eq_some rotationOfJson?_eq_some)]
  constructor
  · rintro ⟨_, ⟨slots, hrecord, rfl⟩, _, hkind, _, hwidth, _, hheight, tag, htags, _, hsides, rfl⟩
    match slots, hrecord.length_eq with
    | [_, _, _, _, _], _ => exact .intro hrecord hkind hwidth hheight htags rfl hsides
  · rintro ⟨hrecord, hkind, hwidth, hheight, htags, htag, hsides⟩
    exact ⟨_, ⟨_, hrecord, rfl⟩, _, hkind, _, hwidth, _, hheight, _, htags, _, hsides, by rw [htag]⟩

theorem reportOfJson?_eq_some {r : Report} : Report.ofJson? j = some r ↔ IsReport j r := by
  simp only [Report.ofJson?, Option.bind_eq_bind, Option.bind_eq_some_iff, Option.pure_def,
    Option.some.injEq, Json.fields?_iff, Json.Fields.optional_eq_some durationOfJson?_eq_some,
    Json.Fields.defaulted_eq_some (Json.list?_eq_some streamOfJson?_eq_some)]
  constructor
  · rintro ⟨_, ⟨slots, hrecord, rfl⟩, duration, hformat, _, hstreams, rfl⟩
    match slots, hrecord.length_eq with
    | [_, _], _ => exact .intro hrecord hformat rfl hstreams
  · rintro ⟨hrecord, hformat, hduration, hstreams⟩
    exact ⟨_, ⟨_, hrecord, rfl⟩, _, hformat, _, hstreams, by rw [hduration]⟩

theorem read_eq_some {text : String} {r : Report} :
    (Json.read? text >>= Report.ofJson?) = some r ↔ Reads text r := by
  simp only [Option.bind_eq_bind, Option.bind_eq_some_iff, reportOfJson?_eq_some, Reads]

open Binary64 (Has)

/-! ## Rotations -/

/-- A text that is a whole number of degrees of 64 bits. -/
def IsDegrees (tag : String) (θ : Int) : Prop :=
  Decimal.IsInteger tag.toList θ ∧ leastDegrees ≤ θ ∧ θ ≤ greatestDegrees

/-- How far a picture is turned: what the tag says, if that can be read, else the first rotation
among the display data, rounded, and else not at all. -/
inductive StreamReport.IsTurned (s : StreamReport) : Int → Prop
  | tag {tag : String} {θ : Int} (htag : s.rotateTag = some tag) (hread : IsDegrees tag θ) :
      s.IsTurned θ
  | data {before after : List (Option Binary64)} {x : Binary64}
      (htag : ∀ tag ∈ s.rotateTag, ∀ θ, ¬ IsDegrees tag θ)
      (hfirst : s.rotations = before ++ some x :: after) (hbefore : ∀ r ∈ before, r = none) :
      s.IsTurned (Rounding.nearestAway x.toRat)
  | upright (htag : ∀ tag ∈ s.rotateTag, ∀ θ, ¬ IsDegrees tag θ)
      (hdata : ∀ r ∈ s.rotations, r = none) : s.IsTurned 0

/-- An odd multiple of a quarter turn, which exchanges the sides of a picture. -/
def IsSideways (θ : Int) : Prop := ∃ k, θ = 90 * (2 * k + 1)

theorem isSideways_iff {θ : Int} : IsSideways θ ↔ θ % 180 = 90 :=
  ⟨fun ⟨k, hk⟩ => by omega, fun h => ⟨θ / 180, by omega⟩⟩

theorem degreesOfTag?_eq_some {tag : String} {θ : Int} :
    degreesOfTag? tag = some θ ↔ IsDegrees tag θ := by
  simp only [degreesOfTag?, Option.bind_eq_bind, Option.bind_eq_some_iff,
    Option.ite_none_right_eq_some, Option.some.injEq, Decimal.intOfText?_eq_some]
  exact ⟨fun ⟨_, hread, hfits, heq⟩ => heq ▸ ⟨hread, hfits⟩,
    fun ⟨hread, hfits⟩ => ⟨θ, hread, hfits, rfl⟩⟩

theorem degreesOfTag?_eq_none {tag : String} :
    degreesOfTag? tag = none ↔ ∀ θ, ¬ IsDegrees tag θ := by
  simp only [Option.eq_none_iff_forall_ne_some, ne_eq, degreesOfTag?_eq_some]

/-- Display data is rounded, and cut off at the ends of 64 bits. -/
theorem degreesOfData_eq {x : Binary64} {v : Rat} (h : x.Has v) : degreesOfData x =
    max leastDegrees (min greatestDegrees (Rounding.nearestAway v)) := by
  have hround := h.round
  have hsign := hround.sign
  simp only [degreesOfData]
  split
  case isTrue hnegative =>
    rw [if_pos hnegative] at hsign
    have hle : Rounding.nearestAway v ≤ 0 := by exact_mod_cast hsign
    rw [hround.abs.toNatUpTo_eq, ← Int.cast_abs, Rat.floor_intCast, abs_of_nonpos hle,
      leastDegrees, greatestDegrees]
    omega
  case isFalse hnegative =>
    rw [if_neg hnegative] at hsign
    have hle : 0 ≤ Rounding.nearestAway v := by exact_mod_cast hsign
    rw [hround.toNatUpTo_eq, Rat.floor_intCast, leastDegrees, greatestDegrees]
    omega

/-- What does not fit 64 bits is a multiple of four, so that cutting it off neither makes nor undoes
a quarter turn. -/
theorem isSideways_degreesOfData (x : Binary64) :
    IsSideways (degreesOfData x) ↔ IsSideways (Rounding.nearestAway x.toRat) := by
  rw [isSideways_iff, isSideways_iff]
  by_cases hfinite : x.isFinite
  · have h := Binary64.has_toRat hfinite
    rw [degreesOfData_eq h]
    generalize hθ : Rounding.nearestAway x.toRat = θ
    by_cases hfits : leastDegrees ≤ θ ∧ θ ≤ greatestDegrees
    · rw [min_eq_right hfits.2, max_eq_right hfits.1]
    · rw [leastDegrees, greatestDegrees] at *
      have hlarge : (2 : Rat) ^ (52 + 2) ≤ |(θ : Rat)| := by
        have hlarge : 2 ^ (52 + 2) ≤ |θ| := by
          rw [Int.abs_eq_natAbs]
          omega
        exact_mod_cast hlarge
      obtain ⟨m, hm⟩ := (hθ ▸ h.round).exists_mul_two_pow 2 hlarge
      have hfour : θ = m * 2 ^ 2 := by exact_mod_cast hm
      omega
  · cases x with
    | finite => exact absurd rfl hfinite
    | infinite negative => cases negative <;> decide +kernel
    | undefined negative =>
        cases negative <;>
          simp [degreesOfData, Binary64.round, Binary64.signBit, Binary64.abs, Binary64.toNatUpTo,
            Binary64.toRat, Rounding.nearestAway_zero]

theorem findSome?_eq_some {rotations : List (Option Binary64)} {x : Binary64} :
    rotations.findSome? id = some x ↔
      ∃ before after, rotations = before ++ some x :: after ∧ ∀ r ∈ before, r = none := by
  simp [List.findSome?_eq_some_iff]

/-- What is computed is sideways whenever the stream is. -/
theorem StreamReport.IsTurned.isSideways_rotation {s : StreamReport} {θ : Int}
    (h : s.IsTurned θ) : IsSideways s.rotation ↔ IsSideways θ := by
  have hunread (htag : ∀ tag ∈ s.rotateTag, ∀ θ, ¬ IsDegrees tag θ) :
      s.rotateTag.bind degreesOfTag? = none :=
    Option.bind_eq_none_iff.mpr fun tag hmem => degreesOfTag?_eq_none.mpr (htag tag hmem)
  cases h with
  | tag htag hread => rw [rotation, htag, Option.bind_some, degreesOfTag?_eq_some.mpr hread]
  | data htag hfirst hbefore =>
      rw [rotation, hunread htag, findSome?_eq_some.mpr ⟨_, _, hfirst, hbefore⟩, Option.map_some,
        Option.getD_some]
      exact isSideways_degreesOfData _
  | upright htag hdata =>
      have hnone : s.rotations.findSome? id = none := List.findSome?_eq_none_iff.mpr hdata
      rw [rotation, hunread htag, hnone, Option.map_none, Option.getD_none]

theorem StreamReport.exists_isTurned (s : StreamReport) : ∃ θ, s.IsTurned θ := by
  by_cases htag : ∃ tag ∈ s.rotateTag, ∃ θ, IsDegrees tag θ
  · obtain ⟨tag, htag, θ, hread⟩ := htag
    exact ⟨θ, .tag htag hread⟩
  · simp only [not_exists, not_and] at htag
    cases hdata : s.rotations.findSome? id with
    | some x =>
        obtain ⟨before, after, hfirst, hbefore⟩ := findSome?_eq_some.mp hdata
        exact ⟨_, .data htag hfirst hbefore⟩
    | none => exact ⟨0, .upright htag (List.findSome?_eq_none_iff.mp hdata)⟩

/-! ## What is shown -/

/-- The size that a picture stream is shown with, if it has one. -/
inductive StreamReport.Shows (s : StreamReport) : Nat × Nat → Prop
  | upright {width height : Nat} {θ : Int} (hwidth : s.width = some width)
      (hheight : s.height = some height) (hwide : 0 < width) (hhigh : 0 < height)
      (hturned : s.IsTurned θ) (h : ¬ IsSideways θ) : s.Shows (width, height)
  | sideways {width height : Nat} {θ : Int} (hwidth : s.width = some width)
      (hheight : s.height = some height) (hwide : 0 < width) (hhigh : 0 < height)
      (hturned : s.IsTurned θ) (h : IsSideways θ) : s.Shows (height, width)

/-- The size that a report shows is that of the first video stream. -/
def Report.Shows (r : Report) (size : Nat × Nat) : Prop :=
  ∃ before video after, r.streams = before ++ video :: after ∧ (∀ s ∈ before, s.kind ≠ "video") ∧
    video.kind = "video" ∧ video.Shows size

/-- The size with which a picture is shown. -/
def size (p : Probe) : Nat × Nat := (p.width, p.height)

/-- The size in the output of the probe, if that is accepted. -/
def sizeOfText? (text : String) : Option (Nat × Nat) := (ofText text).toOption.map size

/-- The size of a stream. -/
def StreamReport.size? (s : StreamReport) : Option (Nat × Nat) :=
  match s.width, s.height with
  | some width, some height =>
      if width = 0 ∨ height = 0 then none
      else if s.rotation % 180 = 90 then some (height, width) else some (width, height)
  | _, _ => none

/-- The first video stream of a report. -/
def Report.video? (r : Report) : Option StreamReport := r.streams.find? (·.kind == "video")

/-- The facts of a report, once the size is known. -/
def Report.facts (r : Report) (size : Nat × Nat) : Probe :=
  { width := size.1, height := size.2, durationMs := r.duration.bind durationOfText?,
    hasAudio := r.streams.any (·.kind == "audio"), probed := true }

theorem StreamReport.size?_eq_some {s : StreamReport} {size : Nat × Nat} :
    s.size? = some size ↔ s.Shows size := by
  obtain ⟨θ, hθ⟩ := s.exists_isTurned
  have hturned {θ : Int} (h : s.IsTurned θ) : s.rotation % 180 = 90 ↔ IsSideways θ :=
    isSideways_iff.symm.trans h.isSideways_rotation
  constructor
  · intro h
    rw [size?] at h
    split at h
    case h_1 width height hwidth hheight =>
      rw [Option.ite_none_left_eq_some, not_or] at h
      obtain ⟨⟨hwide, hhigh⟩, h⟩ := h
      split at h <;> obtain rfl := Option.some.inj h
      case isTrue hside =>
        exact .sideways hwidth hheight (Nat.pos_of_ne_zero hwide) (Nat.pos_of_ne_zero hhigh) hθ
          ((hturned hθ).mp hside)
      case isFalse hside =>
        exact .upright hwidth hheight (Nat.pos_of_ne_zero hwide) (Nat.pos_of_ne_zero hhigh) hθ
          (mt (hturned hθ).mpr hside)
    case h_2 => cases h
  · intro h
    cases h with
    | upright hwidth hheight hwide hhigh hθ h =>
        rw [size?, hwidth, hheight]
        simp only [hwide.ne', hhigh.ne', or_self, if_false, if_neg (mt (hturned hθ).mp h)]
    | sideways hwidth hheight hwide hhigh hθ h =>
        rw [size?, hwidth, hheight]
        simp only [hwide.ne', hhigh.ne', or_self, if_false, if_pos ((hturned hθ).mpr h)]

theorem Report.shows_iff {r : Report} {size : Nat × Nat} :
    r.Shows size ↔ r.video?.bind StreamReport.size? = some size := by
  simp only [Shows, video?, Option.bind_eq_some_iff, List.find?_eq_some_iff_append,
    StreamReport.size?_eq_some, beq_iff_eq, Bool.not_eq_true', beq_eq_false_iff_ne]
  constructor
  · rintro ⟨before, video, after, hstreams, hbefore, hvideo, hshows⟩
    exact ⟨video, ⟨hvideo, before, after, hstreams, hbefore⟩, hshows⟩
  · rintro ⟨video, ⟨hvideo, before, after, hstreams, hbefore⟩, hshows⟩
    exact ⟨before, video, after, hstreams, hbefore, hvideo, hshows⟩

theorem ofReport_toOption (r : Report) :
    (ofReport r).toOption = (r.video?.bind StreamReport.size?).map r.facts := by
  rw [ofReport]
  simp only [Report.video?]
  cases hvideo : r.streams.find? fun s => s.kind == "video" with
  | none => rfl
  | some video =>
      simp only [Option.bind_some, StreamReport.size?]
      cases video.width <;> cases video.height <;> try rfl
      simp only
      split_ifs <;> simp_all [Except.toOption, Report.facts]

/-! ## Changes that are not seen -/

/-- Streams of one kind and size, of which one is turned by some half turns more than the other one,
or as far the other way round. -/
inductive StreamReport.SameView (s s' : StreamReport) : Prop
  | further {θ : Int} (k : Int) (hkind : s'.kind = s.kind) (hwidth : s'.width = s.width)
      (hheight : s'.height = s.height) (h : s.IsTurned θ) (h' : s'.IsTurned (θ + 180 * k))
  | opposite {θ : Int} (hkind : s'.kind = s.kind) (hwidth : s'.width = s.width)
      (hheight : s'.height = s.height) (h : s.IsTurned θ) (h' : s'.IsTurned (-θ))

/-- Reports that differ in how a stream is turned, in what follows the first video stream, or in the
length. -/
inductive Report.SameView : Report → Report → Prop
  | turned {duration : Option String} {before after : List StreamReport} {s s' : StreamReport}
      (h : s.SameView s') :
      SameView ⟨duration, before ++ s :: after⟩ ⟨duration, before ++ s' :: after⟩
  | later {duration : Option String} {before after after' : List StreamReport} {s : StreamReport}
      (h : s.kind = "video") :
      SameView ⟨duration, before ++ s :: after⟩ ⟨duration, before ++ s :: after'⟩
  | length {duration duration' : Option String} {streams : List StreamReport} :
      SameView ⟨duration, streams⟩ ⟨duration', streams⟩

/-- Reports of which the first one has a tag that cannot be read, and the second one lacks it. -/
inductive Report.LosesTag : Report → Report → Prop
  | intro {duration : Option String} {before after : List StreamReport} {s : StreamReport}
      {tag : String} (htag : s.rotateTag = some tag) (h : ∀ θ, ¬ IsDegrees tag θ) :
      LosesTag ⟨duration, before ++ s :: after⟩
        ⟨duration, before ++ { s with rotateTag := none } :: after⟩

theorem StreamReport.SameView.size?_eq {s s' : StreamReport} (h : s.SameView s') :
    s'.kind = s.kind ∧ s'.size? = s.size? := by
  have hsize (hwidth : s'.width = s.width) (hheight : s'.height = s.height) {θ θ' : Int}
      (h : s.IsTurned θ) (h' : s'.IsTurned θ') (hθ : θ' % 180 = 90 ↔ θ % 180 = 90) :
      s'.size? = s.size? := by
    have hrotation : s'.rotation % 180 = 90 ↔ s.rotation % 180 = 90 := by
      rw [← isSideways_iff, h'.isSideways_rotation, ← isSideways_iff (θ := s.rotation),
        h.isSideways_rotation, isSideways_iff, isSideways_iff, hθ]
    simp only [size?, hwidth, hheight, hrotation]
  cases h with
  | further k hkind hwidth hheight h h' => exact ⟨hkind, hsize hwidth hheight h h' (by omega)⟩
  | opposite hkind hwidth hheight h h' => exact ⟨hkind, hsize hwidth hheight h h' (by omega)⟩

theorem Report.SameView.size?_eq {r r' : Report} (h : r.SameView r') :
    r'.video?.bind StreamReport.size? = r.video?.bind StreamReport.size? := by
  cases h with
  | turned h =>
      obtain ⟨hkind, hsize⟩ := h.size?_eq
      simp only [video?, List.find?_append, List.find?_cons, hkind]
      split
      · cases List.find? _ _ <;> simp [hsize]
      · rfl
  | later h => simp [video?, List.find?_append, h]
  | length => rfl

/-- A tag that cannot be read makes no difference at all. -/
theorem Report.LosesTag.ofReport_eq {r r' : Report} (h : r.LosesTag r') :
    ofReport r' = ofReport r := by
  cases h with
  | @intro duration before after s tag htag h =>
      have hrotation : { s with rotateTag := none }.rotation = s.rotation := by
        rw [StreamReport.rotation, StreamReport.rotation, htag, Option.bind_some,
          degreesOfTag?_eq_none.mpr h, Option.bind_none]
      simp only [ofReport, List.find?_append, List.find?_cons, List.any_append, List.any_cons]
      cases before.find? fun s => s.kind == "video" with
      | some video => rfl
      | none =>
          simp only [Option.none_or]
          cases s.kind == "video" with
          | true => simp only [hrotation]
          | false => rfl

variable {text text' : String} {complain : Complaint} {r r' : Report}

theorem ofText_toOption (h : Reads text r) :
    (ofText text complain).toOption = (r.video?.bind StreamReport.size?).map r.facts := by
  rw [ofText, read_eq_some.mpr h]
  exact ofReport_toOption r

theorem ofText_eq_ok_iff {p : Probe} :
    ofText text complain = .ok p ↔ ∃ r size, Reads text r ∧ r.Shows size ∧ p = r.facts size := by
  have hok {outcome : Except Fault Probe} : outcome = .ok p ↔ outcome.toOption = some p := by
    cases outcome <;> simp [Except.toOption]
  constructor
  · intro h
    cases hread : Json.read? text >>= Report.ofJson? with
    | none =>
        rw [ofText, hread] at h
        cases h
    | some r =>
        have hr := read_eq_some.mp hread
        rw [hok, ofText_toOption hr, Option.map_eq_some_iff] at h
        obtain ⟨size, hsize, rfl⟩ := h
        exact ⟨r, size, hr, Report.shows_iff.mpr hsize, rfl⟩
  · rintro ⟨r, size, hr, hsize, rfl⟩
    rw [hok, ofText_toOption hr, Report.shows_iff.mp hsize, Option.map_some]

theorem sizeOfText?_eq (h : Reads text r) :
    sizeOfText? text = r.video?.bind StreamReport.size? := by
  rw [sizeOfText?, ofText_toOption h, Option.map_map]
  exact Option.map_id'

/-- The output of the probe is accepted if it is a report whose first video stream has a size, and
the facts are those of the report, with the size as it is shown. Further half turns, turning the
other way round, streams after the first video stream and another length leave the size and what is
accepted as they are. A tag that cannot be read is like none. -/
theorem size_ofText (text : String) (complain : Complaint) :
    (∀ p, ofText text complain = .ok p ↔
        ∃ r size, Reads text r ∧ r.Shows size ∧ p = r.facts size) ∧
      ∀ text' r r', Reads text r → Reads text' r' →
        (r.SameView r' → sizeOfText? text' = sizeOfText? text) ∧
          (r.LosesTag r' → ofText text' complain = ofText text complain) := by
  refine ⟨fun p => ofText_eq_ok_iff, fun text' r r' h h' => ⟨fun hview => ?_, fun htag => ?_⟩⟩
  · rw [sizeOfText?_eq h, sizeOfText?_eq h', hview.size?_eq]
  · rw [ofText, ofText, read_eq_some.mpr h, read_eq_some.mpr h']
    exact htag.ofReport_eq

deriving instance DecidableEq for StreamReport, Report

/-- A recording that lies on its side says so by a tag, or by display data with the opposite sign
next to a tag that cannot be read. -/
theorem size_ofText_of_recording :
    let report (turned : String) : String :=
      "\x7b\"streams\": [\x7b\"codec_type\": \"audio\"\x7d, \x7b\"codec_type\": \"video\", " ++
      "\"width\": 1920, \"height\": 1080" ++ turned ++ "\x7d], " ++
      "\"format\": \x7b\"duration\": \"61.5\"\x7d\x7d"
    let data := ", \"side_data_list\": [\x7b\"rotation\": -89.6\x7d]"
    let tagged := report ", \"tags\": \x7b\"rotate\": \"270\"\x7d"
    let spoilt := report (", \"tags\": \x7b\"rotate\": \"left\"\x7d" ++ data)
    let plain := report data
    let video : StreamReport := ⟨"video", some 1920, some 1080, none, [some (-89.6)]⟩
    let r : Report := ⟨some "61.5", [⟨"audio", none, none, none, []⟩,
      { video with rotateTag := some "270", rotations := [] }]⟩
    let r' : Report := ⟨some "61.5", [⟨"audio", none, none, none, []⟩,
      { video with rotateTag := some "left" }]⟩
    let r'' : Report := ⟨some "61.5", [⟨"audio", none, none, none, []⟩, video]⟩
    Reads tagged r ∧ Reads spoilt r' ∧ Reads plain r'' ∧ r.SameView r' ∧ r'.LosesTag r'' ∧
      ofText tagged = .ok ⟨1080, 1920, some 61500, true, true⟩ ∧
      sizeOfText? spoilt = some (1080, 1920) ∧ ofText plain = ofText spoilt := by
  intro report data tagged spoilt plain video r r' r''
  have hr : Reads tagged r := read_eq_some.mp <| by
    simp only [tagged, report, Json.read?, String.toList_append, String.reduceToList]
    decide +kernel
  have hr' : Reads spoilt r' := read_eq_some.mp <| by
    simp only [spoilt, report, data, Json.read?, String.toList_append, String.reduceToList]
    decide +kernel
  have hr'' : Reads plain r'' := read_eq_some.mp <| by
    simp only [plain, report, data, Json.read?, String.toList_append, String.reduceToList]
    decide +kernel
  have hleft : ∀ θ, ¬ IsDegrees "left" θ := degreesOfTag?_eq_none.mp (by decide +kernel)
  have htag : StreamReport.IsTurned { video with rotateTag := some "270", rotations := [] } 270 :=
    .tag rfl (degreesOfTag?_eq_some.mp (by decide +kernel))
  have hdata : StreamReport.IsTurned { video with rotateTag := some "left" } (270 + 180 * -2) := by
    have hround : Rounding.nearestAway (Binary64.toRat (-89.6)) = 270 + 180 * -2 := by
      decide +kernel
    rw [← hround]
    exact .data (fun tag hmem => Option.some.inj hmem ▸ hleft)
      (show [some (-89.6)] = [] ++ some (-89.6) :: [] from rfl) (List.forall_mem_nil _)
  have hview : r.SameView r' := by
    change Report.SameView ⟨_, [_] ++ _ :: []⟩ ⟨_, [_] ++ _ :: []⟩
    exact .turned (.further (-2) rfl rfl rfl htag hdata)
  have hloses : r'.LosesTag r'' := by
    change Report.LosesTag ⟨_, [_] ++ _ :: []⟩ ⟨_, [_] ++ _ :: []⟩
    exact .intro rfl hleft
  have hok : ofText tagged = .ok ⟨1080, 1920, some 61500, true, true⟩ := by
    refine ((size_ofText tagged .unknown).1 _).mpr ⟨r, (1080, 1920), hr, ?_, by decide +kernel⟩
    exact ⟨[_], _, [], rfl, by decide, rfl, .sideways rfl rfl (by decide) (by decide) htag ⟨1, rfl⟩⟩
  refine ⟨hr, hr', hr'', hview, hloses, hok, ?_, ?_⟩
  · rw [((size_ofText tagged .unknown).2 _ r r' hr hr').1 hview, sizeOfText?, hok]
    rfl
  · exact ((size_ofText spoilt .unknown).2 _ r' r'' hr' hr'').2 hloses

end Montage.Probe
