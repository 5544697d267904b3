import Montage.Proofs.Compile.Arguments
import Montage.Proofs.Compile.Counts
import Montage.Proofs.Compile.ZoomBounds

/-! # A zoomed picture covers the canvas

The filters of a zoom make the picture larger and cut a window of the size of the canvas out of its
middle. As they are read at any time of the clip, the window lies inside the picture. -/

namespace Montage

open Expression (Sum Term Atom)

/-! ## What the filters say -/

namespace Filter

/-- A value without the quotes around it. -/
def unquoted : List Char → List Char
  | '\'' :: rest => rest.takeWhile (· ≠ '\'')
  | text => text

/-- The value that the expression of an option has at a time. -/
def optionAt? (t : Rat) (f : Filter) (name : String) : Option Rat := do
  Expression.value? t (unquoted (← f.option? name))

/-- A value with quotes around it. -/
def quoted (text : List Char) : List Char := '\'' :: (text ++ ['\''])

theorem unquoted_quoted {text : List Char} (h : '\'' ∉ text) : unquoted (quoted text) = text := by
  have hinside : ∀ c ∈ text, decide (c ≠ '\'') = true := fun c hc =>
    decide_eq_true fun heq => h (heq ▸ hc)
  rw [quoted, unquoted, List.takeWhile_append_of_pos hinside]
  simp

theorem optionAt?_of_quoted {f : Filter} {name : String} {text : List Char}
    (h : f.option? name = some (quoted text)) (hquote : '\'' ∉ text) (t : Rat) :
    f.optionAt? t name = Expression.value? t text := by
  rw [optionAt?, h, Option.bind_eq_bind, Option.bind_some, unquoted_quoted hquote]

/-- What stands in quotes is no other option. -/
theorem not_mem_quoted {c : Char} {text : List Char} (hc : c ≠ '\'') (h : c ∉ text) :
    c ∉ quoted text := by
  simp [quoted, hc, h]

theorem optionAt?_of_nat {f : Filter} {name : String} {n : Nat}
    (h : f.option? name = some (toString n).toList) (t : Rat) :
    f.optionAt? t name = Expression.value? t (toString n).toList := by
  have hplain : unquoted (toString n).toList = (toString n).toList := by
    have hquote : '\'' ∉ (toString n).toList := Decimal.not_mem_toString (by decide) n
    unfold unquoted
    split
    case h_1 heq => exact absurd (heq ▸ List.mem_cons_self) hquote
    case h_2 => rfl
  rw [optionAt?, h, Option.bind_eq_bind, Option.bind_some, hplain]

end Filter

namespace Zoom

/-- Along one side, a picture of an even number of pixels has a window of the canvas in it. -/
def CoversSide (picture window offset : Option Rat) (side : Nat) : Prop :=
  ∃ (pixels : Nat) (corner : Rat), picture = some (pixels : Rat) ∧ pixels % 2 = 0 ∧ side ≤ pixels ∧
    window = some (side : Rat) ∧ offset = some corner ∧ 0 ≤ corner ∧ corner + side ≤ pixels

/-- At a time, the filters scale the picture to even sides that are no less than those of the
canvas, and cut a window of the size of the canvas out of it. -/
def Covers (filters : List Filter) (width height : Nat) (t : Rat) : Prop :=
  ∃ scale crop : Filter, filters = [scale, crop] ∧ scale.name = "scale" ∧ crop.name = "crop" ∧
    CoversSide (scale.optionAt? t "w") (crop.optionAt? t "w") (crop.optionAt? t "x") width ∧
    CoversSide (scale.optionAt? t "h") (crop.optionAt? t "h") (crop.optionAt? t "y") height

/-! ## Sides -/

/-- Where the window begins along a side, as it is written. -/
def cornerText (side : Nat) (zoom : String) : String := s!"({scaledSide side zoom}-{side})/2"

variable {t z : Rat} {zoom : String}

theorem atom_two : Atom t ['2'] 2 := .digits (by decide) (by decide +kernel)

/-- A zoomed side is read as twice the whole part of half of it. -/
theorem term_scaledSide (h : Sum t zoom.toList z) (hz : 0 ≤ z) (side : Nat) :
    Term t (scaledSide side zoom).toList ((side * z / 2).floor * 2) := by
  have hinner : Sum t _ (side * z / 2) :=
    (((Atom.nat side).term.mul (.bracket h)).div atom_two (by norm_num)).sum
  have hpos : 0 ≤ (side : Rat) * z / 2 := by positivity
  have hcall := Atom.call (t := t) "trunc".toList (by decide) (.cons hinner .nil) (by simp)
    (v := (side * z / 2).floor) (by
      change some (if 0 ≤ (side : Rat) * z / 2 then _ else _) = _
      rw [if_pos hpos])
  simpa [scaledSide, toString] using hcall.term.mul atom_two

theorem term_cornerText (h : Sum t zoom.toList z) (hz : 0 ≤ z) (side : Nat) :
    Term t (cornerText side zoom).toList (((side * z / 2).floor * 2 - side) / 2) := by
  have hinner := ((term_scaledSide h hz side).sum).sub (Atom.nat (t := t) side).term
  simpa [cornerText, toString] using (Atom.bracket hinner).term.div atom_two (by norm_num)

/-- A zoom of one or more leaves no side of the window outside. -/
theorem coversSide (h : Sum t zoom.toList z) (hz : 1 ≤ z) {side : Nat} (heven : side % 2 = 0) :
    CoversSide (Expression.value? t (scaledSide side zoom).toList)
      (Expression.value? t (toString side).toList)
      (Expression.value? t (cornerText side zoom).toList) side := by
  have hz' : 0 ≤ z := zero_le_one.trans hz
  rw [Expression.value?_of_sum (term_scaledSide h hz' side).sum,
    Expression.value?_of_sum (Atom.nat side).term.sum,
    Expression.value?_of_sum (term_cornerText h hz' side).sum]
  obtain ⟨k, rfl⟩ : ∃ k, side = 2 * k := ⟨side / 2, by omega⟩
  have hk : (0 : Rat) ≤ k := Nat.cast_nonneg k
  have hside : ((2 * k : Nat) : Rat) * z / 2 = k * z := by
    push_cast
    ring
  have hfloor : (k : Int) ≤ ((k : Rat) * z).floor := by
    rw [Rat.le_floor_iff]
    push_cast
    exact le_mul_of_one_le_right hk hz
  obtain ⟨half, hhalf⟩ : ∃ half : Nat, ((k : Rat) * z).floor = half :=
    ⟨((k : Rat) * z).floor.toNat, by omega⟩
  have hle : k ≤ half := by omega
  have hle' : (k : Rat) ≤ half := by exact_mod_cast hle
  rw [hside, hhalf]
  refine ⟨2 * half, half - k, ?_, by omega, by omega, rfl, ?_, by linarith, ?_⟩
  · rw [Int.cast_natCast, Nat.cast_mul, Nat.cast_ofNat, mul_comm]
  · rw [Int.cast_natCast, Nat.cast_mul, Nat.cast_ofNat, mul_comm, ← mul_sub,
      mul_div_cancel_left₀ _ two_ne_zero]
  · push_cast
    linarith

/-! ## The two filters -/

theorem not_mem_cornerText {c : Char} (hc : c ∈ Grammar.optionMarks) (side : Nat) (zoom : Expr) :
    c ∉ (cornerText side zoom.text).toList := by
  have hside := Decimal.not_mem_toString (Grammar.isDigit_of_optionMarks hc) side
  simp only [cornerText, String.toList_append, List.mem_append, not_or]
  exact ⟨⟨⟨⟨Grammar.not_mem_of_optionMarks hc (by decide), Grammar.not_mem_scaledSide hc side zoom⟩,
    Grammar.not_mem_of_optionMarks hc (by decide)⟩, hside⟩,
    Grammar.not_mem_of_optionMarks hc (by decide)⟩

/-- The sides that a zoom scales to are found in the scaling. -/
theorem option?_scale (zoom : Expr) (width height : Nat) (name : String) :
    let w := scaledSide width zoom.text
    let h := scaledSide height zoom.text
    (⟨"scale", s!"w='{w}':h='{h}':eval=frame"⟩ : Filter).option? name =
      [("w".toList, Filter.quoted (scaledSide width zoom.text).toList),
        ("h".toList, Filter.quoted (scaledSide height zoom.text).toList),
        ("eval".toList, "frame".toList)].lookup name.toList := by
  intro w h
  have hclean (side : Nat) : ':' ∉ Filter.quoted (scaledSide side zoom.text).toList ∧
      '=' ∉ Filter.quoted (scaledSide side zoom.text).toList :=
    ⟨Filter.not_mem_quoted (by decide) (Grammar.not_mem_scaledSide (by decide) side zoom),
      Filter.not_mem_quoted (by decide) (Grammar.not_mem_scaledSide (by decide) side zoom)⟩
  refine Filter.option?_eq rfl ?_ ?_ (by simp) name
  · simp [w, h, Filter.quoted, toString, List.intercalate]
  · simp only [List.forall_mem_cons, List.not_mem_nil, false_implies, implies_true, and_true]
    exact ⟨⟨by decide, hclean width⟩, ⟨by decide, hclean height⟩, by decide⟩

/-- The window and its corner are found in the cropping. -/
theorem option?_crop (zoom : Expr) (width height : Nat) (name : String) :
    let w := scaledSide width zoom.text
    let h := scaledSide height zoom.text
    (⟨"crop", s!"w={width}:h={height}:x='({w}-{width})/2':y='({h}-{height})/2'"⟩ : Filter).option?
        name =
      [("w".toList, (toString width).toList), ("h".toList, (toString height).toList),
        ("x".toList, Filter.quoted (cornerText width zoom.text).toList),
        ("y".toList, Filter.quoted (cornerText height zoom.text).toList)].lookup name.toList := by
  intro w h
  have hclean (side : Nat) : ':' ∉ Filter.quoted (cornerText side zoom.text).toList ∧
      '=' ∉ Filter.quoted (cornerText side zoom.text).toList :=
    ⟨Filter.not_mem_quoted (by decide) (not_mem_cornerText (by decide) side zoom),
      Filter.not_mem_quoted (by decide) (not_mem_cornerText (by decide) side zoom)⟩
  have hdigits (side : Nat) : ':' ∉ (toString side).toList ∧ '=' ∉ (toString side).toList :=
    ⟨Decimal.not_mem_toString (by decide) side, Decimal.not_mem_toString (by decide) side⟩
  refine Filter.option?_eq rfl ?_ ?_ (by simp) name
  · simp [w, h, Filter.quoted, cornerText, toString, List.intercalate]
  · simp only [List.forall_mem_cons, List.not_mem_nil, false_implies, implies_true, and_true]
    exact ⟨⟨by decide, hdigits width⟩, ⟨by decide, hdigits height⟩, ⟨by decide, hclean width⟩,
      by decide, hclean height⟩

/-- A zoom of one or more covers any canvas of even sides. -/
theorem covers_filters {zoom : Expr} (h : Sum t zoom.text.toList z) (hz : 1 ≤ z)
    {width height : Nat} (hwidth : width % 2 = 0) (hheight : height % 2 = 0) :
    Covers (filters zoom.text width height) width height t := by
  have hscaled (side : Nat) : '\'' ∉ (scaledSide side zoom.text).toList :=
    Grammar.not_mem_scaledSide (by decide) side zoom
  have hcorner (side : Nat) : '\'' ∉ (cornerText side zoom.text).toList :=
    not_mem_cornerText (by decide) side zoom
  have hscale := option?_scale zoom width height
  have hcrop := option?_crop zoom width height
  refine ⟨_, _, rfl, rfl, rfl, ?_, ?_⟩
  · convert coversSide h hz hwidth using 1
    · exact Filter.optionAt?_of_quoted ((hscale "w").trans rfl) (hscaled width) t
    · exact Filter.optionAt?_of_nat ((hcrop "w").trans rfl) t
    · exact Filter.optionAt?_of_quoted ((hcrop "x").trans rfl) (hcorner width) t
  · convert coversSide h hz hheight using 1
    · exact Filter.optionAt?_of_quoted ((hscale "h").trans rfl) (hscaled height) t
    · exact Filter.optionAt?_of_nat ((hcrop "h").trans rfl) t
    · exact Filter.optionAt?_of_quoted ((hcrop "y").trans rfl) (hcorner height) t

/-! ## The zoom of a clip -/

/-- At any time from the beginning on, the zoom of an accepted edit of moderate length and zooms
covers the canvas. Without ramps the zoom never falls, and it stays at its cap as it is written or
below. -/
theorem covers_ofEdit {e : Edit} {clip : Clip} (hclip : Clip.ofEdit e = .ok clip)
    (htrim : e.trimEndMs < 2 ^ 36) (hduration : clip.durationMs < 2 ^ 36)
    (hzooms : ∀ r ∈ e.ramps, r.zoomStart.toRat < 2 ^ 40 ∧ r.zoomEnd.toRat < 2 ^ 40)
    {autoZoomMax : Binary64} (hmax : autoZoomMax.isFinite) {zoom : Expr}
    (hzoom : expr? clip autoZoomMax = some zoom) :
    (∀ t, 0 ≤ t → Covers (filters zoom.text clip.canvas.width clip.canvas.height)
      clip.canvas.width clip.canvas.height t) ∧
      (clip.ramps = [] → ∃ (value : Rat → Rat) (cap : Rat),
        (∀ t, 0 ≤ t → Expression.value? t zoom.text.toList = some (value t)) ∧ Monotone value ∧
        Decimal.value? (Expr.numberText (autoZoomMax.maximum clip.restZoom)).toList = some cap ∧
        ∀ t, value t ≤ cap) := by
  have hmoderate := Clip.moderate_ofEdit hclip htrim hduration hzooms
  have hread {t : Rat} (ht : 0 ≤ t) := expr?_spec hmoderate hmax hzoom ht
  refine ⟨fun t ht => ?covers, fun hramps => ?rises⟩
  case covers =>
    have heven : clip.canvas.width % 2 = 0 ∧ clip.canvas.height % 2 = 0 := by
      cases clip.canvas <;> decide
    obtain ⟨hfits, hone⟩ := hread ht
    exact covers_filters (Expr.read_of_fits hfits).sum hone heven.1 heven.2
  case rises =>
    obtain ⟨hrises, hcap⟩ := expr?_rises hmoderate hmax hzoom hramps
    have hvalue := Binary64.has_toRat (cap_spec hmoderate hmax).1
    refine ⟨(zoom.eval ·), _, fun t ht => Expr.value?_text (hread ht).1, hrises,
      Decimal.value?_fixed hvalue 6, fun t => ?_⟩
    rw [← Expr.written_of_has hvalue]
    exact hcap t

/-- A ramp that the trim cuts, down to one, and an automatic zoom. -/
theorem covers_ofEdit_of_talk :
    let e : Edit :=
      { sourcePath := "/media/talk.mp4", trimStartMs := 1000, trimEndMs := 4000,
        canvas := .portrait, speed := 1.5, ramps := [⟨700, 2333, 1.3, 1⟩] }
    let slow : Edit :=
      { sourcePath := "/media/talk.mp4", trimStartMs := 1000, trimEndMs := 4000,
        canvas := .portrait, speed := 1.5, autoZoom := true }
    (∃ clip zoom, Clip.ofEdit e = .ok clip ∧ expr? clip 1.15 = some zoom ∧
      Covers (filters zoom.text clip.canvas.width clip.canvas.height)
        clip.canvas.width clip.canvas.height (1 / 3)) ∧
      ∃ clip zoom, Clip.ofEdit slow = .ok clip ∧ expr? clip 1.15 = some zoom ∧
        ∃ value : Rat → Rat, Monotone value ∧
          ∀ t, 0 ≤ t → Expression.value? t zoom.text.toList = some (value t) := by
  intro e slow
  have hmax : (1.15 : Binary64).isFinite := by decide +kernel
  have hclip (e : Edit) (h : ((Clip.ofEdit e).toOption.bind fun c =>
      (expr? c 1.15).map fun _ => (c.durationMs, c.ramps.length)) = some (2000, e.ramps.length)) :
      ∃ clip zoom, Clip.ofEdit e = .ok clip ∧ clip.durationMs = 2000 ∧
        clip.ramps.length = e.ramps.length ∧ expr? clip 1.15 = some zoom := by
    cases hclip : Clip.ofEdit e with
    | error failure => rw [hclip] at h; cases h
    | ok clip =>
        rw [hclip] at h
        obtain ⟨zoom, hzoom, heq⟩ := Option.map_eq_some_iff.mp h
        obtain ⟨hduration, hramps⟩ := Prod.mk.inj heq
        exact ⟨clip, zoom, rfl, hduration, hramps, hzoom⟩
  obtain ⟨clip, zoom, haccepted, hduration, -, hzoom⟩ := hclip e (by decide +kernel)
  obtain ⟨clip', zoom', haccepted', hduration', hramps, hzoom'⟩ := hclip slow (by decide +kernel)
  obtain ⟨hcovers, -⟩ := covers_ofEdit haccepted (by decide) (by rw [hduration]; decide)
    (by decide +kernel) hmax hzoom
  obtain ⟨-, hrises⟩ := covers_ofEdit haccepted' (by decide) (by rw [hduration']; decide)
    (by decide +kernel) hmax hzoom'
  obtain ⟨value, -, hread, hmono, -⟩ := hrises (List.length_eq_zero_iff.mp hramps)
  exact ⟨⟨clip, zoom, haccepted, hzoom, hcovers _ (by norm_num)⟩,
    clip', zoom', haccepted', hzoom', value, hmono, hread⟩

end Zoom

end Montage
