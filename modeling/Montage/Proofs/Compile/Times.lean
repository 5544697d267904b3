import Montage.Proofs.Compile.Gating
import Montage.Proofs.Compile.Invocation

/-! # The times that a program says

Times are options of inputs and of filters, in seconds with three places. Read from left to right,
the arguments of the encoder say the times of the source and of the further inputs, then those of
the filters, then the length of the output. As long as milliseconds are kept, each of them is
exact, also where a fade begins, which is a difference of two rounded numbers. -/

namespace Montage

open Montage.Filter (withArgs)

/-! ## What is said -/

/-- The times among the options of an input: where it begins, and how long it is read. -/
def MediaInput.timesOf : List String → List (List Char)
  | option :: value :: rest =>
      if option = "-ss" ∨ option = "-t" then value.toList :: timesOf rest
      else timesOf (value :: rest)
  | _ => []

/-- The times that an input says. -/
def MediaInput.times (m : MediaInput) : List (List Char) := timesOf m.options

/-- A fade of a sound: in or out, where it begins and how long it takes. -/
structure Fade where
  direction : List Char
  start : List Char
  length : List Char
  deriving DecidableEq

/-- The times that a fade says. The beginning of a fade-in is no time of its own. -/
def Fade.times (fade : Fade) : List (List Char) :=
  if fade.direction = "in".toList then [fade.length] else [fade.start, fade.length]

namespace Filter

/-- What is added to the times of a picture that begins at zero. -/
def shift? (f : Filter) : Option (List Char) := do
  let args ← f.args
  let text ← Text.after? "PTS-STARTPTS+".toList args.toList
  match text.splitOn '/' with
  | [shift, unit] => if unit = "TB".toList then some shift else none
  | _ => none

/-- The two ends of the time in which a filter is at work. -/
def ends? (f : Filter) : Option (List Char × List Char) := do
  let value ← f.option? "enable"
  match (unquoted value).splitOn ',' with
  | [call, first, last] =>
      if call = "between(t".toList ∧ last.getLast? = some ')' then some (first, last.dropLast)
      else none
  | _ => none

/-- The fade that a filter says. -/
def fade? (f : Filter) : Option Fade :=
  if f.name = "afade" then do
    return { direction := ← f.option? "t", start := ← f.option? "st", length := ← f.option? "d" }
  else none

/-- The times that a filter says. -/
def times (f : Filter) : List (List Char) :=
  if f.name = "setpts" then f.shift?.toList
  else if f.name = "overlay" then f.ends?.elim [] fun ends => [ends.1, ends.2]
  else if f.name = "atrim" then (f.option? "duration").toList
  else f.fade?.elim [] Fade.times

example : (withArgs "setpts" "PTS-STARTPTS+1.500/TB").times = ["1.500".toList] ∧
    (withArgs "setpts" "(PTS-STARTPTS)/1.5").times = [] ∧
    (withArgs "overlay" "x=0:y=0:enable='between(t,0.250,2.000)'").times =
      ["0.250".toList, "2.000".toList] ∧
    (withArgs "afade" "t=out:st=2.500:d=0.500").times = ["2.500".toList, "0.500".toList] := by
  decide +kernel

/-- The names of the filters that say times. -/
def timed : List String := ["setpts", "overlay", "atrim", "afade"]

theorem times_eq_nil {f : Filter} (h : f.name ∉ timed) : f.times = [] := by
  simp only [timed, List.mem_cons, List.not_mem_nil, not_or] at h
  simp [times, fade?, h]

end Filter

namespace Invocation

/-- The filters of the program text. -/
def filters? (i : Invocation) : Option (List Filter) := do
  return (← Grammar.read? i.text).flatMap (·.filters)

/-- All times that the arguments of the encoder say, from left to right. -/
def times? (i : Invocation) : Option (List (List Char)) := do
  return i.inputs.flatMap MediaInput.times ++ (← i.filters?).flatMap Filter.times ++
    [i.duration.toList]

end Invocation

/-! ## What is meant -/

namespace Clip

/-- The length of the fades of music: what is asked for, but at most half the clip. -/
def fadeMs (clip : Clip) (music : Music) : Nat := min music.fadeMs (clip.durationMs / 2)

/-- The times of music: it is cut to the clip and faded in and out, as far as that is asked for. -/
def musicTimes (clip : Clip) (music : Music) : List Nat :=
  [clip.durationMs] ++
    (if music.fadeIn ∧ 0 < clip.fadeMs music then [clip.fadeMs music] else []) ++
    if music.fadeOut ∧ 0 < clip.fadeMs music then
      [clip.durationMs - clip.fadeMs music, clip.fadeMs music]
    else []

/-- The times of the inputs of a clip. -/
def inputTimes (clip : Clip) : List Nat :=
  [clip.trimStartMs, clip.sourceSpan] ++
    clip.cutaways.flatMap (fun layer => [layer.offsetMs, layer.window.duration]) ++
    clip.stickers.map (fun _ => clip.durationMs) ++ clip.music.toList.map (·.offsetMs)

/-- The times of the layers: a cutaway is moved to its beginning and shown in its window, a sticker
is shown in its window. -/
def layerTimes (clip : Clip) : List Nat :=
  clip.cutaways.flatMap
      (fun layer => [layer.window.startMs, layer.window.startMs, layer.window.endMs]) ++
    clip.stickers.flatMap fun layer => [layer.window.startMs, layer.window.endMs]

/-- The times of the sound: silence lasts as long as the clip. -/
def soundTimes (clip : Clip) (probe : Probe) : List Nat :=
  (if probe.hasAudio then [] else [clip.durationMs]) ++ clip.music.toList.flatMap clip.musicTimes

/-- The times of a clip in the order in which its program says them, in milliseconds. -/
def times (clip : Clip) (probe : Probe) : List Nat :=
  clip.inputTimes ++ (clip.layerTimes ++ clip.soundTimes probe) ++ [clip.durationMs]

end Clip

/-! ## Texts of filters -/

/-- A number of milliseconds as it is written. -/
def written (ms : Nat) : List Char := (secondsText ms).toList

namespace Filter

variable (x y : Binary64) (r : PixelRect) (w : Window)

theorem not_mem_fixed {c : Char} (hc : c ∈ Grammar.optionMarks) : c ∉ (Decimal.fixed 3 x).toList :=
  Decimal.not_mem_fixed (Grammar.isDigit_of_optionMarks hc)
    (Grammar.not_mem_of_optionMarks hc (by decide)) 3 x

theorem times_shift : (withArgs "setpts" s!"PTS-STARTPTS+{Decimal.fixed 3 x}/TB").times =
    [(Decimal.fixed 3 x).toList] := by
  have htext : (s!"PTS-STARTPTS+{Decimal.fixed 3 x}/TB").toList =
      "PTS-STARTPTS+".toList ++ ((Decimal.fixed 3 x).toList ++ '/' :: "TB".toList) := by
    simp [toString]
  have hslash : '/' ∉ (Decimal.fixed 3 x).toList := Decimal.not_mem_fixed rfl (by decide) 3 x
  simp only [times, shift?, withArgs, if_true, Option.bind_eq_bind, Option.bind_some, htext,
    Text.after?_append, List.splitOn_append_cons_self_of_not_mem hslash,
    List.splitOn_eq_singleton (by decide : '/' ∉ "TB".toList), Option.toList_some]

/-- The tempo of a picture is no time. -/
theorem times_tempo (speed : String) :
    (withArgs "setpts" s!"(PTS-STARTPTS)/{speed}").times = [] := by
  have htext : (s!"(PTS-STARTPTS)/{speed}").toList =
      '(' :: ("PTS-STARTPTS)/".toList ++ speed.toList) := by
    simp [toString]
  have hstart : "PTS-STARTPTS+".toList = 'P' :: "TS-STARTPTS+".toList := by decide
  simp only [times, shift?, withArgs, if_true, Option.bind_eq_bind, Option.bind_some, htext, hstart,
    Text.after?_of_ne (by decide : 'P' ≠ '('), Option.bind_none, Option.toList_none]

/-- The window of a layer is said by its two ends. -/
theorem times_of_enable {f : Filter} {w : Window} (hname : f.name = "overlay")
    (h : f.option? "enable" = some (quoted (Video.betweenText w).toList)) :
    f.times = [(Decimal.fixed 3 w.startSeconds).toList, (Decimal.fixed 3 w.endSeconds).toList] := by
  have hcomma (x : Binary64) : ',' ∉ (Decimal.fixed 3 x).toList :=
    Decimal.not_mem_fixed rfl (by decide) 3 x
  have htext : (Video.betweenText w).toList = "between(t".toList ++ ',' ::
      ((Decimal.fixed 3 w.startSeconds).toList ++ ',' ::
        ((Decimal.fixed 3 w.endSeconds).toList ++ [')'])) := by
    simp [Video.betweenText, toString]
  have hparts : (Video.betweenText w).toList.splitOn ',' = ["between(t".toList,
      (Decimal.fixed 3 w.startSeconds).toList, (Decimal.fixed 3 w.endSeconds).toList ++ [')']] := by
    rw [htext, List.splitOn_append_cons_self_of_not_mem (by decide),
      List.splitOn_append_cons_self_of_not_mem (hcomma _), List.splitOn_eq_singleton]
    simp [hcomma]
  have hends : f.ends? =
      some ((Decimal.fixed 3 w.startSeconds).toList, (Decimal.fixed 3 w.endSeconds).toList) := by
    rw [ends?, h, Option.bind_eq_bind, Option.bind_some,
      unquoted_quoted (Video.not_mem_betweenText (by decide) w), hparts]
    simp
  simp only [times, hname, hends]
  rfl

/-- A watermark is always shown. -/
theorem times_corner (corner : Corner) (margin : Nat) :
    (withArgs "overlay" (Video.cornerText corner margin)).times = [] := by
  have hmargin {c : Char} (hc : c ∈ Grammar.optionMarks) : c ∉ (toString margin).toList :=
    Video.not_mem_decimal hc margin
  obtain ⟨x, y, htext, hx, hy⟩ : ∃ x y, (Video.cornerText corner margin).toList =
      [':'].intercalate (["x".toList ++ '=' :: x, "y".toList ++ '=' :: y]) ∧
      (':' ∉ x ∧ '=' ∉ x) ∧ ':' ∉ y ∧ '=' ∉ y := by
    have hnear : ':' ∉ (toString margin).toList ∧ '=' ∉ (toString margin).toList :=
      ⟨hmargin (by decide), hmargin (by decide)⟩
    have hfar (start : String) (h : ':' ∉ start.toList ∧ '=' ∉ start.toList) :
        ':' ∉ start.toList ++ (toString margin).toList ∧
          '=' ∉ start.toList ++ (toString margin).toList := by
      simp only [List.mem_append, not_or]
      exact ⟨⟨h.1, hnear.1⟩, h.2, hnear.2⟩
    have hwidth := hfar "W-w-" (by decide)
    have hheight := hfar "H-h-" (by decide)
    cases corner with
    | topLeft => exact ⟨_, _, by simp [Video.cornerText, toString, List.intercalate], hnear, hnear⟩
    | topRight =>
        exact ⟨_, _, by simp [Video.cornerText, toString, List.intercalate], hwidth, hnear⟩
    | bottomLeft =>
        exact ⟨_, _, by simp [Video.cornerText, toString, List.intercalate], hnear, hheight⟩
    | bottomRight =>
        exact ⟨_, _, by simp [Video.cornerText, toString, List.intercalate], hwidth, hheight⟩
  have hoption : (withArgs "overlay" (Video.cornerText corner margin)).option? "enable" =
      [("x".toList, x), ("y".toList, y)].lookup "enable".toList := by
    refine option?_eq rfl htext ?_ (by simp) _
    simp only [List.forall_mem_cons, List.not_mem_nil, false_implies, implies_true, and_true]
    exact ⟨⟨by decide, hx⟩, by decide, hy⟩
  simp only [times, ends?, hoption]
  rfl

theorem times_trim : (withArgs "atrim" s!"duration={Decimal.fixed 3 x}").times =
    [(Decimal.fixed 3 x).toList] := by
  have hoption : (withArgs "atrim" s!"duration={Decimal.fixed 3 x}").option? "duration" =
      [("duration".toList, (Decimal.fixed 3 x).toList)].lookup "duration".toList := by
    refine option?_eq rfl ?_ ?_ (by simp) _
    · simp [toString]
    · rw [List.forall_mem_singleton]
      exact ⟨(by decide : ':' ∉ "duration".toList ∧ '=' ∉ "duration".toList),
        not_mem_fixed x (by decide), not_mem_fixed x (by decide)⟩
  simp only [times, hoption]
  rfl

theorem fade?_afade {args : String} {direction start length : List Char}
    (htext : args.toList = "t=".toList ++ direction ++ ":st=".toList ++ start ++ ":d=".toList ++
      length)
    (h : ∀ text ∈ [direction, start, length], ':' ∉ text ∧ '=' ∉ text) :
    (withArgs "afade" args).fade? = some ⟨direction, start, length⟩ := by
  have hoption (name : String) : (withArgs "afade" args).option? name =
      [("t".toList, direction), ("st".toList, start), ("d".toList, length)].lookup
        name.toList := by
    refine option?_eq rfl (htext.trans (by simp [List.intercalate])) ?_ (by simp) name
    simp only [List.forall_mem_cons, List.not_mem_nil, false_implies, implies_true, and_true] at h ⊢
    exact ⟨⟨by decide, h.1⟩, ⟨by decide, h.2.1⟩, by decide, h.2.2⟩
  simp only [fade?, hoption]
  rfl

theorem fade?_in : (withArgs "afade" s!"t=in:st=0:d={Decimal.fixed 3 x}").fade? =
    some ⟨"in".toList, "0".toList, (Decimal.fixed 3 x).toList⟩ := by
  refine fade?_afade (by simp [toString]) ?_
  simp only [List.forall_mem_cons, List.not_mem_nil, false_implies, implies_true, and_true]
  exact ⟨by decide, by decide, not_mem_fixed x (by decide), not_mem_fixed x (by decide)⟩

theorem fade?_out :
    (withArgs "afade" s!"t=out:st={Decimal.fixed 3 x}:d={Decimal.fixed 3 y}").fade? =
      some ⟨"out".toList, (Decimal.fixed 3 x).toList, (Decimal.fixed 3 y).toList⟩ := by
  refine fade?_afade (by simp [toString]) ?_
  simp only [List.forall_mem_cons, List.not_mem_nil, false_implies, implies_true, and_true]
  exact ⟨by decide, ⟨not_mem_fixed x (by decide), not_mem_fixed x (by decide)⟩,
    not_mem_fixed y (by decide), not_mem_fixed y (by decide)⟩

end Filter

theorem Filter.flatMap_times_eq_nil {filters : List Filter} (h : ∀ f ∈ filters, f.name ∉ timed) :
    filters.flatMap times = [] :=
  List.flatMap_eq_nil_iff.mpr fun f hf => times_eq_nil (h f hf)

/-! ## What is said by what is built -/

/-- The times that some nodes say. -/
def Node.timesOf (nodes : List Node) : List (List Char) :=
  (nodes.flatMap Node.filters).flatMap Filter.times

@[simp] theorem Node.timesOf_append (nodes nodes' : List Node) :
    timesOf (nodes ++ nodes') = timesOf nodes ++ timesOf nodes' := by
  rw [timesOf, List.flatMap_append, List.flatMap_append, timesOf, timesOf]

theorem Node.timesOf_singleton (n : Node) : timesOf [n] = n.filters.flatMap Filter.times := by
  rw [timesOf, List.flatMap_singleton]

/-- A builder that says some times more. -/
def Builder.Says (b : Builder) (texts : List (List Char)) (b' : Builder) : Prop :=
  Node.timesOf b'.nodes = Node.timesOf b.nodes ++ texts

namespace Builder.Says

variable {b b₁ b' : Builder} {texts texts' : List (List Char)}

theorem of_nodes (h : b'.nodes = b.nodes) : Says b [] b' := by rw [Says, h, List.append_nil]

theorem refl (b : Builder) : Says b [] b := of_nodes rfl

theorem trans (h : Says b texts b₁) (h' : Says b₁ texts' b') : Says b (texts ++ texts') b' := by
  rw [Says, h', h, List.append_assoc]

theorem quiet (h : Says b texts b₁) (h' : Says b₁ [] b') : Says b texts b' := by
  rw [← List.append_nil texts]
  exact h.trans h'

theorem fanOut (b : Builder) (kind : Stream) (stage : Stage) (pads : List Pad)
    {filters : List Filter} (h : filters.flatMap Filter.times = texts) (outputs : Nat) :
    Says b texts (b.fanOut kind stage pads filters outputs).1 := by
  rw [Says, Builder.fanOut_nodes, Node.timesOf_append, Node.timesOf_singleton, h]

theorem node (b : Builder) (kind : Stream) (stage : Stage) (pads : List Pad)
    {filters : List Filter} (h : filters.flatMap Filter.times = texts) :
    Says b texts (b.node kind stage pads filters).1 := by
  rw [← congrArg Prod.fst (Builder.fanOut_one b kind stage pads filters)]
  exact fanOut b kind stage pads h 1

theorem quietFanOut (b : Builder) (kind : Stream) (stage : Stage) (pads : List Pad)
    (filters : List Filter) (h : ∀ f ∈ filters, f.name ∉ Filter.timed) (outputs : Nat) :
    Says b [] (b.fanOut kind stage pads filters outputs).1 :=
  fanOut b kind stage pads (Filter.flatMap_times_eq_nil h) outputs

theorem quietNode (b : Builder) (kind : Stream) (stage : Stage) (pads : List Pad)
    (filters : List Filter) (h : ∀ f ∈ filters, f.name ∉ Filter.timed) :
    Says b [] (b.node kind stage pads filters).1 :=
  node b kind stage pads (Filter.flatMap_times_eq_nil h)

end Builder.Says

/-! ## The picture -/

namespace Video

open Builder (Says)

variable {b b' : Builder} {pad pad' : Pad} {clip : Clip}

theorem says_bands (probe : Probe) (width : Nat) {branches : List (Pad × Region × Nat)}
    {pads : List Pad} (h : bands probe width b branches = some (b', pads)) : Says b [] b' := by
  induction branches generalizing b pads with
  | nil =>
      cases h
      exact .refl _
  | cons head rest ih =>
      obtain ⟨branch, subject, height⟩ := head
      obtain ⟨window, -, h⟩ := Option.bind_eq_some_iff.mp h
      obtain ⟨⟨b₁, pads₁⟩, hrest, h⟩ := Option.bind_eq_some_iff.mp h
      cases h
      have hcrop := Says.quietNode b .video .frame [branch] (cropScale window width height)
        (by simp [cropScale, Filter.timed])
      exact hcrop.quiet (ih hrest)

theorem says_frame {probe : Probe} {subjects : List Region}
    (h : frame clip probe subjects b pad = some (b', pad')) : Says b [] b' := by
  unfold frame at h
  dsimp only at h
  split at h
  case isTrue =>
    obtain ⟨heights, -, h⟩ := Option.bind_eq_some_iff.mp h
    obtain ⟨⟨b₁, pads⟩, hbands, h⟩ := Option.bind_eq_some_iff.mp h
    cases h
    have hsplit := Says.quietFanOut b .video .frame [pad]
      [withArgs "split" (toString subjects.length)] (by simp [Filter.timed]) subjects.length
    exact (hsplit.quiet (says_bands probe _ hbands)).quiet
      (.quietNode _ .video .frame pads _ (by simp [Filter.timed]))
  case isFalse =>
    obtain ⟨window, -, h⟩ := Option.bind_eq_some_iff.mp h
    cases h
    exact .quietNode b .video .frame [pad] _ (by simp [cropScale, Filter.timed])

theorem says_tempo (clip : Clip) (b : Builder) (pad : Pad) : Says b [] (tempo clip b pad).1 := by
  rw [tempo]
  split
  · exact .node b .video .tempo [pad] (by rw [List.flatMap_singleton, Filter.times_tempo])
  · exact .refl b

theorem says_motion (clip : Clip) (autoZoomMax : Binary64) (b : Builder) (pad : Pad) :
    Says b [] (motion clip autoZoomMax b pad).1 := by
  rw [motion]
  split
  · exact .quietNode b .video .motion [pad] _ (by simp [Zoom.filters, Filter.timed])
  · exact .refl b

theorem says_color (clip : Clip) (b : Builder) (pad : Pad) : Says b [] (color clip b pad).1 := by
  unfold color
  split
  case h_1 filters hfilters =>
    refine .quietNode b .video .color [pad] filters ?_
    rw [gradeFilters?, Option.ite_none_left_eq_some, Option.some.injEq] at hfilters
    rw [← hfilters.2]
    simp only [List.forall_mem_append]
    refine ⟨⟨⟨?_, ?_⟩, ?_⟩, ?_⟩ <;> split <;> simp [Filter.timed]
  case h_2 => exact .refl b

theorem says_subtitles (assets : Assets) (b : Builder) (pad : Pad) :
    Says b [] (subtitles assets b pad).1 := by
  unfold subtitles
  split
  · exact .quietNode b .video .subtitle [pad] _ (by simp [subtitleFilter, Filter.timed])
  · exact .refl b

/-- What is put over the picture says the times of its preparation and its own ones. -/
theorem Composes.tells {media : MediaInput} {stage : Stage} {prepare composite : List Filter}
    (h : Composes b media stage prepare composite pad b' pad') :
    Says b (prepare.flatMap Filter.times ++ composite.flatMap Filter.times) b' := by
  obtain ⟨-, _, _, _, hnodes⟩ := h
  rw [Says, hnodes, Node.timesOf_append]
  simp [Node.timesOf]

/-- A cutaway is prepared to begin where it is shown. -/
theorem times_cutawayFilters (layer : ClipCutaway) (r : PixelRect) :
    (cutawayFilters layer r).flatMap Filter.times = [written layer.window.startMs] := by
  have hfading : (if layer.opacity < 1 then
      [withArgs "format" "rgba",
        withArgs "colorchannelmixer" s!"aa={Decimal.fixed 3 layer.opacity}"]
      else []).flatMap Filter.times = [] := by
    split <;> exact Filter.flatMap_times_eq_nil (by simp [Filter.timed])
  have hquiet {name args : String} (h : name ∉ Filter.timed) : (withArgs name args).times = [] :=
    Filter.times_eq_nil h
  rw [cutawayFilters, List.flatMap_append, hfading, List.append_nil, List.flatMap_cons,
    List.flatMap_cons, List.flatMap_cons, List.flatMap_singleton, hquiet (by decide),
    hquiet (by decide), hquiet (by decide), Filter.times_shift]
  rfl

theorem says_cutaway {layer : ClipCutaway} (h : cutaway clip b pad layer = .ok (b', pad')) :
    Says b ([layer.window.startMs, layer.window.startMs, layer.window.endMs].map written) b' := by
  obtain ⟨r, hcomposes⟩ := composes_of_cutaway h
  have htold := hcomposes.tells
  rwa [times_cutawayFilters, List.flatMap_singleton,
    Filter.times_of_enable rfl (option?_cutaway r layer.window)] at htold

theorem says_sticker {layer : ClipSticker} {path : String}
    (h : sticker clip b pad layer path = .ok (b', pad')) :
    Says b ([layer.window.startMs, layer.window.endMs].map written) b' := by
  obtain ⟨r, hcomposes⟩ := composes_of_sticker h
  have htold := hcomposes.tells
  rwa [Filter.flatMap_times_eq_nil (by simp [stickerFilters, Filter.timed]),
    List.flatMap_singleton, Filter.times_of_enable rfl (option?_sticker r layer.window)] at htold

theorem says_watermark (h : watermark clip b pad = .ok (b', pad')) : Says b [] b' := by
  cases hmark : clip.watermark with
  | none =>
      rw [watermark, hmark] at h
      cases h
      exact .refl b
  | some mark =>
      obtain ⟨width, margin, hcomposes⟩ := composes_of_watermark hmark h
      have htold := hcomposes.tells
      rwa [Filter.flatMap_times_eq_nil (by simp [Filter.timed]), List.flatMap_singleton,
        Filter.times_corner] at htold

theorem says_layers {stickerPaths : List String}
    (h : layers clip stickerPaths b pad = .ok (b', pad')) :
    Says b (clip.layerTimes.map written) b' := by
  have hcount := length_stickerPaths_of_layers h
  obtain ⟨s₁, hcutaways, hstickers⟩ := layers_eq_ok h
  let Adds (s : Builder × Pad) (texts : List (List (List Char))) (s' : Builder × Pad) : Prop :=
    Says s.1 texts.flatten s'.1
  have hrefl (s : Builder × Pad) : Adds s [] s := .refl s.1
  have htrans {s s₁ s' : Builder × Pad} {texts texts' : List (List (List Char))}
      (h : Adds s texts s₁) (h' : Adds s₁ texts' s') : Adds s (texts ++ texts') s' := by
    simpa only [Adds, List.flatten_append] using Says.trans h h'
  have hbefore := Outcome.foldlM_adds Adds hrefl htrans (fun layer : ClipCutaway =>
      [layer.window.startMs, layer.window.startMs, layer.window.endMs].map written)
    (fun s layer s' hdraw => by simpa [Adds] using says_cutaway hdraw) hcutaways
  have hafter := Outcome.foldlM_adds Adds hrefl htrans (fun image : ClipSticker × String =>
      [image.1.window.startMs, image.1.window.endMs].map written)
    (fun s image s' hdraw => by simpa [Adds] using says_sticker hdraw) hstickers
  have himages : (clip.stickers.zip stickerPaths).flatMap (fun image =>
      [image.1.window.startMs, image.1.window.endMs].map written) =
      clip.stickers.flatMap fun layer =>
        [layer.window.startMs, layer.window.endMs].map written := by
    conv_rhs => rw [← List.map_fst_zip hcount.ge, List.flatMap_map]
  have hsays := Says.trans hbefore hafter
  rw [← List.flatMap_def, ← List.flatMap_def, himages] at hsays
  rwa [Clip.layerTimes, List.map_append, List.map_flatMap, List.map_flatMap]

/-- The picture says the times of its layers. -/
theorem timesOf_build {probe : Probe} {subjects : List Region} {assets : Assets} {g : Graph}
    (h : build clip probe subjects assets = .ok g) :
    Node.timesOf g.nodes = clip.layerTimes.map written := by
  rw [build_eq] at h
  obtain ⟨s, hlayered, h⟩ := bind_eq_ok_iff.mp h
  obtain ⟨t, hdressed, h⟩ := bind_eq_ok_iff.mp h
  cases h
  obtain ⟨⟨b₀, source⟩, htake, hlayered⟩ := bind_eq_ok_iff.mp hlayered
  obtain ⟨⟨b₁, framed⟩, hframe, hlayers⟩ := bind_eq_ok_iff.mp hlayered
  have hframed : Says (Builder.new clip.sourceInput) [] b₁ :=
    .quiet (.of_nodes (Builder.take_eq_ok htake).2.1)
      (says_frame (Outcome.ofOption_eq_ok_iff.mp hframe))
  let paced := tempo clip b₁ framed
  let graded := color clip s.1 s.2
  have hmoved := (hframed.quiet (says_tempo clip b₁ framed)).quiet
    (says_motion clip assets.autoZoomMax paced.1 paced.2)
  have hgraded := (hmoved.trans (says_layers hlayers)).quiet (says_color clip s.1 s.2)
  have hall := (hgraded.quiet (says_subtitles assets graded.1 graded.2)).quiet
    (says_watermark hdressed)
  simpa [Says, Builder.new, Builder.finish, Node.timesOf] using hall

end Video

/-! ## The sound -/

namespace Audio

open Builder (Says)

variable {b b' : Builder} {pad pad' prepared : Pad} {clip : Clip}

/-- The times of music, as they are written. The beginning of its fade-out is a difference. -/
def musicTexts (clip : Clip) (music : Music) : List (List Char) :=
  let fade := clip.fadeMs music
  [written clip.durationMs] ++
    (if music.fadeIn && Binary64.lt 0 (Window.seconds fade) then [written fade] else []) ++
    if music.fadeOut && Binary64.lt 0 (Window.seconds fade) then
      [(Decimal.fixed 3 (clip.durationSeconds - Window.seconds fade)).toList, written fade]
    else []

theorem times_musicFilters (clip : Clip) (music : Music) :
    (musicFilters clip music).flatMap Filter.times = musicTexts clip music := by
  have hin (x : Binary64) : (withArgs "afade" s!"t=in:st=0:d={Decimal.fixed 3 x}").times =
      [(Decimal.fixed 3 x).toList] := by
    simp only [Filter.times, Filter.fade?_in]
    rfl
  have hout (x y : Binary64) :
      (withArgs "afade" s!"t=out:st={Decimal.fixed 3 x}:d={Decimal.fixed 3 y}").times =
        [(Decimal.fixed 3 x).toList, (Decimal.fixed 3 y).toList] := by
    simp only [Filter.times, Filter.fade?_out]
    rfl
  have hfirst (volume : String) :
      [withArgs "atrim" s!"duration={Decimal.fixed 3 clip.durationSeconds}",
      withArgs "asetpts" "PTS-STARTPTS", withArgs "volume" volume].flatMap Filter.times =
        [written clip.durationMs] := by
    rw [List.flatMap_cons, Filter.times_trim, Filter.flatMap_times_eq_nil (by simp [Filter.timed])]
    rfl
  have hlast : [sampleFormat].flatMap Filter.times = [] :=
    Filter.flatMap_times_eq_nil (by simp [Filter.timed, sampleFormat])
  have hoptional (c : Bool) (f : Filter) :
      (if c then [f] else []).flatMap Filter.times = if c then f.times else [] := by
    cases c <;> simp
  simp only [musicFilters, List.flatMap_append, hfirst, hlast, hoptional, hin, hout,
    List.append_nil]
  rfl

theorem says_primary {probe : Probe} (h : primary clip probe b = .ok (b', pad)) :
    Says b (if probe.hasAudio then [] else [written clip.durationMs]) b' := by
  rw [primary] at h
  split at h
  case isTrue haudio =>
    obtain ⟨⟨b₁, source⟩, htake, h⟩ := bind_eq_ok_iff.mp h
    cases h
    rw [if_pos haudio]
    refine .quiet (.of_nodes (Builder.take_eq_ok htake).2.1)
      (.quietNode b₁ .audio .primary [source] _ ?_)
    simp only [List.forall_mem_append, List.forall_mem_map, List.forall_mem_singleton]
    exact ⟨⟨by simp [Filter.timed], fun _ _ => by simp [Filter.timed]⟩,
      by simp [Filter.timed, sampleFormat]⟩
  case isFalse haudio =>
    cases h
    rw [if_neg haudio]
    refine .node b .audio .primary [] ?_
    have hsilence (args : String) : (withArgs "anullsrc" args).times = [] :=
      Filter.times_eq_nil (by simp [Filter.timed])
    rw [List.flatMap_cons, hsilence, List.nil_append, List.flatMap_singleton, Filter.times_trim]
    rfl

theorem says_enhance (clip : Clip) (b : Builder) (pad : Pad) :
    Says b [] (enhance clip b pad).1 := by
  rw [enhance]
  split
  · exact .quietNode b .audio .enhance [pad] _ (by simp [Filter.timed])
  · exact .refl b

theorem says_mixDucked (h : mixDucked b pad prepared = .ok (b', pad')) : Says b [] b' := by
  cases h
  have hsplit := Says.quietFanOut b .audio .mix [pad] [withArgs "asplit" "2"]
    (by simp [Filter.timed]) 2
  exact (hsplit.quiet (.quietNode _ .audio .mix _ _ (by simp [Filter.timed]))).quiet
    (.quietNode _ .audio .mix _ _ (by simp [Filter.timed]))

theorem says_addMusic (h : addMusic clip b pad = .ok (b', pad')) :
    Says b (clip.music.toList.flatMap (musicTexts clip)) b' := by
  unfold addMusic at h
  cases hmusic : clip.music with
  | none =>
      rw [hmusic] at h
      cases h
      exact .refl b
  | some music =>
      rw [hmusic] at h
      obtain ⟨⟨b₁, media⟩, htake, h⟩ := bind_eq_ok_iff.mp h
      have htaken : Says b [] b₁ := .of_nodes (Builder.take_eq_ok htake).2.1
      have hprepared := htaken.trans
        (.node b₁ .audio .music [media] (times_musicFilters clip music))
      rw [Option.toList_some, List.flatMap_singleton]
      dsimp only at h
      split at h
      case isTrue => exact hprepared.quiet (says_mixDucked h)
      case isFalse =>
        cases h
        exact hprepared.quiet (.quietNode _ .audio .mix _ _ (by simp [Filter.timed]))

theorem says_copies (b : Builder) (sound : Pad) (n : Nat) : Says b [] (copies b sound n).1 := by
  rw [copies]
  split
  · exact .quietFanOut b .audio .sfx [sound] _ (by simp [Filter.timed]) n
  · exact .refl b

theorem says_delays (b : Builder) (copies : List (Pad × Nat)) : Says b [] (delays b copies).1 := by
  induction copies generalizing b with
  | nil => exact .refl b
  | cons head rest ih =>
      have hdelay := Says.quietNode b .audio .sfx [head.1]
        [withArgs "adelay" s!"delays={head.2}:all=1", sampleFormat]
        (by simp [Filter.timed, sampleFormat])
      exact hdelay.quiet (ih _)

theorem says_addEffects {soundPath : Option String}
    (h : addEffects clip soundPath b pad = .ok (b', pad')) : Says b [] b' := by
  unfold addEffects at h
  dsimp only at h
  split at h
  case h_2 =>
    cases h
    exact .refl b
  case h_1 =>
    split at h
    case isTrue =>
      cases h
      exact .refl b
    case isFalse =>
      obtain ⟨⟨b₁, sound⟩, htake, h⟩ := bind_eq_ok_iff.mp h
      cases h
      have htaken : Says b [] b₁ := .of_nodes (Builder.take_eq_ok htake).2.1
      have hdelayed := (htaken.quiet (says_copies b₁ sound clip.onsets.length)).quiet
        (says_delays _ ((copies b₁ sound clip.onsets.length).2.zip clip.onsets))
      exact hdelayed.quiet (.quietNode _ .audio .sfx _ _ (by simp [Filter.timed]))

/-- The sound says how long silence lasts, and the times of its music. -/
theorem timesOf_build {probe : Probe} {soundPath : Option String} {g : Graph}
    (h : build clip probe soundPath = .ok g) :
    Node.timesOf g.nodes = (if probe.hasAudio then [] else [written clip.durationMs]) ++
      clip.music.toList.flatMap (musicTexts clip) := by
  obtain ⟨⟨b₁, pad₁⟩, hprimary, h⟩ := bind_eq_ok_iff.mp h
  obtain ⟨⟨b₂, pad₂⟩, hmusic, h⟩ := bind_eq_ok_iff.mp h
  obtain ⟨⟨b₃, pad₃⟩, heffects, h⟩ := bind_eq_ok_iff.mp h
  cases h
  have hplayed : addMusic clip (enhance clip b₁ pad₁).1 (enhance clip b₁ pad₁).2 =
    .ok (b₂, pad₂) := hmusic
  have hall := (((says_primary hprimary).quiet (says_enhance clip b₁ pad₁)).trans
    (says_addMusic hplayed)).quiet (says_addEffects heffects)
  simpa [Says, Builder.new, Builder.finish, Node.timesOf] using hall

end Audio

/-! ## The inputs -/

namespace MediaInput

theorem times_trimmed (path : String) (startMs durationMs : Nat) :
    (trimmed path startMs durationMs).times = [written startMs, written durationMs] := by
  simp [times, trimmed, timesOf, written]

theorem times_loopedImage (path : String) (durationMs : Nat) :
    (loopedImage path durationMs).times = [written durationMs] := by
  simp [times, loopedImage, timesOf, written]

theorem times_loopedAudio (path : String) (offsetMs : Nat) :
    (loopedAudio path offsetMs).times = [written offsetMs] := by
  simp [times, loopedAudio, timesOf, written]

end MediaInput

/-- The inputs of a program say where what they show begins and how long it is. -/
theorem Program.inputTimes_of_compile {clip : Clip} {probe : Probe} {subjects : List Region}
    {assets : Assets} {p : Program} (h : compile clip probe subjects assets = .ok p) :
    p.graph.inputs.flatMap MediaInput.times = clip.inputTimes.map written := by
  have hcount := length_stickerPaths_of_compile h
  have hpaths {α : Type} (xs : List α) (path : α → String) :
      (xs.map fun x => ({ path := path x } : MediaInput)).flatMap MediaInput.times = [] := by
    rw [List.flatMap_map]
    exact List.flatMap_eq_nil_iff.mpr fun _ _ => rfl
  have heffects :
      (Audio.effectInputs clip assets.soundEffectPath).flatMap MediaInput.times = [] := by
    rw [Audio.effectInputs]
    split
    · exact hpaths _ id
    · rfl
  have hcutaways : (clip.cutaways.map Video.cutawayInput).flatMap MediaInput.times =
      (clip.cutaways.flatMap fun layer => [layer.offsetMs, layer.window.duration]).map written := by
    rw [List.flatMap_map, List.map_flatMap]
    simp only [Video.cutawayInput, MediaInput.times_trimmed, List.map_cons, List.map_nil]
  have hstickers : (assets.stickerPaths.map fun path =>
      MediaInput.loopedImage path clip.durationMs).flatMap MediaInput.times =
        (clip.stickers.map fun _ => clip.durationMs).map written := by
    rw [List.flatMap_map]
    simp only [MediaInput.times_loopedImage, ← List.map_eq_flatMap, List.map_const', hcount,
      List.map_replicate]
  have hmusic : (clip.music.toList.map fun music =>
      MediaInput.loopedAudio music.path music.offsetMs).flatMap MediaInput.times =
        (clip.music.toList.map (·.offsetMs)).map written := by
    rw [List.flatMap_map]
    simp only [MediaInput.times_loopedAudio, ← List.map_eq_flatMap, List.map_map]
    rfl
  rw [inputs_of_compile hcount h]
  simp [Video.furtherInputs, Audio.furtherInputs, heffects, hcutaways, hstickers, hmusic, hpaths,
    Clip.inputTimes, Clip.sourceInput, MediaInput.times_trimmed]

/-! ## The program -/

/-- The times that the sound of a clip says, as they are written. -/
def Audio.soundTexts (clip : Clip) (probe : Probe) : List (List Char) :=
  (if probe.hasAudio then [] else [written clip.durationMs]) ++
    clip.music.toList.flatMap (musicTexts clip)

namespace Program

variable {clip : Clip} {probe : Probe} {subjects : List Region} {assets : Assets} {p : Program}

theorem durationMs_of_compile (h : compile clip probe subjects assets = .ok p) :
    p.durationMs = clip.durationMs := by
  obtain ⟨_, _, -, -, hmerge⟩ := exists_merge_of_compile h
  obtain ⟨-, -, rfl⟩ := merge_eq_ok_iff.mp hmerge
  rfl

/-- The nodes of a program say the times of the layers and those of the sound. -/
theorem timesOf_nodes (h : compile clip probe subjects assets = .ok p) :
    Node.timesOf p.graph.nodes = clip.layerTimes.map written ++ Audio.soundTexts clip probe := by
  obtain ⟨video, audio, hvideo, haudio, hunion⟩ := compile_eq_ok h
  have hshift (base offset : Nat) :
      Node.timesOf (audio.nodes.map (shiftNode base offset)) = Node.timesOf audio.nodes := by
    rw [Node.timesOf, List.flatMap_map]
    rfl
  rw [hunion, union, Node.timesOf_append, hshift, Video.timesOf_build hvideo,
    Audio.timesOf_build haudio, Audio.soundTexts]

/-- The arguments of a program are read back as those of its inputs, the filters of its nodes and
its length, and so are the times. -/
theorem times?_of_compile (h : compile clip probe subjects assets = .ok p) (codec : List String)
    (output : String) :
    ∃ invocation, Invocation.read? (p.args codec output) = some invocation ∧
      invocation.filters? = some (p.graph.nodes.flatMap Node.filters) ∧
      invocation.times? = some (clip.inputTimes.map written ++
        (clip.layerTimes.map written ++ Audio.soundTexts clip probe) ++
        [written clip.durationMs]) := by
  obtain ⟨picture, sound, hpicture, hsound⟩ := ends_of_compile h
  obtain ⟨hne, hreadable⟩ := nodes_readable h
  let invocation : Invocation := {
    inputs := p.graph.inputs
    text := p.graph.filterText
    picture := picture.text
    sound := sound.text
    codec
    duration := secondsText p.durationMs
    output }
  have hfilters : invocation.filters? = some (p.graph.nodes.flatMap Node.filters) := by
    rw [Invocation.filters?, Grammar.read?_filterText hne hreadable, Option.bind_eq_bind,
      Option.bind_some, List.flatMap_map]
    rfl
  have hargs := Invocation.read?_args hpicture hsound (plain_inputs_of_compile h) codec output
  refine ⟨invocation, hargs, hfilters, ?_⟩
  rw [Invocation.times?, hfilters, Option.bind_eq_bind, Option.bind_some, inputTimes_of_compile h,
    ← Node.timesOf, timesOf_nodes h, ← durationMs_of_compile h]
  rfl

end Program

end Montage
