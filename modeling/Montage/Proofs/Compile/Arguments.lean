import Montage.Compile.Program
import Montage.Compile.Video
import Montage.Proofs.Graph.Reading

/-! # Arguments of filters

What the compilation writes into arguments: numbers, which are words; zooms, which stand inside
quotes and have none; and paths, whose quotes leave the quoted run and come back to it. -/

namespace Montage.Grammar

open Montage.Filter (withArgs)

/-! ## Numbers -/

theorem word_fixed (places : Nat) (x : Binary64) : Word (Decimal.fixed places x).toList := by
  have hmark : Word ['-', '.', 'N', 'a', 'i', 'n', 'f'] := by decide
  refine Decimal.forall_mem_fixed (fun c hdigit hspecial => ?_) hmark places x
  exact Bool.false_ne_true ((isDigit_of_special hspecial).symm.trans hdigit)

/-- What has no quote stays inside quotes. -/
theorem exit?_quoted {xs : List Char} (h : '\'' ∉ xs) : Mode.quoted.exit? xs = some .quoted := by
  induction xs with
  | nil => rfl
  | cons c xs ih =>
      rw [List.mem_cons, not_or] at h
      have hnext : Mode.next .quoted c = .quoted := by simp [Mode.next, Ne.symm h.1]
      rw [Mode.exit?, if_neg (by simp), hnext, ih h.2]

/-! ## Zooms -/

/-- What zooms are made of, apart from digits. -/
def zoomMarks : List Char := "-.Nainft()+*/,mbew".toList

theorem forall_mem_zoom {P : Char → Prop} (hdigit : ∀ c : Char, c.isDigit → P c)
    (hmark : ∀ c ∈ zoomMarks, P c) (zoom : Zoom.Expr) : ∀ c ∈ zoom.text.toList, P c := by
  have hword {text : List Char} (h : text ⊆ zoomMarks) : ∀ c ∈ text, P c :=
    fun c hc => hmark c (h hc)
  have hnumber (value : Binary64) : ∀ c ∈ (Zoom.Expr.numberText value).toList, P c :=
    Decimal.forall_mem_fixed hdigit (hword (by decide)) 6 value
  induction zoom with
  | time => rw [Zoom.Expr.text.eq_def]; exact hword (by decide)
  | number value => rw [Zoom.Expr.text.eq_def]; exact hnumber value
  | bracket inner ih =>
      rw [Zoom.Expr.text.eq_def]
      simp only [toString, String.toList_append, List.forall_mem_append]
      exact ⟨⟨hword (by decide), ih⟩, hword (by decide)⟩
  | min left right ihl ihr =>
      rw [Zoom.Expr.text.eq_def]
      simp only [toString, String.toList_append, List.forall_mem_append]
      exact ⟨⟨⟨⟨hword (by decide), ihl⟩, hword (by decide)⟩, ihr⟩, hword (by decide)⟩
  | within startAt endAt inside outside ihi iho =>
      rw [Zoom.Expr.text.eq_def]
      simp only [toString, String.toList_append, List.forall_mem_append]
      exact ⟨⟨⟨⟨⟨⟨⟨⟨hword (by decide), hnumber startAt⟩, hword (by decide)⟩, hnumber endAt⟩,
        hword (by decide)⟩, ihi⟩, hword (by decide)⟩, iho⟩, hword (by decide)⟩
  | _ left right ihl ihr =>
      rw [Zoom.Expr.text.eq_def]
      simp only [toString, String.toList_append, List.forall_mem_append]
      exact ⟨⟨ihl, hword (by decide)⟩, ihr⟩

/-- The marks of options: around a value, between options, and in front of a value. -/
def optionMarks : List Char := ['\'', ':', '=']

theorem not_mem_of_optionMarks {c : Char} (hc : c ∈ optionMarks) {text : List Char}
    (h : optionMarks.all fun d => d ∉ text) : c ∉ text :=
  of_decide_eq_true (List.all_eq_true.mp h c hc)

theorem isDigit_of_optionMarks {c : Char} (hc : c ∈ optionMarks) : c.isDigit = false := by
  have hnone : optionMarks.all fun d => !d.isDigit := by decide
  simpa using List.all_eq_true.mp hnone c hc

/-- No zoom has a mark of options, however deep it is. -/
theorem not_mem_zoom {c : Char} (hc : c ∈ optionMarks) (zoom : Zoom.Expr) :
    c ∉ zoom.text.toList := by
  intro hmem
  have hmarks : zoomMarks.all fun d => d ∉ optionMarks := by decide
  refine forall_mem_zoom (P := (· ∉ optionMarks)) (fun d hd hmark => ?_)
    (fun d hd => of_decide_eq_true (List.all_eq_true.mp hmarks d hd)) zoom c hmem hc
  exact Bool.false_ne_true ((isDigit_of_optionMarks hmark).symm.trans hd)

/-- A zoomed side has no mark of options. -/
theorem not_mem_scaledSide {c : Char} (hc : c ∈ optionMarks) (side : Nat) (zoom : Zoom.Expr) :
    c ∉ (Zoom.scaledSide side zoom.text).toList := by
  have hside := Decimal.not_mem_toString (isDigit_of_optionMarks hc) side
  simp only [Zoom.scaledSide, String.toList_append, List.mem_append, not_or]
  exact ⟨⟨⟨⟨not_mem_of_optionMarks hc (by decide), hside⟩, not_mem_of_optionMarks hc (by decide)⟩,
    not_mem_zoom hc zoom⟩, not_mem_of_optionMarks hc (by decide)⟩

/-! ## Paths -/

/-- An escaped path ends inside the quotes that it began in. -/
theorem exit?_escapePath (path : String) :
    Mode.quoted.exit? (Video.escapePath path).toList = some .quoted := by
  rw [Video.escapePath, String.toList_ofList]
  induction path.toList with
  | nil => rfl
  | cons c rest ih =>
      have hc : Mode.quoted.exit? (Video.escapePathChar c) = some .quoted := by
        unfold Video.escapePathChar
        split
        case h_4 hquote _ => exact exit?_quoted (by simpa using Ne.symm hquote)
        all_goals rfl
      rw [List.flatMap_cons, exit?_append, hc]
      exact ih

/-! ## Templates -/

/-- A piece of arguments: a fixed text, a word, arguments of their own, or what may only stand
inside quotes. -/
inductive Piece where
  | fixed (text : String)
  | word (text : String) (word : Word text.toList)
  | closed (text : String) (closed : Closed text)
  | inside (text : String) (stays : Mode.quoted.exit? text.toList = some .quoted)

namespace Piece

/-- The text of a piece. -/
def text : Piece → String
  | fixed text => text
  | word text _ => text
  | closed text _ => text
  | inside text _ => text

/-- A whole number. -/
def nat (n : Nat) : Piece := .word (toString n) (word_toString n)

/-- A number with fixed places. -/
def decimal (places : Nat) (x : Binary64) : Piece :=
  .word (Decimal.fixed places x) (word_fixed places x)

/-- How a text is read on after some pieces. Only the fixed texts are looked at. -/
def exit? : Mode → List Piece → Option Mode
  | mode, [] => some mode
  | mode, fixed text :: rest => (mode.exit? text.toList).bind (exit? · rest)
  | .escaped, word .. :: _ => none
  | mode, word .. :: rest => exit? mode rest
  | .bare, closed .. :: rest => exit? .bare rest
  | _, closed .. :: _ => none
  | .quoted, inside .. :: rest => exit? .quoted rest
  | _, inside .. :: _ => none

/-- The pieces one after the other. -/
def fill : List Piece → String
  | [] => ""
  | piece :: rest => rest.foldl (fun text piece => text ++ piece.text) piece.text

theorem toList_fill (pieces : List Piece) :
    (fill pieces).toList = pieces.flatMap (·.text.toList) := by
  have hfold (rest : List Piece) (text : String) :
      (rest.foldl (fun text piece => text ++ piece.text) text).toList =
        text.toList ++ rest.flatMap (·.text.toList) := by
    induction rest generalizing text with
    | nil => simp
    | cons piece rest ih => simp [ih]
  cases pieces with
  | nil => rfl
  | cons piece rest => exact hfold rest piece.text

theorem exit?_flatMap {mode mode' : Mode} {pieces : List Piece}
    (h : exit? mode pieces = some mode') :
    mode.exit? (pieces.flatMap (·.text.toList)) = some mode' := by
  induction pieces generalizing mode with
  | nil => exact h
  | cons piece rest ih =>
      rw [List.flatMap_cons, exit?_append]
      cases piece with
      | fixed text =>
          obtain ⟨mode₁, hfirst, hrest⟩ := Option.bind_eq_some_iff.mp h
          exact Option.bind_eq_some_iff.mpr ⟨mode₁, hfirst, ih hrest⟩
      | word text hword =>
          cases mode with
          | bare => exact Option.bind_eq_some_iff.mpr ⟨.bare, hword.exit? (by decide), ih h⟩
          | quoted => exact Option.bind_eq_some_iff.mpr ⟨.quoted, hword.exit? (by decide), ih h⟩
          | escaped => cases h
      | closed text hclosed =>
          cases mode with
          | bare => exact Option.bind_eq_some_iff.mpr ⟨.bare, hclosed, ih h⟩
          | quoted => cases h
          | escaped => cases h
      | inside text hstays =>
          cases mode with
          | bare => cases h
          | quoted => exact Option.bind_eq_some_iff.mpr ⟨.quoted, hstays, ih h⟩
          | escaped => cases h

/-- Arguments are closed if their template is. -/
theorem closed_fill (pieces : List Piece) (h : exit? .bare pieces = some .bare) :
    Closed (fill pieces) := by
  rw [Closed, toList_fill]
  exact exit?_flatMap h

end Piece

/-! ## The filters of the compilation -/

theorem readable_withArgs {name args : String} (hname : name ≠ "" ∧ Word name.toList)
    (hargs : Closed args) : Readable (withArgs name args) :=
  ⟨hname.1, hname.2, fun _ h => by cases h; exact hargs⟩

/-- Filters that are read back. -/
def AllReadable (filters : List Filter) : Prop := ∀ f ∈ filters, Readable f

namespace AllReadable

variable {f : Filter} {fs gs : List Filter}

theorem nil : AllReadable [] := fun _ h => by cases h

theorem cons (hf : Readable f) (h : AllReadable fs) : AllReadable (f :: fs) :=
  List.forall_mem_cons.mpr ⟨hf, h⟩

theorem single (hf : Readable f) : AllReadable [f] := nil.cons hf

theorem append (hf : AllReadable fs) (hg : AllReadable gs) : AllReadable (fs ++ gs) :=
  List.forall_mem_append.mpr ⟨hf, hg⟩

theorem optional (c : Bool) (h : AllReadable fs) : AllReadable (if c then fs else []) := by
  cases c with
  | true => exact h
  | false => exact nil

end AllReadable

open Piece AllReadable

theorem readable_cropScale (w : CropWindow) (width height : Nat) :
    AllReadable (Video.cropScale w width height) := by
  refine .cons (readable_withArgs (by decide) ?_)
    (.cons (readable_withArgs (by decide) ?_) (.single (readable_withArgs (by decide) rfl)))
  · exact closed_fill [.nat w.width, .fixed ":", .nat w.height, .fixed ":", .nat w.x, .fixed ":",
      .nat w.y] rfl
  · exact closed_fill [.nat width, .fixed ":", .nat height] rfl

theorem closed_nat (n : Nat) : Closed (toString n) := closed_fill [.nat n] rfl

theorem readable_stack (n : Nat) : Readable (withArgs "vstack" s!"inputs={n}") :=
  readable_withArgs (by decide) (closed_fill [.fixed "inputs=", .nat n] rfl)

theorem readable_tempo (speed : Binary64) :
    Readable (withArgs "setpts" s!"(PTS-STARTPTS)/{Decimal.fixed 6 speed}") :=
  readable_withArgs (by decide) (closed_fill [.fixed "(PTS-STARTPTS)/", .decimal 6 speed] rfl)

/-- A zoomed side has no quote. -/
theorem stays_scaledSide (side : Nat) (zoom : Zoom.Expr) :
    Mode.quoted.exit? (Zoom.scaledSide side zoom.text).toList = some .quoted :=
  exit?_quoted (not_mem_scaledSide (by decide) side zoom)

theorem readable_zoom (zoom : Zoom.Expr) (width height : Nat) :
    AllReadable (Zoom.filters zoom.text width height) := by
  refine .cons (readable_withArgs (by decide) ?_) (.single (readable_withArgs (by decide) ?_))
  · exact closed_fill [.fixed "w='", .inside _ (stays_scaledSide width zoom), .fixed "':h='",
      .inside _ (stays_scaledSide height zoom), .fixed "':eval=frame"] rfl
  · exact closed_fill [.fixed "w=", .nat width, .fixed ":h=", .nat height, .fixed ":x='(",
      .inside _ (stays_scaledSide width zoom), .fixed "-", .nat width, .fixed ")/2':y='(",
      .inside _ (stays_scaledSide height zoom), .fixed "-", .nat height, .fixed ")/2'"] rfl

theorem closed_enableText (w : Window) : Closed (Video.enableText w) :=
  closed_fill [.fixed "enable='between(t,", .decimal 3 w.startSeconds, .fixed ",",
    .decimal 3 w.endSeconds, .fixed ")'"] rfl

theorem readable_cutawayFilters (layer : ClipCutaway) (r : PixelRect) :
    AllReadable (Video.cutawayFilters layer r) := by
  refine .append (.cons (readable_withArgs (by decide) ?_)
    (.cons (readable_withArgs (by decide) ?_) (.cons (readable_withArgs (by decide) rfl)
      (.single (readable_withArgs (by decide) ?_))))) ?_
  · exact closed_fill [.nat r.width, .fixed ":", .nat r.height,
      .fixed ":force_original_aspect_ratio=increase"] rfl
  · exact closed_fill [.nat r.width, .fixed ":", .nat r.height] rfl
  · exact closed_fill [.fixed "PTS-STARTPTS+", .decimal 3 layer.window.startSeconds,
      .fixed "/TB"] rfl
  · split
    · refine .cons (readable_withArgs (by decide) rfl) (.single (readable_withArgs (by decide) ?_))
      exact closed_fill [.fixed "aa=", .decimal 3 layer.opacity] rfl
    · exact nil

/-- A cutaway over the picture. -/
theorem readable_cutaway (r : PixelRect) (w : Window) :
    Readable (withArgs "overlay" s!"x={r.x}:y={r.y}:{Video.enableText w}:eof_action=pass") :=
  readable_withArgs (by decide) (closed_fill [.fixed "x=", .nat r.x, .fixed ":y=", .nat r.y,
    .fixed ":", .closed _ (closed_enableText w), .fixed ":eof_action=pass"] rfl)

theorem readable_stickerFilters (r : PixelRect) :
    AllReadable
      [withArgs "scale" s!"{r.width}:{r.height}:force_original_aspect_ratio=decrease",
       withArgs "format" "rgba"] := by
  refine .cons (readable_withArgs (by decide) ?_) (.single (readable_withArgs (by decide) rfl))
  exact closed_fill [.nat r.width, .fixed ":", .nat r.height,
    .fixed ":force_original_aspect_ratio=decrease"] rfl

/-- A sticker over the picture. -/
theorem readable_sticker (r : PixelRect) (w : Window) :
    Readable (withArgs "overlay"
      (s!"x='{r.x}+({r.width}-w)/2':y='{r.y}+({r.height}-h)/2':{Video.enableText w}")) :=
  readable_withArgs (by decide) (closed_fill [.fixed "x='", .nat r.x, .fixed "+(", .nat r.width,
    .fixed "-w)/2':y='", .nat r.y, .fixed "+(", .nat r.height, .fixed "-h)/2':",
    .closed _ (closed_enableText w)] rfl)

theorem readable_grade {g : Grade} {filters : List Filter}
    (h : Video.gradeFilters? g = some filters) : AllReadable filters := by
  rw [Video.gradeFilters?, Option.ite_none_left_eq_some] at h
  obtain ⟨-, h⟩ := h
  obtain rfl := Option.some.inj h
  refine .append (.append (.append (optional _ ?_) (optional _ ?_)) (optional _ ?_))
    (optional _ ?_)
  · refine .single (readable_withArgs (by decide) ?_)
    have hfirst : Closed s!"brightness={Decimal.fixed 3 g.brightness}:" :=
      closed_fill [.fixed "brightness=", .decimal 3 g.brightness, .fixed ":"] rfl
    exact closed_fill [.closed _ hfirst, .closed _ (closed_fill [.fixed "contrast=",
      .decimal 3 g.contrast, .fixed ":saturation=", .decimal 3 g.saturation] rfl)] rfl
  · exact .single (readable_withArgs (by decide)
      (closed_fill [.fixed "h=", .decimal 3 g.hue] rfl))
  · exact .single (readable_withArgs (by decide)
      (closed_fill [.fixed "temperature=", .decimal 0 g.kelvin] rfl))
  · exact .single (readable_withArgs (by decide)
      (closed_fill [.fixed "angle=", .decimal 4 (g.vignette * Video.quarterTurn)] rfl))

/-- Whatever the paths are, the filter ends where it should. -/
theorem readable_subtitle (path : String) (fontsDir : Option String) :
    Readable (Video.subtitleFilter path fontsDir) := by
  have hpath : Closed s!"filename='{Video.escapePath path}'" :=
    closed_fill [.fixed "filename='", .inside _ (exit?_escapePath path), .fixed "'"] rfl
  refine readable_withArgs (by decide) ?_
  cases fontsDir with
  | none => exact closed_fill [.closed _ hpath, .fixed ""] rfl
  | some dir =>
      have hdir : Closed s!":fontsdir='{Video.escapePath dir}'" :=
        closed_fill [.fixed ":fontsdir='", .inside _ (exit?_escapePath dir), .fixed "'"] rfl
      exact closed_fill [.closed _ hpath, .closed _ hdir] rfl

theorem readable_corner (corner : Corner) (margin : Nat) :
    Readable (withArgs "overlay" (Video.cornerText corner margin)) := by
  refine readable_withArgs (by decide) ?_
  cases corner with
  | topLeft => exact closed_fill [.fixed "x=", .nat margin, .fixed ":y=", .nat margin] rfl
  | topRight => exact closed_fill [.fixed "x=W-w-", .nat margin, .fixed ":y=", .nat margin] rfl
  | bottomLeft => exact closed_fill [.fixed "x=", .nat margin, .fixed ":y=H-h-", .nat margin] rfl
  | bottomRight =>
      exact closed_fill [.fixed "x=W-w-", .nat margin, .fixed ":y=H-h-", .nat margin] rfl

theorem readable_watermarkFilters (width : Nat) (opacity : Binary64) :
    AllReadable [withArgs "scale" s!"{width}:-2", withArgs "format" "rgba",
      withArgs "colorchannelmixer" s!"aa={Decimal.fixed 3 opacity}"] := by
  refine .cons (readable_withArgs (by decide) ?_) (.cons (readable_withArgs (by decide) rfl)
    (.single (readable_withArgs (by decide) ?_)))
  · exact closed_fill [.nat width, .fixed ":-2"] rfl
  · exact closed_fill [.fixed "aa=", .decimal 3 opacity] rfl

theorem readable_sampleFormat : Readable Audio.sampleFormat :=
  readable_withArgs (by decide) rfl

theorem readable_primary (volume speed : Binary64) :
    AllReadable ([withArgs "volume" (Decimal.fixed 3 volume)] ++
      (Tempo.factors speed).map (fun f => withArgs "atempo" (Decimal.fixed 6 f)) ++
      [Audio.sampleFormat]) := by
  refine .append (.append ?_ fun f hf => ?_) (.single readable_sampleFormat)
  · exact .single (readable_withArgs (by decide) (closed_fill [.decimal 3 volume] rfl))
  · obtain ⟨factor, -, rfl⟩ := List.mem_map.mp hf
    exact readable_withArgs (by decide) (closed_fill [.decimal 6 factor] rfl)

theorem readable_silence (duration : Binary64) :
    AllReadable [withArgs "anullsrc" "r=48000:cl=stereo",
      withArgs "atrim" s!"duration={Decimal.fixed 3 duration}"] := by
  refine .cons (readable_withArgs (by decide) rfl) (.single (readable_withArgs (by decide) ?_))
  exact closed_fill [.fixed "duration=", .decimal 3 duration] rfl

theorem readable_musicFilters (clip : Clip) (music : Music) :
    AllReadable (Audio.musicFilters clip music) := by
  refine .append (.append (.append (.cons (readable_withArgs (by decide) ?_)
    (.cons (readable_withArgs (by decide) rfl) (.single (readable_withArgs (by decide) ?_))))
      (optional _ ?_)) (optional _ ?_)) (.single readable_sampleFormat)
  · exact closed_fill [.fixed "duration=", .decimal 3 _] rfl
  · exact closed_fill [.decimal 3 music.volume] rfl
  · exact .single (readable_withArgs (by decide)
      (closed_fill [.fixed "t=in:st=0:d=", .decimal 3 _] rfl))
  · exact .single (readable_withArgs (by decide)
      (closed_fill [.fixed "t=out:st=", .decimal 3 _, .fixed ":d=", .decimal 3 _] rfl))

theorem readable_delay (onset : Nat) :
    AllReadable [withArgs "adelay" s!"delays={onset}:all=1", Audio.sampleFormat] :=
  .cons (readable_withArgs (by decide)
    (closed_fill [.fixed "delays=", .nat onset, .fixed ":all=1"] rfl))
    (.single readable_sampleFormat)

theorem readable_mix (inputs : Nat) :
    Readable (withArgs "amix" s!"inputs={inputs}:duration=first:normalize=0") :=
  readable_withArgs (by decide)
    (closed_fill [.fixed "inputs=", .nat inputs, .fixed ":duration=first:normalize=0"] rfl)

theorem readable_mixFlat : Readable (withArgs "amix"
    s!"inputs=2:duration=first:weights='1 {Decimal.plain Audio.musicWeight}':normalize=0") := by
  have hweight : Decimal.plain Audio.musicWeight = "0.6" := by decide +kernel
  rw [hweight]
  exact readable_withArgs (by decide) rfl

end Montage.Grammar
