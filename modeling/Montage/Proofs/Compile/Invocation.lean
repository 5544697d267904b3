import Montage.Proofs.Clip.Seconds
import Montage.Proofs.Compile.Inputs
import Montage.Proofs.Compile.Reading

/-! # The arguments of the encoder

The arguments are read from left to right: fixed options, the inputs with their options, the program
text, the two pads that are mapped, the codec, the length and the output. What a program asks for is
read back, whatever its files are called, and each input that the program text reads is there. -/

namespace Montage

/-! ## The reader -/

/-- What the arguments of the encoder say. -/
structure Invocation where
  inputs : List MediaInput
  text : String
  picture : String
  sound : String
  codec : List String
  duration : String
  output : String
  deriving DecidableEq, Repr

namespace Invocation

/-- The inputs in front of the program text, and what follows its option. The first list holds the
options read since the last path. They belong to the next path, which follows `-i` and may be any
text. -/
def inputs? (options : List String) : List String → Option (List MediaInput × List String)
  | [] => none
  | "-filter_complex" :: rest => if options = [] then some ([], rest) else none
  | "-i" :: path :: rest => do
      let (inputs, tail) ← inputs? [] rest
      return ({ path, options } :: inputs, tail)
  | option :: rest => inputs? (options ++ [option]) rest

/-- The codec's arguments, which are whatever stands before the length, then length and output. -/
def ending? (args : List String) : Option (List String × String × String) :=
  match args.reverse with
  | output :: duration :: "-t" :: codec => some (codec.reverse, duration, output)
  | _ => none

/-- Arguments read from left to right. Exactly two pads are mapped, so that what the codec is told
may look like a further one. -/
def read? : List String → Option Invocation
  | "-hide_banner" :: "-nostdin" :: "-y" :: "-loglevel" :: "error" :: "-progress" :: "pipe:1" ::
      "-nostats" :: rest => do
        let (inputs, rest) ← inputs? [] rest
        match rest with
        | text :: "-map" :: picture :: "-map" :: sound :: rest =>
            let (codec, duration, output) ← ending? rest
            return { inputs, text, picture, sound, codec, duration, output }
        | _ => none
  | _ => none

/-! ## Options that are no paths -/

/-- Options among which none ends its group. -/
def Plain (options : List String) : Prop :=
  "-i" ∉ options ∧ "-filter_complex" ∉ options

/-- Plain options wait for their path. -/
theorem inputs?_options {more : List String} (h : Plain more) (options rest : List String) :
    inputs? options (more ++ rest) = inputs? (options ++ more) rest := by
  induction more generalizing options with
  | nil => rw [List.nil_append, List.append_nil]
  | cons option more ih =>
      obtain ⟨hpath, htext⟩ := h
      rw [List.mem_cons, not_or] at hpath htext
      rw [List.cons_append, inputs?, ih ⟨hpath.2, htext.2⟩, List.append_assoc,
        List.singleton_append]
      · exact fun heq => htext.1 heq.symm
      · exact fun _ _ heq => absurd heq.symm hpath.1

/-- Inputs are read back up to the option of the program text. -/
theorem inputs?_args {inputs : List MediaInput} (h : ∀ m ∈ inputs, Plain m.options)
    (rest : List String) :
    inputs? [] (inputs.flatMap MediaInput.args ++ "-filter_complex" :: rest) =
      some (inputs, rest) := by
  induction inputs with
  | nil => simp [inputs?]
  | cons m inputs ih =>
      obtain ⟨hm, hinputs⟩ := List.forall_mem_cons.mp h
      rw [List.flatMap_cons, MediaInput.args, List.append_assoc, List.append_assoc,
        inputs?_options hm]
      simp only [List.nil_append, List.cons_append, inputs?, ih hinputs]
      rfl

theorem ending?_append (codec : List String) (duration output : String) :
    ending? (codec ++ ["-t", duration, output]) = some (codec, duration, output) := by
  simp [ending?]

/-- The arguments of a program with two ends are read back, if no option of an input is taken for
the end of its group. -/
theorem read?_args {p : Program} {picture sound : Pad} (hpicture : p.graph.videoOut = some picture)
    (hsound : p.graph.audioOut = some sound) (h : ∀ m ∈ p.graph.inputs, Plain m.options)
    (codec : List String) (output : String) :
    read? (p.args codec output) = some {
      inputs := p.graph.inputs
      text := p.graph.filterText
      picture := picture.text
      sound := sound.text
      codec
      duration := secondsText p.durationMs
      output } := by
  have hlayout : p.args codec output = Program.leadingArgs ++
      (p.graph.inputs.flatMap MediaInput.args ++ "-filter_complex" :: p.graph.filterText ::
        "-map" :: picture.text :: "-map" :: sound.text ::
          (codec ++ ["-t", secondsText p.durationMs, output])) := by
    simp [Program.args, hpicture, hsound]
  rw [hlayout]
  simp only [Program.leadingArgs, List.cons_append, List.nil_append, read?, inputs?_args h,
    ending?_append, Option.bind_eq_bind, Option.bind_some]
  rfl

end Invocation

/-! ## The inputs of a program -/

namespace Invocation.Plain

variable {options : List String}

theorem nil : Plain [] := ⟨List.not_mem_nil, List.not_mem_nil⟩

theorem cons {option : String} (hpath : option ≠ "-i") (htext : option ≠ "-filter_complex")
    (h : Plain options) : Plain (option :: options) :=
  ⟨List.not_mem_cons_of_ne_of_not_mem hpath.symm h.1,
    List.not_mem_cons_of_ne_of_not_mem htext.symm h.2⟩

theorem seconds (ms : Nat) (h : Plain options) : Plain (secondsText ms :: options) := by
  have hne {option : String} (hoption : '-' ∈ option.toList) : secondsText ms ≠ option := by
    rintro rfl
    exact Window.hyphen_not_mem_fixed_seconds ms hoption
  exact .cons (hne (by decide)) (hne (by decide)) h

theorem trimmed (path : String) (startMs durationMs : Nat) :
    Plain (MediaInput.trimmed path startMs durationMs).options :=
  .cons (by decide) (by decide) (.seconds _ (.cons (by decide) (by decide) (.seconds _ .nil)))

theorem loopedImage (path : String) (durationMs : Nat) :
    Plain (MediaInput.loopedImage path durationMs).options :=
  .cons (by decide) (by decide) (.cons (by decide) (by decide)
    (.cons (by decide) (by decide) (.seconds _ .nil)))

theorem loopedAudio (path : String) (offsetMs : Nat) :
    Plain (MediaInput.loopedAudio path offsetMs).options :=
  .cons (by decide) (by decide) (.cons (by decide) (by decide)
    (.cons (by decide) (by decide) (.seconds _ .nil)))

end Invocation.Plain

/-- A picture is made only with an image for each sticker. -/
theorem Video.length_stickerPaths_of_layers {clip : Clip} {stickerPaths : List String}
    {b b' : Builder} {pad pad' : Pad} (h : layers clip stickerPaths b pad = .ok (b', pad')) :
    stickerPaths.length = clip.stickers.length := by
  obtain ⟨s, -, h⟩ := bind_eq_ok_iff.mp h
  dsimp only at h
  split at h
  case isTrue => cases h
  case isFalse hcount => exact not_not.mp hcount

namespace Program

variable {clip : Clip} {probe : Probe} {subjects : List Region} {assets : Assets} {p : Program}

theorem length_stickerPaths_of_compile (h : compile clip probe subjects assets = .ok p) :
    assets.stickerPaths.length = clip.stickers.length := by
  obtain ⟨video, audio, hvideo, -, -⟩ := compile_eq_ok h
  obtain ⟨_, -, hvideo⟩ := bind_eq_ok_iff.mp hvideo
  obtain ⟨_, -, hvideo⟩ := bind_eq_ok_iff.mp hvideo
  obtain ⟨_, hlayers, -⟩ := bind_eq_ok_iff.mp hvideo
  exact Video.length_stickerPaths_of_layers hlayers

/-- No option of an input of a program is taken for the end of its group. -/
theorem plain_inputs_of_compile (h : compile clip probe subjects assets = .ok p) :
    ∀ m ∈ p.graph.inputs, Invocation.Plain m.options := by
  rw [inputs_of_compile (length_stickerPaths_of_compile h) h]
  simp only [Video.furtherInputs, Audio.furtherInputs, Audio.effectInputs, List.forall_mem_cons,
    List.forall_mem_append, List.forall_mem_map]
  refine ⟨.trimmed _ _ _, ⟨⟨?cutaways, ?stickers⟩, ?watermark⟩, ?music, ?effects⟩
  case cutaways => exact fun _ _ => .trimmed _ _ _
  case stickers => exact fun _ _ => .loopedImage _ _
  case watermark => exact fun _ _ => .nil
  case music => exact fun _ _ => .loopedAudio _ _
  case effects =>
    split
    · exact List.forall_mem_map.mpr fun _ _ => .nil
    · simp

/-- The two pads that leave a program. -/
theorem ends_of_compile (h : compile clip probe subjects assets = .ok p) :
    ∃ picture sound, p.graph.videoOut = some picture ∧ p.graph.audioOut = some sound := by
  obtain ⟨video, audio, hvideo, haudio, hunion⟩ := compile_eq_ok h
  obtain ⟨_, picture, rfl, -⟩ := Video.ends_of_build hvideo
  obtain ⟨_, sound, hbuild, -⟩ := Audio.build_ends clip probe assets.soundEffectPath
  obtain rfl := Except.ok.inj (haudio.symm.trans hbuild)
  exact ⟨picture, sound, by rw [hunion]; rfl, by rw [hunion]; rfl⟩

/-- The arguments of a program are read back from left to right: its inputs with their options in
the order of their numbers, the program text, the pads of picture and sound, the codec's arguments,
whatever they are, and the output, wherever it is. Read back in turn, the text has the nodes of the
program, and each stream that it names is of an input that was read. -/
theorem read?_args_of_compile (h : compile clip probe subjects assets = .ok p)
    (codec : List String) (output : String) :
    ∃ picture sound, p.graph.videoOut = some picture ∧ p.graph.audioOut = some sound ∧
      Invocation.read? (p.args codec output) = some {
        inputs := p.graph.inputs
        text := p.graph.filterText
        picture := picture.text
        sound := sound.text
        codec
        duration := secondsText p.durationMs
        output } ∧
      Grammar.read? p.graph.filterText = some (p.graph.nodes.map Node.written) ∧
      ∀ n ∈ p.graph.nodes.map Node.written, ∀ input kind,
        .source input kind ∈ n.inputs ++ n.outputs → input < p.graph.inputs.length := by
  obtain ⟨picture, sound, hpicture, hsound⟩ := ends_of_compile h
  obtain ⟨hne, hreadable⟩ := nodes_readable h
  refine ⟨picture, sound, hpicture, hsound,
    Invocation.read?_args hpicture hsound (plain_inputs_of_compile h) codec output,
    Grammar.read?_filterText hne hreadable, ?_⟩
  have hlinked := (Graph.wellWired_of_check (check_of_compile h)).linked
  intro n hn input kind hsource
  obtain ⟨m, hm, rfl⟩ := List.mem_map.mp hn
  rcases List.mem_append.mp hsource with hread | hdeclared
  · exact hlinked.source_exists m hm input kind hread
  · obtain ⟨label, kind', heq⟩ := hlinked.labelled m hm _ hdeclared
    cases heq

/-- Files that are called like options, a codec that is told to map a stream, and an output that is
called like the option before it. -/
theorem read?_args_of_options :
    let e : Edit :=
      { sourcePath := "-i", trimStartMs := 0, trimEndMs := 3000, canvas := .portrait
        music := some { path := "-filter_complex" } }
    let probe : Probe := ⟨1920, 1080, some 10000, true, true⟩
    ∃ clip p, Clip.ofEdit e = .ok clip ∧ compile clip probe [] {} = .ok p ∧
      p.graph.inputs.map (·.path) = ["-i", "-filter_complex"] ∧
      ∃ picture sound, p.graph.videoOut = some picture ∧ p.graph.audioOut = some sound ∧
        Invocation.read? (p.args ["-map", "0:s?", "-c:v", "libx264"] "-t") = some {
          inputs := p.graph.inputs
          text := p.graph.filterText
          picture := picture.text
          sound := sound.text
          codec := ["-map", "0:s?", "-c:v", "libx264"]
          duration := secondsText p.durationMs
          output := "-t" } := by
  intro e probe
  have hrun : (do
      let p ← compile (← Clip.ofEdit e) probe [] {}
      return p.graph.inputs.map (·.path) : Outcome (List String)) =
      .ok ["-i", "-filter_complex"] := by
    decide +kernel
  obtain ⟨clip, hclip, hrun⟩ := bind_eq_ok_iff.mp hrun
  obtain ⟨p, hp, hpaths⟩ := bind_eq_ok_iff.mp hrun
  obtain ⟨picture, sound, hpicture, hsound, hread, -⟩ :=
    read?_args_of_compile hp ["-map", "0:s?", "-c:v", "libx264"] "-t"
  exact ⟨clip, p, hclip, hp, Except.ok.inj hpaths, picture, sound, hpicture, hsound, hread⟩

end Program

end Montage
