import Montage.Proofs.Graph.Merging

/-! # Graphs that can be united

A graph for picture and a graph for sound are each checked before they are united. When they read
the same source and share no label, the check of their union cannot fail: there is a program, and
both graphs are in it whole. -/

namespace Montage

/-- Every pad that is read, declared or leaves is of one kind. -/
def Graph.OfKind (g : Graph) (kind : Stream) : Prop :=
  ∀ pad ∈ Node.reads g.nodes ++ Node.declares g.nodes ++ g.terminals, pad.kind = kind

instance (g : Graph) (kind : Stream) : Decidable (g.OfKind kind) :=
  inferInstanceAs (Decidable (∀ pad ∈ _, _))

theorem Graph.OfKind.reads {g : Graph} {kind : Stream} (h : g.OfKind kind) :
    ∀ pad ∈ Node.reads g.nodes, pad.kind = kind :=
  fun pad hpad => h pad (List.mem_append_left _ (List.mem_append_left _ hpad))

/-- The numbers of linked nodes go up from zero without a gap. -/
theorem Node.Linked.map_id {inputCount : Nat} {nodes : List Node}
    (h : Node.Linked inputCount nodes) : nodes.map Node.id = List.range nodes.length := by
  refine List.ext_getElem (by simp) fun k hk _ => ?_
  rw [List.length_map] at hk
  rw [List.getElem_map, List.getElem_range]
  exact h.numbered k nodes[k] (List.getElem?_eq_getElem hk)

namespace Program

variable {video audio : Graph}

/-- A wired graph in which two graphs are whole: the nodes of the one and then those of the other,
numbered without a gap, all inputs but for the second copy of the source, and what leaves either.
Every pad stands for what it stood for. -/
structure Joined (video audio g : Graph) : Prop where
  wired : g.check = .ok ()
  nodes : g.nodes = video.nodes ++
    audio.nodes.map (shiftNode video.nodes.length (video.inputs.length - 1))
  numbered : g.nodes.map Node.id = List.range g.nodes.length
  inputs : g.inputs = video.inputs ++ audio.inputs.drop 1
  video_out : g.videoOut = video.videoOut
  audio_out : g.audioOut = audio.audioOut
  referents : video.KeepsReferents audio g

/-- A graph that reads something from a common source has one to share. -/
theorem source_of_sameSource (h : sameSource video audio) (ha : audio.inputs ≠ []) :
    video.inputs ≠ [] := by
  obtain ⟨found, hfound, -⟩ := sameSource_head h
    (List.getElem?_eq_getElem (List.length_pos_iff.mpr ha))
  rintro hnil
  simp [hnil] at hfound

/-- The numbers of a wired graph can be raised as long as the union has numbers for all its nodes
and inputs. -/
theorem canRenumber_of_linked (ha : Node.Linked audio.inputs.length audio.nodes)
    (hnodes : video.nodes.length + audio.nodes.length ≤ Limits.number)
    (hinputs : video.inputs.length + audio.inputs.length ≤ Limits.number) :
    canRenumber video audio := by
  rw [canRenumber, List.all_eq_true]
  intro n hn
  obtain ⟨k, hk⟩ := List.mem_iff_getElem?.mp hn
  have hlt : k < audio.nodes.length := (List.getElem?_eq_some_iff.mp hk).1
  have hid : n.id + video.nodes.length < Limits.number := by
    rw [ha.numbered k n hk]
    omega
  rw [Bool.and_eq_true, decide_eq_true_iff, List.all_eq_true]
  refine ⟨hid, fun pad hpad => ?_⟩
  cases pad with
  | source input kind =>
      have hinput := ha.source_exists n hn input kind hpad
      rw [renumber, decide_eq_true_iff]
      split <;> omega
  | link label kind => rfl

/-- Two graphs that pass the check have a program if they read the same source, the one is all
picture, the other one all sound with an output that leaves, and no label is declared in both. Both
are whole in it. Where there are numbers for all nodes and inputs, they can be raised. -/
theorem merge_of_check (hv : video.check = .ok ()) (ha : audio.check = .ok ())
    (hsource : sameSource video audio) (hpicture : video.OfKind .video)
    (hsound : audio.OfKind .audio) (hsilent : video.audioOut = none)
    (hblank : audio.videoOut = none)
    (hlink : ∃ label kind, audio.audioOut = some (.link label kind))
    (hlabels : ∀ label ∈ Pad.labels (Node.declares video.nodes),
      label ∉ Pad.labels (Node.declares audio.nodes)) (durationMs : Nat) :
    ∃ p, merge video audio durationMs = .ok p ∧ Joined video audio p.graph ∧
      p.durationMs = durationMs ∧
      (video.nodes.length + audio.nodes.length ≤ Limits.number →
        video.inputs.length + audio.inputs.length ≤ Limits.number →
          merge? video audio durationMs = some (.ok p)) := by
  have hvideo := Graph.wellWired_of_check hv
  have haudio := Graph.wellWired_of_check ha
  obtain ⟨label, kind, hout⟩ := hlink
  obtain rfl : kind = .audio := haudio.audio_kind _ hout
  have hseparate : Separate video audio :=
    ⟨source_of_sameSource hsource, hpicture.reads, hsound.reads, @hlabels, hsilent, hblank,
      label, hout⟩
  have hwired := hseparate.wellWired hvideo haudio
  have hmerge : merge video audio durationMs = .ok { graph := union video audio, durationMs } :=
    merge_eq_ok_iff.mpr ⟨hsource, hwired.check, rfl⟩
  refine ⟨_, hmerge, ⟨hwired.check, rfl, hwired.linked.map_id, rfl, rfl, rfl, ?_⟩, rfl, ?_⟩
  · -- only a pad of an input could stand for something else
    refine (keeps_of_merge hmerge).2.2.2.mpr ?_
    intro input kind media hinput
    cases hout.symm.trans hinput
  · intro hnodes hinputs
    rw [merge?, canRenumber_of_linked haudio.linked hnodes hinputs, hmerge]
    simp

/-- The source's sound over music. -/
def scored : Graph where
  inputs := [{ path := "/media//in.mp4" }, { path := "/media/music.mp3" }]
  nodes := [{ id := 0, stage := .music, filters := [{ name := "volume" }]
              inputs := [.source 1 .audio], outputs := [.link "a0" .audio] },
            { id := 1, stage := .mix, filters := [{ name := "amix" }]
              inputs := [.source 0 .audio, .link "a0" .audio], outputs := [.link "a1" .audio] }]
  audioOut := some (.link "a1" .audio)

/-- The music is read behind the sticker, and a generated picture needs no source at all. -/
theorem merge_of_check_stickered :
    (∃ p, merge stickered scored 4000 = .ok p ∧ Joined stickered scored p.graph ∧
      (p.graph.nodes.map Node.inputs)[1]? = some [.source 2 .audio]) ∧
    let black : Graph :=
      { inputs := [], videoOut := some (.link "v0" .video)
        nodes := [{ id := 0, stage := .frame, filters := [{ name := "color" }], inputs := []
                    outputs := [.link "v0" .video] }] }
    let silence : Graph :=
      { inputs := [], audioOut := some (.link "a0" .audio)
        nodes := [{ id := 0, stage := .primary, filters := [{ name := "anullsrc" }], inputs := []
                    outputs := [.link "a0" .audio] }] }
    ∃ p, merge black silence 4000 = .ok p ∧ Joined black silence p.graph := by
  constructor
  · have hvideo : stickered.check = .ok () := by decide +kernel
    have haudio : scored.check = .ok () := by decide +kernel
    obtain ⟨p, hmerge, hjoined, -⟩ := merge_of_check hvideo haudio (by decide +kernel) (by decide)
      (by decide) rfl rfl ⟨_, _, rfl⟩ (by decide) 4000
    refine ⟨p, hmerge, hjoined, ?_⟩
    rw [hjoined.nodes]
    rfl
  · intro black silence
    have hvideo : black.check = .ok () := by decide +kernel
    have haudio : silence.check = .ok () := by decide +kernel
    obtain ⟨p, hmerge, hjoined, -⟩ := merge_of_check hvideo haudio (by decide +kernel) (by decide)
      (by decide) rfl rfl ⟨_, _, rfl⟩ (by decide) 4000
    exact ⟨p, hmerge, hjoined⟩

end Program

end Montage
