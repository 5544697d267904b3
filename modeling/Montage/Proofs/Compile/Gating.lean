import Montage.Proofs.Clip.Layers
import Montage.Proofs.Clip.Seconds
import Montage.Proofs.Compile.ZoomCanvas

/-! # When layers are shown

A node that puts a cutaway or a sticker over the picture is only at work while an expression in the
time says so. The expression holds from the beginning of the layer's window to its end, both
included, as far as the two are written exactly; the window itself does not contain its end. -/

namespace Montage

open Montage.Filter (withArgs)
open Expression (Sum Term Atom)

/-! ## Windows and nodes -/

/-- Whether a time, in seconds, belongs to a window: its beginning does, its end does not. -/
def Window.Contains (w : Window) (t : Rat) : Prop := w.startMs ≤ 1000 * t ∧ 1000 * t < w.endMs

instance (w : Window) (t : Rat) : Decidable (w.Contains t) := inferInstanceAs (Decidable (_ ∧ _))

/-- Whether a node is at work at a time, if it is a filter with an option for it. -/
def Node.shownAt? (n : Node) (t : Rat) : Option Bool :=
  match n.filters with
  | [f] => (f.optionAt? t "enable").map fun v => decide (v ≠ 0)
  | _ => none

/-- A node that puts an input over the picture: next to the running picture it reads the pad that
another node makes of the video of the input. -/
def Node.PutsOver (nodes : List Node) (input : Nat) (n : Node) : Prop :=
  n ∈ nodes ∧ ∃ prepare ∈ nodes, ∃ pad prepared, prepare.inputs = [.source input .video] ∧
    prepare.outputs = [prepared] ∧ n.inputs = [pad, prepared]

namespace Node

variable {nodes : List Node} {n n' : Node} {input inputCount : Nat}

/-- In linked nodes only one node reads a pad. -/
theorem Linked.eq_of_mem_inputs (h : Linked inputCount nodes) (hn : n ∈ nodes) (hn' : n' ∈ nodes)
    (pad : Pad) (hpad : pad ∈ n.inputs) (hpad' : pad ∈ n'.inputs) : n = n' := by
  have honce : (reads nodes).Nodup := Pad.nodup_of_once h.source_once h.link_once
  rw [reads, List.nodup_flatMap] at honce
  have : Std.Symm (Function.onFun List.Disjoint inputs) := ⟨fun _ _ hd => hd.symm⟩
  by_contra hne
  exact honce.2.forall hn hn' hne hpad hpad'

/-- An input is put over the picture by one node. -/
theorem PutsOver.unique (h : Linked inputCount nodes) (hputs : PutsOver nodes input n)
    (hputs' : PutsOver nodes input n') : n = n' := by
  obtain ⟨hn, prepare, hprepare, pad, prepared, hreads, hmakes, hinputs⟩ := hputs
  obtain ⟨hn', prepare', hprepare', pad', prepared', hreads', hmakes', hinputs'⟩ := hputs'
  obtain rfl : prepare = prepare' := h.eq_of_mem_inputs hprepare hprepare'
    (.source input .video) (by simp [hreads]) (by simp [hreads'])
  obtain rfl : prepared = prepared' := List.head_eq_of_cons_eq (hmakes.symm.trans hmakes')
  exact h.eq_of_mem_inputs hn hn' prepared (by simp [hinputs]) (by simp [hinputs'])

theorem PutsOver.mono {more : List Node} (h : PutsOver nodes input n) (hsub : nodes ⊆ more) :
    PutsOver more input n := by
  obtain ⟨hn, prepare, hprepare, hrest⟩ := h
  exact ⟨hsub hn, prepare, hsub hprepare, hrest⟩

end Node

/-! ## The expression of a window -/

namespace Video

/-- The expression that is written for a window. -/
def betweenText (w : Window) : String :=
  s!"between(t,{Decimal.fixed 3 w.startSeconds},{Decimal.fixed 3 w.endSeconds})"

theorem not_mem_betweenText {c : Char} (hc : c ∈ Grammar.optionMarks) (w : Window) :
    c ∉ (betweenText w).toList := by
  have hfixed (x : Binary64) : c ∉ (Decimal.fixed 3 x).toList :=
    Decimal.not_mem_fixed (Grammar.isDigit_of_optionMarks hc)
      (Grammar.not_mem_of_optionMarks hc (by decide)) 3 x
  simp only [betweenText, String.toList_append, List.mem_append, not_or]
  exact ⟨⟨⟨⟨Grammar.not_mem_of_optionMarks hc (by decide), hfixed _⟩,
    Grammar.not_mem_of_optionMarks hc (by decide)⟩, hfixed _⟩,
    Grammar.not_mem_of_optionMarks hc (by decide)⟩

/-- The expression is read as one if the time is between the written ends, and as zero otherwise. -/
theorem value?_betweenText {w : Window} (hstart : w.startMs ≤ Binary64.top64)
    (hend : w.endMs ≤ Binary64.top64) (t : Rat) :
    Expression.value? t (betweenText w).toList =
      some (if Window.writtenSeconds w.startMs ≤ t ∧ t ≤ Window.writtenSeconds w.endMs then 1
        else 0) := by
  obtain ⟨_, -, hfirst⟩ := Window.exists_has_seconds hstart
  obtain ⟨_, -, hlast⟩ := Window.exists_has_seconds hend
  have hargs : List.Forall₂ (Sum t)
      [['t'], (Decimal.fixed 3 w.startSeconds).toList, (Decimal.fixed 3 w.endSeconds).toList]
      [t, Window.writtenSeconds w.startMs, Window.writtenSeconds w.endMs] := by
    rw [Window.writtenSeconds, Window.writtenSeconds, hfirst.toRat_eq, hlast.toRat_eq]
    exact .cons Atom.time.term.sum (.cons (Atom.fixed hfirst 3).term.sum
      (.cons (Atom.fixed hlast 3).term.sum .nil))
  have hcall := Atom.call "between".toList (by decide) hargs (by simp) (v := if
    Window.writtenSeconds w.startMs ≤ t ∧ t ≤ Window.writtenSeconds w.endMs then 1 else 0) rfl
  rw [← Expression.value?_of_sum hcall.term.sum]
  simp [betweenText, List.intercalate, toString]

/-! ## The option of a layer -/

/-- The option of a node with one filter is the expression of a window. -/
def Gated (n : Node) (w : Window) : Prop :=
  ∃ f, n.filters = [f] ∧ f.option? "enable" = some (Filter.quoted (betweenText w).toList)

theorem toList_enable (first last : String) :
    (s!"enable='between(t,{first},{last})'").toList =
      "enable".toList ++ '=' :: Filter.quoted (s!"between(t,{first},{last})").toList := by
  have hopen : (toString "enable='between(t,").toList =
      "enable".toList ++ '=' :: '\'' :: (toString "between(t,").toList := by decide +kernel
  have hclose : (toString ")'").toList = (toString ")").toList ++ ['\''] := by decide +kernel
  simp only [Filter.quoted, String.toList_append, hopen, hclose, List.append_assoc,
    List.cons_append]

theorem toList_enableText (w : Window) :
    (enableText w).toList = "enable".toList ++ '=' :: Filter.quoted (betweenText w).toList :=
  toList_enable _ _

/-- The expression stands between other options. -/
theorem option?_enable {args : String} {w : Window} (before after : List (List Char × List Char))
    (htext : args.toList = [':'].intercalate ((before ++ ("enable".toList,
      Filter.quoted (betweenText w).toList) :: after).map fun o => o.1 ++ '=' :: o.2))
    (hbefore : ∀ o ∈ before, ((':' ∉ o.1 ∧ '=' ∉ o.1) ∧ ':' ∉ o.2 ∧ '=' ∉ o.2) ∧
      o.1 ≠ "enable".toList)
    (hafter : ∀ o ∈ after, (':' ∉ o.1 ∧ '=' ∉ o.1) ∧ ':' ∉ o.2 ∧ '=' ∉ o.2) :
    (withArgs "overlay" args).option? "enable" =
      some (Filter.quoted (betweenText w).toList) := by
  have hwindow : (':' ∉ "enable".toList ∧ '=' ∉ "enable".toList) ∧
      ':' ∉ Filter.quoted (betweenText w).toList ∧ '=' ∉ Filter.quoted (betweenText w).toList :=
    ⟨by decide, Filter.not_mem_quoted (by decide) (not_mem_betweenText (by decide) w),
      Filter.not_mem_quoted (by decide) (not_mem_betweenText (by decide) w)⟩
  rw [Filter.option?_eq rfl htext ?_ (by simp)]
  · rw [List.lookup_append, List.lookup_eq_none_iff.mpr fun o ho => ?_, List.lookup_cons_self]
    · rfl
    · exact bne_iff_ne.mpr (hbefore o ho).2.symm
  · rw [List.forall_mem_append, List.forall_mem_cons]
    exact ⟨fun o ho => (hbefore o ho).1, hwindow, hafter⟩

theorem not_mem_decimal {c : Char} (hc : c ∈ Grammar.optionMarks) (n : Nat) :
    c ∉ (toString n).toList :=
  Decimal.not_mem_toString (Grammar.isDigit_of_optionMarks hc) n

theorem option?_cutaway (r : PixelRect) (w : Window) :
    (withArgs "overlay" s!"x={r.x}:y={r.y}:{enableText w}:eof_action=pass").option? "enable" =
      some (Filter.quoted (betweenText w).toList) := by
  refine option?_enable
    [("x".toList, (toString r.x).toList), ("y".toList, (toString r.y).toList)]
    [("eof_action".toList, "pass".toList)] ?_ ?_ (by decide)
  · simp [toList_enableText, toString, List.intercalate]
  · have hclean (n : Nat) : ':' ∉ (toString n).toList ∧ '=' ∉ (toString n).toList :=
      ⟨not_mem_decimal (by decide) n, not_mem_decimal (by decide) n⟩
    simp only [List.forall_mem_cons, List.not_mem_nil, false_implies, implies_true, and_true]
    exact ⟨⟨⟨by decide, hclean r.x⟩, by decide⟩, ⟨by decide, hclean r.y⟩, by decide⟩

/-- Where a sticker stands along a side, as it is written. -/
def middleText (corner side : Nat) (size : String) : String := s!"{corner}+({side}-{size})/2"

theorem not_mem_middleText {c : Char} (hc : c ∈ Grammar.optionMarks) {size : String}
    (hsize : c ∉ size.toList) (corner side : Nat) : c ∉ (middleText corner side size).toList := by
  simp only [middleText, String.toList_append, List.mem_append, not_or]
  exact ⟨⟨⟨⟨⟨not_mem_decimal hc corner, Grammar.not_mem_of_optionMarks hc (by decide)⟩,
    not_mem_decimal hc side⟩, Grammar.not_mem_of_optionMarks hc (by decide)⟩, hsize⟩,
    Grammar.not_mem_of_optionMarks hc (by decide)⟩

theorem option?_sticker (r : PixelRect) (w : Window) :
    let args := s!"x='{r.x}+({r.width}-w)/2':y='{r.y}+({r.height}-h)/2':{enableText w}"
    (withArgs "overlay" args).option? "enable" =
      some (Filter.quoted (betweenText w).toList) := by
  intro args
  refine option?_enable [("x".toList, Filter.quoted (middleText r.x r.width "w").toList),
    ("y".toList, Filter.quoted (middleText r.y r.height "h").toList)] [] ?_ ?_ (by simp)
  · simp [args, toList_enableText, middleText, Filter.quoted, toString, List.intercalate]
  · simp only [List.forall_mem_cons, List.not_mem_nil, false_implies, implies_true, and_true]
    have hclean (corner side : Nat) {size : String} (hcolon : ':' ∉ size.toList)
        (hequals : '=' ∉ size.toList) : ':' ∉ Filter.quoted (middleText corner side size).toList ∧
          '=' ∉ Filter.quoted (middleText corner side size).toList :=
      ⟨Filter.not_mem_quoted (by decide) (not_mem_middleText (by decide) hcolon corner side),
        Filter.not_mem_quoted (by decide) (not_mem_middleText (by decide) hequals corner side)⟩
    exact ⟨⟨⟨by decide, hclean _ _ (by decide) (by decide)⟩, by decide⟩,
      ⟨by decide, hclean _ _ (by decide) (by decide)⟩, by decide⟩

/-! ## Layers in the graph -/

/-- The further inputs that are shown in a window: the cutaways, then the images of the stickers. -/
def timedLayers (clip : Clip) (stickerPaths : List String) : List (MediaInput × Window) :=
  clip.cutaways.map (fun layer => (cutawayInput layer, layer.window)) ++
    (clip.stickers.zip stickerPaths).map fun image =>
      (.loopedImage image.2 clip.durationMs, image.1.window)

/-- A builder that puts some inputs more over the picture, each one in its window. -/
structure Overlays (b : Builder) (layers : List (MediaInput × Window)) (b' : Builder) : Prop where
  inputs : b'.inputs = b.inputs ++ layers.map Prod.fst
  nodes : b.nodes ⊆ b'.nodes
  gated : ∀ i layer, layers[i]? = some layer →
    ∃ n, Node.PutsOver b'.nodes (b.inputs.length + i) n ∧ Gated n layer.2

namespace Overlays

variable {b b' b₁ : Builder} {layers layers' : List (MediaInput × Window)}

theorem refl (b : Builder) : Overlays b [] b := ⟨by simp, fun _ h => h, by simp⟩

theorem trans (h : Overlays b layers b₁) (h' : Overlays b₁ layers' b') :
    Overlays b (layers ++ layers') b' where
  inputs := by rw [h'.inputs, h.inputs, List.map_append, List.append_assoc]
  nodes := fun _ hn => h'.nodes (h.nodes hn)
  gated := by
    intro i layer hlayer
    rw [List.getElem?_append] at hlayer
    split at hlayer
    case isTrue =>
      obtain ⟨n, hputs, hgated⟩ := h.gated i layer hlayer
      exact ⟨n, hputs.mono h'.nodes, hgated⟩
    case isFalse hlater =>
      obtain ⟨n, hputs, hgated⟩ := h'.gated _ layer hlayer
      rw [h.inputs, List.length_append, List.length_map, Nat.add_assoc,
        Nat.add_sub_cancel' (not_lt.mp hlater)] at hputs
      exact ⟨n, hputs, hgated⟩

end Overlays

section Stages

variable {b b' : Builder} {pad pad' : Pad} {clip : Clip}

theorem Composes.overlays {media : MediaInput} {stage : Stage} {prepare : List Filter}
    {gate : Filter} {w : Window} (h : Composes b media stage prepare [gate] pad b' pad')
    (hgate : gate.option? "enable" = some (Filter.quoted (betweenText w).toList)) :
    Overlays b [(media, w)] b' := by
  obtain ⟨hinputs, prepareId, compositeId, prepared, hnodes⟩ := h
  refine ⟨by rw [hinputs, List.map_singleton], by simp [hnodes], ?_⟩
  intro i layer hlayer
  obtain ⟨hi, -⟩ := List.getElem?_eq_some_iff.mp hlayer
  obtain rfl : i = 0 := Nat.lt_one_iff.mp hi
  cases hlayer
  refine ⟨⟨compositeId, stage, [gate], [pad, prepared], [pad']⟩, ⟨by simp [hnodes],
    ⟨prepareId, stage, prepare, [.source b.inputs.length .video], [prepared]⟩, by simp [hnodes],
    pad, prepared, rfl, rfl, rfl⟩, gate, rfl, hgate⟩

theorem overlays_layers {stickerPaths : List String}
    (h : layers clip stickerPaths b pad = .ok (b', pad')) :
    Overlays b (timedLayers clip stickerPaths) b' := by
  obtain ⟨s₁, hcutaways, hstickers⟩ := layers_eq_ok h
  let Adds (s : Builder × Pad) (layers : List (MediaInput × Window)) (s' : Builder × Pad) : Prop :=
    Overlays s.1 layers s'.1
  have hrefl (s : Builder × Pad) : Adds s [] s := .refl s.1
  refine Overlays.trans (Outcome.foldlM_adds Adds hrefl .trans _ ?cutaway hcutaways)
    (Outcome.foldlM_adds Adds hrefl .trans _ ?sticker hstickers)
  case cutaway =>
    intro s layer s' hdraw
    obtain ⟨r, hcomposes⟩ := composes_of_cutaway hdraw
    exact hcomposes.overlays (option?_cutaway r layer.window)
  case sticker =>
    intro s image s' hdraw
    obtain ⟨r, hcomposes⟩ := composes_of_sticker hdraw
    exact hcomposes.overlays (option?_sticker r image.1.window)

end Stages

/-! ## The layers of the picture -/

/-- A graph that puts each layer over the picture: after the source, its input is the next one. -/
def Overlaid (g : Graph) (layers : List (MediaInput × Window)) : Prop :=
  ∀ i layer, layers[i]? = some layer → g.inputs[i + 1]? = some layer.1 ∧
    ∃ n : Node, n.PutsOver g.nodes (i + 1) ∧ Gated n layer.2

/-- Nothing but the layers comes between the source and what is put over the picture after them. -/
theorem overlays_of_layered {clip : Clip} {probe : Probe} {subjects : List Region}
    {assets : Assets} {s : Builder × Pad} (h : layered clip probe subjects assets = .ok s) :
    ∃ b, b.inputs = [clip.sourceInput] ∧ Overlays b (timedLayers clip assets.stickerPaths) s.1 := by
  obtain ⟨⟨b₀, source⟩, htake, h⟩ := bind_eq_ok_iff.mp h
  obtain ⟨⟨b₁, framed⟩, hframe, hlayers⟩ := bind_eq_ok_iff.mp h
  obtain ⟨hinputs₀, -, rfl⟩ := Builder.take_eq_ok htake
  obtain ⟨hinputs₁, -⟩ := frame_eq_some (Outcome.ofOption_eq_ok_iff.mp hframe)
  have hdraws := (draws_tempo clip b₁ framed).trans (draws_motion clip assets.autoZoomMax _ _)
  have hinputs := hdraws.inputs
  rw [List.filterMap_append, filterMap_media_optional, filterMap_media_optional, List.append_nil,
    List.append_nil, hinputs₁, hinputs₀] at hinputs
  exact ⟨_, hinputs, overlays_layers hlayers⟩

theorem Overlaid.mono {g g' : Graph} {layers : List (MediaInput × Window)} (h : Overlaid g layers)
    (hinputs : g.inputs <+: g'.inputs) (hnodes : g.nodes ⊆ g'.nodes) : Overlaid g' layers := by
  intro i layer hlayer
  obtain ⟨hmedia, n, hputs, hgated⟩ := h i layer hlayer
  obtain ⟨hlt, heq⟩ := List.getElem?_eq_some_iff.mp hmedia
  refine ⟨?_, n, hputs.mono hnodes, hgated⟩
  rw [List.prefix_iff_getElem?.mp hinputs _ hlt, heq]

theorem Overlays.overlaid {b b' : Builder} {source : MediaInput}
    {layers : List (MediaInput × Window)} (h : Overlays b layers b') (hsource : b.inputs = [source])
    (picture sound : Option Pad) : Overlaid (b'.finish picture sound) layers := by
  intro i layer hlayer
  obtain ⟨n, hputs, hgated⟩ := h.gated i layer hlayer
  rw [hsource, List.length_singleton, Nat.add_comm] at hputs
  refine ⟨?_, n, hputs, hgated⟩
  change b'.inputs[i + 1]? = _
  rw [h.inputs, hsource, List.singleton_append, List.getElem?_cons_succ, List.getElem?_map, hlayer]
  rfl

theorem overlaid_of_build {clip : Clip} {probe : Probe} {subjects : List Region} {assets : Assets}
    {g : Graph} (h : build clip probe subjects assets = .ok g) :
    Overlaid g (timedLayers clip assets.stickerPaths) := by
  rw [build_eq] at h
  obtain ⟨s, hlayered, h⟩ := bind_eq_ok_iff.mp h
  obtain ⟨⟨b, out⟩, hdressed, h⟩ := bind_eq_ok_iff.mp h
  cases h
  obtain ⟨b₀, hsource, hoverlays⟩ := overlays_of_layered hlayered
  have hdraws := ((draws_color clip s.1 s.2).trans (draws_subtitles assets _ _)).trans
    (draws_watermark hdressed)
  obtain ⟨nodes, hnodes, -⟩ := hdraws.nodes
  exact (hoverlays.overlaid hsource (some s.2) none).mono ⟨_, hdraws.inputs.symm⟩
    (List.IsPrefix.subset ⟨nodes, hnodes.symm⟩)

end Video

/-! ## The times of a layer -/

/-- A node that is at work from the beginning of a window to its end, as the two are written. Where
they are written exactly, it is at work in the window and at its end, too, which is not in it. -/
structure Node.ShownIn (n : Node) (w : Window) : Prop where
  written : ∀ t, n.shownAt? t = some (decide (Window.writtenSeconds w.startMs ≤ t ∧
    t ≤ Window.writtenSeconds w.endMs))
  exact : w.endMs ≤ Window.lastExactMs → ∀ t,
    n.shownAt? t = some (decide (w.startMs ≤ 1000 * t ∧ 1000 * t ≤ w.endMs))
  halfOpen : w.endMs ≤ Window.lastExactMs → ∀ t,
    n.shownAt? t = some (decide (w.Contains t)) ↔ 1000 * t ≠ w.endMs

theorem Video.Gated.shownAt? {n : Node} {w : Window} (h : Gated n w)
    (hordered : w.startMs ≤ w.endMs) (hend : w.endMs ≤ Binary64.top64) (t : Rat) :
    n.shownAt? t = some (decide (Window.writtenSeconds w.startMs ≤ t ∧
      t ≤ Window.writtenSeconds w.endMs)) := by
  obtain ⟨f, hfilters, henable⟩ := h
  have hvalue := Filter.optionAt?_of_quoted henable (not_mem_betweenText (by decide) w) t
  rw [value?_betweenText (hordered.trans hend) hend] at hvalue
  rw [Node.shownAt?, hfilters]
  simp only [hvalue, Option.map_some]
  split <;> simp_all

theorem Video.Gated.shownIn {n : Node} {w : Window} (h : Gated n w) {durationMs : Nat}
    (hinside : w.Inside durationMs) (hduration : durationMs ≤ Binary64.top64) : n.ShownIn w := by
  have hordered := hinside.start_lt_end.le
  have hwritten := h.shownAt? hordered (hinside.end_le.trans hduration)
  have hexact (hlast : w.endMs ≤ Window.lastExactMs) (t : Rat) :
      n.shownAt? t = some (decide (w.startMs ≤ 1000 * t ∧ 1000 * t ≤ w.endMs)) := by
    rw [hwritten, Window.writtenSeconds_eq hlast, Window.writtenSeconds_eq (hordered.trans hlast)]
    simp only [div_le_iff₀' (by norm_num : (0 : Rat) < 1000),
      le_div_iff₀' (by norm_num : (0 : Rat) < 1000)]
  refine ⟨hwritten, hexact, fun hlast t => ?_⟩
  have hlt : (w.startMs : Rat) < w.endMs := by exact_mod_cast hinside.start_lt_end
  rw [hexact hlast, Option.some.injEq, decide_eq_decide, Window.Contains]
  constructor
  · intro hiff heq
    exact (hiff.mp ⟨by linarith, heq.le⟩).2.ne heq
  · exact fun hne => and_congr_right fun _ => ⟨fun hle => hle.lt_of_ne hne, le_of_lt⟩

/-! ## The layers of a program -/

namespace Clip

variable {e : Edit} {clip : Clip}

theorem durationMs_le_top64 (h : ofEdit e = .ok clip) : clip.durationMs ≤ Binary64.top64 := by
  obtain ⟨ordered, hmoved⟩ := moved_ofEdit h
  rw [hmoved.duration]
  exact Binary64.toNatUpTo_le _ _

/-- A clip of at most `2 ^ 50` milliseconds of the source has exact times, unless it is slowed down
to less than about an eighth. -/
theorem durationMs_le_lastExactMs (h : ofEdit e = .ok clip) (htrim : e.trimEndMs ≤ 2 ^ 50)
    (hspeed : 16 / 125 ≤ e.speed.toRat) : clip.durationMs ≤ Window.lastExactMs := by
  obtain ⟨ordered, hmoved⟩ := moved_ofEdit h
  have hlength : clampNat e.trimStartMs e.trimEndMs e.trimEndMs - e.trimStartMs ≤ 2 ^ 50 :=
    (Nat.sub_le _ _).trans ((clampNat_le _ _ _).trans htrim)
  have hbound : Window.lastExactMs ≤ Binary64.mantBound := by decide
  have hvalue := Binary64.has_ofNat (hlength.trans (by decide))
  have hcast : ((clampNat e.trimStartMs e.trimEndMs e.trimEndMs - e.trimStartMs : Nat) : Rat) ≤
      2 ^ 50 := by exact_mod_cast hlength
  have hmost : (Window.lastExactMs : Rat) = 2 ^ 50 / (16 / 125) := by norm_num [Window.lastExactMs]
  have hquotient : (Binary64.ofNat (clampNat e.trimStartMs e.trimEndMs e.trimEndMs -
      e.trimStartMs) / e.speed).NotBeyond Window.lastExactMs := by
    refine hvalue.div_notBeyond (fun _ => ⟨by linarith, ?_⟩) (Binary64.rounded_natCast hbound)
      (Nat.cast_nonneg _) (by rw [hmost]; norm_num)
    rw [div_le_iff₀ (by linarith), hmost]
    calc _ ≤ (2 : Rat) ^ 50 := hcast
      _ = 2 ^ 50 / (16 / 125) * (16 / 125) := by norm_num
      _ ≤ 2 ^ 50 / (16 / 125) * e.speed.toRat := by gcongr
  rw [hmoved.duration]
  exact (hquotient.round (by linarith) hbound).toNatUpTo_le _

/-- No layer is shown after the end of the clip. -/
theorem inside_of_mem_timedLayers (h : ofEdit e = .ok clip) {stickerPaths : List String}
    {layer : MediaInput × Window} (hlayer : layer ∈ Video.timedLayers clip stickerPaths) :
    layer.2.Inside clip.durationMs := by
  have hinTime := inTime_ofEdit h
  rw [Video.timedLayers, List.mem_append, List.mem_map, List.mem_map] at hlayer
  rcases hlayer with ⟨c, hc, rfl⟩ | ⟨⟨sticker, path⟩, himage, rfl⟩
  · exact hinTime.cutaways c hc
  · exact hinTime.stickers sticker (List.of_mem_zip himage).1

end Clip

namespace Program

variable {e : Edit} {clip : Clip} {probe : Probe} {subjects : List Region} {assets : Assets}
  {p : Program}

theorem overlaid_of_compile (h : compile clip probe subjects assets = .ok p) :
    Video.Overlaid p.graph (Video.timedLayers clip assets.stickerPaths) := by
  obtain ⟨video, audio, hvideo, -, hgraph⟩ := compile_eq_ok h
  rw [hgraph]
  exact (Video.overlaid_of_build hvideo).mono (List.prefix_append _ _)
    (List.subset_append_left _ _)

/-- In a program each layer is the input after the ones before it, and the node that puts it over
the picture is shown in its window. -/
theorem shownIn_of_compile (hclip : Clip.ofEdit e = .ok clip)
    (h : compile clip probe subjects assets = .ok p) {i : Nat} {media : MediaInput} {w : Window}
    (hlayer : (Video.timedLayers clip assets.stickerPaths)[i]? = some (media, w)) :
    p.graph.inputs[i + 1]? = some media ∧
      ∃ n : Node, n.PutsOver p.graph.nodes (i + 1) ∧ n.ShownIn w := by
  obtain ⟨hmedia, n, hputs, hgated⟩ := overlaid_of_compile h i _ hlayer
  exact ⟨hmedia, n, hputs, hgated.shownIn
    (Clip.inside_of_mem_timedLayers hclip (List.mem_of_getElem? hlayer))
    (Clip.durationMs_le_top64 hclip)⟩

/-- With an image for each sticker, an accepted edit has a program. Exactly one of its nodes puts a
layer over the picture, from the beginning of its window to its end, both included, as they are
written; and they are written exactly, unless the edit is very slow or very long. -/
theorem shownIn_ofEdit (hclip : Clip.ofEdit e = .ok clip) (probe : Probe) (subjects : List Region)
    (assets : Assets) (hcount : assets.stickerPaths.length = clip.stickers.length) :
    (subjects.length < 2147483648 → ∃ p, compile clip probe subjects assets = .ok p) ∧
      (e.trimEndMs ≤ 2 ^ 50 → 16 / 125 ≤ e.speed.toRat →
        ∀ layer ∈ Video.timedLayers clip assets.stickerPaths,
          layer.2.endMs ≤ Window.lastExactMs) ∧
      ∀ p, compile clip probe subjects assets = .ok p → ∀ i media w,
        (Video.timedLayers clip assets.stickerPaths)[i]? = some (media, w) →
          p.graph.inputs[i + 1]? = some media ∧
            (∃ n : Node, n.PutsOver p.graph.nodes (i + 1)) ∧
            ∀ n : Node, n.PutsOver p.graph.nodes (i + 1) → n.ShownIn w := by
  refine ⟨fun hsubjects => ?_, fun htrim hspeed layer hlayer => ?_, fun p hp i media w hlayer => ?_⟩
  · obtain ⟨p, hp, -⟩ := exists_compiled hclip probe subjects hsubjects assets hcount
    exact ⟨p, hp⟩
  · exact (Clip.inside_of_mem_timedLayers hclip hlayer).end_le.trans
      (Clip.durationMs_le_lastExactMs hclip htrim hspeed)
  · obtain ⟨hmedia, n, hputs, hshown⟩ := shownIn_of_compile hclip hp hlayer
    have hlinked := (Graph.linked_of_check (check_of_compile hp)).1
    exact ⟨hmedia, ⟨n, hputs⟩, fun n' hputs' => hputs.unique hlinked hputs' ▸ hshown⟩

/-- Two stickers at double speed; the second one comes where the first one goes. -/
theorem shownIn_ofEdit_of_stickers :
    let e : Edit :=
      { sourcePath := "/media/talk.mp4", trimStartMs := 1000, trimEndMs := 9000,
        canvas := .portrait, speed := 2,
        stickers := [⟨.file "/media/star.png", 3000, 5000, ⟨0.1, 0.1, 0.2, 0.2⟩⟩,
          ⟨.file "/media/moon.png", 5000, 7000, ⟨0.5, 0.5, 0.2, 0.2⟩⟩] }
    let probe : Probe := ⟨1920, 1080, some 10000, true, true⟩
    let assets : Assets := { stickerPaths := ["/media/star.png", "/media/moon.png"] }
    ∃ clip p, Clip.ofEdit e = .ok clip ∧
      assets.stickerPaths.length = clip.stickers.length ∧
      Video.timedLayers clip assets.stickerPaths =
        [(.loopedImage "/media/star.png" 4000, ⟨1000, 2000⟩),
          (.loopedImage "/media/moon.png" 4000, ⟨2000, 3000⟩)] ∧
      compile clip probe [] assets = .ok p ∧
      (∃ n : Node, n.PutsOver p.graph.nodes 1 ∧ n.ShownIn ⟨1000, 2000⟩) ∧
      (∃ n : Node, n.PutsOver p.graph.nodes 2 ∧ n.ShownIn ⟨2000, 3000⟩) ∧
      e.trimEndMs ≤ 2 ^ 50 ∧ 16 / 125 ≤ e.speed.toRat ∧
      ∀ layer ∈ Video.timedLayers clip assets.stickerPaths,
        layer.2.endMs ≤ Window.lastExactMs := by
  intro e probe assets
  have hfacts : (Clip.ofEdit e).toOption.map (fun clip =>
      (clip.stickers.length, Video.timedLayers clip assets.stickerPaths)) =
      some (2, [(.loopedImage "/media/star.png" 4000, ⟨1000, 2000⟩),
        (.loopedImage "/media/moon.png" 4000, ⟨2000, 3000⟩)]) := by
    decide +kernel
  obtain ⟨clip, hclip, hfacts⟩ := Outcome.exists_of_map hfacts
  obtain ⟨hstickers, hlayers⟩ := Prod.mk.inj hfacts
  obtain ⟨hexists, hexact, hshown⟩ := shownIn_ofEdit hclip probe [] assets hstickers.symm
  obtain ⟨p, hp⟩ := hexists (by decide)
  have hspeed : 16 / 125 ≤ e.speed.toRat := by decide +kernel
  obtain ⟨-, ⟨n, hputs⟩, hfirst⟩ := hshown p hp 0 _ _ (by rw [hlayers]; rfl)
  obtain ⟨-, ⟨n', hputs'⟩, hsecond⟩ := hshown p hp 1 _ _ (by rw [hlayers]; rfl)
  exact ⟨clip, p, hclip, hstickers.symm, hlayers, hp, ⟨n, hputs, hfirst n hputs⟩,
    ⟨n', hputs', hsecond n' hputs'⟩, by decide, hspeed, hexact (by decide) hspeed⟩

/-- Where two stickers touch, both are shown, although the window of the first one is over. -/
theorem both_shown_of_touching :
    let e : Edit :=
      { sourcePath := "/media/talk.mp4", trimStartMs := 0, trimEndMs := 5000, canvas := .portrait,
        stickers := [⟨.file "/media/star.png", 1000, 2000, ⟨0.1, 0.1, 0.2, 0.2⟩⟩,
          ⟨.file "/media/moon.png", 2000, 3000, ⟨0.1, 0.1, 0.2, 0.2⟩⟩] }
    let probe : Probe := ⟨1920, 1080, some 10000, true, true⟩
    let assets : Assets := { stickerPaths := ["/media/star.png", "/media/moon.png"] }
    ∃ clip p, Clip.ofEdit e = .ok clip ∧ compile clip probe [] assets = .ok p ∧
      Video.timedLayers clip assets.stickerPaths =
        [(.loopedImage "/media/star.png" 5000, ⟨1000, 2000⟩),
          (.loopedImage "/media/moon.png" 5000, ⟨2000, 3000⟩)] ∧
      ∃ star moon : Node, star.PutsOver p.graph.nodes 1 ∧ moon.PutsOver p.graph.nodes 2 ∧
        star.shownAt? 2 = some true ∧ moon.shownAt? 2 = some true ∧
        ¬ Window.Contains ⟨1000, 2000⟩ 2 ∧ Window.Contains ⟨2000, 3000⟩ 2 := by
  intro e probe assets
  have hfacts : (Clip.ofEdit e).toOption.map (fun clip =>
      (clip.stickers.length, Video.timedLayers clip assets.stickerPaths)) =
      some (2, [(.loopedImage "/media/star.png" 5000, ⟨1000, 2000⟩),
        (.loopedImage "/media/moon.png" 5000, ⟨2000, 3000⟩)]) := by
    decide +kernel
  obtain ⟨clip, hclip, hfacts⟩ := Outcome.exists_of_map hfacts
  obtain ⟨hstickers, hlayers⟩ := Prod.mk.inj hfacts
  obtain ⟨p, hp, -⟩ := exists_compiled hclip probe [] (by decide) assets hstickers.symm
  obtain ⟨-, star, hputs, hstar⟩ := shownIn_of_compile hclip hp (i := 0) (by rw [hlayers]; rfl)
  obtain ⟨-, moon, hputs', hmoon⟩ := shownIn_of_compile hclip hp (i := 1) (by rw [hlayers]; rfl)
  refine ⟨clip, p, hclip, hp, hlayers, star, moon, hputs, hputs', ?_, ?_, by decide +kernel,
    by decide +kernel⟩
  · exact (hstar.exact (by decide) 2).trans (by decide +kernel)
  · exact (hmoon.exact (by decide) 2).trans (by decide +kernel)

end Program

end Montage
