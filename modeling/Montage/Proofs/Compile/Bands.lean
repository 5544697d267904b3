import Montage.Proofs.Compile.Counts
import Montage.Proofs.Edit.Cropping
import Montage.Proofs.Lists

/-! # Bands that fill the canvas

Several subjects are shown one above the other. The bands have even heights, and what rounding to
even numbers leaves over goes into the last one, so that together they are as high as the canvas.
The sizes are read off the texts of the filters, where the encoder finds them. -/

namespace Montage

open Montage.Filter (withArgs)
open List (Forall₂)

/-! ## Numbers in the text of a filter -/

namespace Filter

/-- The whole numbers that an argument lists. -/
def numbers? (f : Filter) : Option (List Nat) := do
  let args ← f.args
  (args.toList.splitOn ':').mapM Decimal.natOfText?

theorem numbers?_eq {f : Filter} {args : String} {numbers : List Nat} (hargs : f.args = some args)
    (htext : args.toList = [':'].intercalate (numbers.map fun n => (toString n).toList))
    (hne : numbers ≠ []) : f.numbers? = some numbers := by
  have hsplit : args.toList.splitOn ':' = numbers.map fun n => (toString n).toList := by
    rw [htext, List.splitOn_intercalate]
    · intro text htext
      obtain ⟨n, -, rfl⟩ := List.mem_map.mp htext
      exact Decimal.not_mem_toString (by decide) n
    · simpa using hne
  rw [numbers?, hargs, Option.bind_eq_bind, Option.bind_some, hsplit, mapM_eq_some_iff,
    List.forall₂_map_left_iff, List.forall₂_same]
  exact fun n _ => Decimal.natOfText?_toString n

end Filter

/-- The numbers of the first filter of a name. -/
def Node.numbersOf? (n : Node) (name : String) : Option (List Nat) :=
  (n.filters.find? fun f => f.name == name).bind Filter.numbers?

namespace Video

theorem numbersOf?_cropScale {n : Node} {window : CropWindow} {width height : Nat}
    (h : n.filters = cropScale window width height) :
    n.numbersOf? "crop" = some [window.width, window.height, window.x, window.y] ∧
      n.numbersOf? "scale" = some [width, height] := by
  have hcolon : (toString ":").toList = [':'] := by decide
  have hcrop : (withArgs "crop" s!"{window.width}:{window.height}:{window.x}:{window.y}").numbers? =
      some [window.width, window.height, window.x, window.y] :=
    Filter.numbers?_eq rfl (by simp [List.intercalate, hcolon]) (List.cons_ne_nil _ _)
  have hscale : (withArgs "scale" s!"{width}:{height}").numbers? = some [width, height] :=
    Filter.numbers?_eq rfl (by simp [List.intercalate, hcolon]) (List.cons_ne_nil _ _)
  constructor
  · rw [Node.numbersOf?, h, cropScale, List.find?_cons_of_pos (by simp), Option.bind_some, hcrop]
  · rw [Node.numbersOf?, h, cropScale, List.find?_cons_of_neg (by simp),
      List.find?_cons_of_pos (by simp), Option.bind_some, hscale]

/-! ## Heights -/

/-- Even heights, for a number of bands that together are as high as a whole. -/
structure Fills (height count : Nat) (heights : List Nat) : Prop where
  length : heights.length = count
  even : ∀ h ∈ heights, Even h
  two_le : ∀ h ∈ heights, 2 ≤ h
  sum : heights.sum = height

theorem bandHeights_fills {height n : Nat} (heven : Even height) (hn : 1 ≤ n)
    (hfew : n ≤ height / 2) : Fills height n (bandHeights height n) := by
  -- an equal share has two pixels or more
  have hshare : 2 ≤ height / n := by
    rw [Nat.le_div_iff_mul_le hn]
    omega
  obtain ⟨band, hband⟩ : ∃ band, max (evenFloor (height / n)) 2 = band := ⟨_, rfl⟩
  have hband_even : Even band := hband ▸ even_max_evenFloor _
  have hband_low : 2 ≤ band := hband ▸ le_max_right _ _
  have hfits : band * n ≤ height := by
    calc band * n ≤ height / n * n :=
          Nat.mul_le_mul_right n (hband ▸ max_evenFloor_le le_rfl hshare)
      _ ≤ height := Nat.div_mul_le_self height n
  obtain ⟨m, rfl⟩ := Nat.exists_eq_add_of_le' hn
  have hlast : band ≤ height - band * m := by
    rw [Nat.mul_add_one] at hfits
    omega
  have heq : bandHeights height (m + 1) = List.replicate m band ++ [height - band * m] := by
    simp only [bandHeights, Nat.max_eq_left hn, hband, Nat.add_sub_cancel,
      Nat.max_eq_left (hband_low.trans hlast)]
  have hall {P : Nat → Prop} (hbandP : P band) (hlastP : P (height - band * m)) :
      ∀ h ∈ bandHeights height (m + 1), P h := by
    rw [heq, List.forall_mem_append, List.forall_mem_singleton]
    exact ⟨fun h hh => List.eq_of_mem_replicate hh ▸ hbandP, hlastP⟩
  refine ⟨by simp [heq], hall hband_even ?_, hall hband_low (hband_low.trans hlast), ?_⟩
  · exact (Nat.even_sub (by omega)).mpr (iff_of_true heven (hband_even.mul_right m))
  · rw [heq, List.sum_append, List.sum_replicate_nat, List.sum_singleton, Nat.mul_comm]
    omega

/-! ## The framing -/

/-- A window that keeps a subject in view: it is inside the source, and across it reaches over the
subject's centre if that is inside the source. -/
structure KeepsInView (probe : Probe) (subject : Region) (window : CropWindow) : Prop where
  inSource : window.InSource (max probe.width 2) (max probe.height 2)
  reaches : ∀ place, subject.centerX.Has place → 0 ≤ place → place ≤ (max probe.width 2 : Nat) →
    CropWindow.Reaches window.x window.width (max probe.width 2) place

theorem keepsInView_of_subjectWindow? {probe : Probe} {subject : Region} {width height : Nat}
    {window : CropWindow} (hwindow : subjectWindow? probe subject width height = some window)
    (hwidth : probe.width ≤ Binary64.top32) (hheight : probe.height ≤ Binary64.top32) :
    KeepsInView probe subject window := by
  obtain ⟨w, hlargest, hinside, -⟩ :=
    CropWindow.largest?_spec hwidth hheight (.ofNat width / .ofNat height)
  obtain ⟨w', hcentered, hmoved⟩ :=
    CropWindow.centeredOn?_spec hinside hwidth hheight (subject.centerX, w.center.2)
  have heq : subjectWindow? probe subject width height = some w' := by
    rw [subjectWindow?, hlargest]
    exact hcentered
  obtain rfl := Option.some.inj (hwindow.symm.trans heq)
  exact ⟨hmoved.inSource, hmoved.across⟩

/-- A node that shows a subject in a band: it reads a branch, and the texts of its filters say which
window of the source it cuts out and what size it scales the window to. The window keeps the subject
in view, with a source whose sides can be counted with 32 bits. -/
def ShowsBand (probe : Probe) (width : Nat) (part : Pad × Region × Nat) (n : Node) : Prop :=
  ∃ window band, subjectWindow? probe part.2.1 width part.2.2 = some window ∧
    (probe.width ≤ Binary64.top32 → probe.height ≤ Binary64.top32 →
      KeepsInView probe part.2.1 window) ∧
    n.Makes .frame [part.1] band ∧
    n.numbersOf? "crop" = some [window.width, window.height, window.x, window.y] ∧
    n.numbersOf? "scale" = some [width, part.2.2]

/-- A node of one filter, which says how many streams it takes and gives. -/
def OneFilter (n : Node) (name : String) (inputs outputs : Nat) : Prop :=
  ∃ f, n.filters = [f] ∧ f.name = name ∧ f.streams? = some (inputs, outputs)

/-- Nodes that show each subject in a band of its own and stack the bands on the canvas. -/
structure FillsCanvas (clip : Clip) (probe : Probe) (subjects : List Region) (source : Pad)
    (heights : List Nat) (split : Node) (bands : List Node) (stack : Node) (pad : Pad) : Prop where
  fills : Fills clip.canvas.height subjects.length heights
  copies : split.inputs = [source] ∧ split.outputs.length = subjects.length
  splits : OneFilter split "split" 1 subjects.length
  shows : Forall₂ (ShowsBand probe clip.canvas.width)
    (split.outputs.zip (subjects.zip heights)) bands
  reads : stack.Makes .frame (Node.declares bands) pad
  joins : OneFilter stack "vstack" subjects.length 1

theorem bands_isSome (probe : Probe) (width : Nat) (b : Builder)
    (parts : List (Pad × Region × Nat)) :
    ∃ b' pads, bands probe width b parts = some (b', pads) := by
  induction parts generalizing b with
  | nil => exact ⟨b, [], rfl⟩
  | cons part rest ih =>
      obtain ⟨branch, subject, height⟩ := part
      obtain ⟨window, hwindow⟩ := subjectWindow?_isSome probe subject width height
      obtain ⟨b', pads, hrest⟩ :=
        ih (b.node .video .frame [branch] (cropScale window width height)).1
      rw [bands, hwindow, Option.bind_eq_bind, Option.bind_some]
      dsimp only
      rw [hrest]
      exact ⟨b', _, rfl⟩

/-- There is a stack of bands whenever there are heights. -/
theorem frame_isSome {clip : Clip} (probe : Probe) {subjects : List Region} (source : Pad)
    (b : Builder) (hmany : clip.subjectFraming ∧ 1 < subjects.length) {heights : List Nat}
    (hheights : bandHeights? clip.canvas.height subjects.length = some heights) :
    ∃ b' pad, frame clip probe subjects b source = some (b', pad) := by
  let copies := b.fanOut .video .frame [source] [withArgs "split" (toString subjects.length)]
    subjects.length
  obtain ⟨b', pads, hbands⟩ := bands_isSome probe clip.canvas.width copies.1
    (copies.2.zip (subjects.zip heights))
  rw [frame]
  dsimp only
  rw [if_pos hmany, hheights, Option.bind_eq_bind, Option.bind_some]
  change ∃ b' pad, (bands probe clip.canvas.width copies.1 _).bind _ = some (b', pad)
  rw [hbands]
  exact ⟨_, _, rfl⟩

theorem Stacks.fillsCanvas {clip : Clip} {probe : Probe} {subjects : List Region} {source pad : Pad}
    {heights : List Nat} {split stack : Node} {bands : List Node}
    (h : Stacks clip probe subjects source heights split bands stack pad)
    (hfills : Fills clip.canvas.height subjects.length heights) :
    FillsCanvas clip probe subjects source heights split bands stack pad where
  fills := hfills
  copies := ⟨h.splits.2.1, h.branches⟩
  splits := ⟨_, h.splits.2.2, rfl, Filter.streams?_split (.inl rfl) _⟩
  shows := h.crops.imp fun part n hcrops => by
    obtain ⟨window, band, hwindow, hmakes, hfilters⟩ := hcrops
    exact ⟨window, band, hwindow, keepsInView_of_subjectWindow? hwindow, hmakes,
      numbersOf?_cropScale hfilters⟩
  reads := h.reads
  joins := ⟨_, h.joins, rfl, Filter.streams?_joined (.inl rfl) []
    (String.toList_append.trans (List.append_nil _).symm) (by simp)⟩

/-- Bands fill every even height, and the canvas of a clip is filled with one band for each of its
subjects, in their order. -/
theorem bands_fill :
    (∀ height n : Nat, height < heightLimit → Even height → 1 ≤ n → n ≤ height / 2 →
      ∃ heights, bandHeights? height n = some heights ∧ Fills height n heights) ∧
    ∀ (clip : Clip) (probe : Probe) (subjects : List Region) (b : Builder) (source : Pad),
      clip.subjectFraming → 2 ≤ subjects.length → subjects.length ≤ clip.canvas.height / 2 →
      ∃ b' pad, frame clip probe subjects b source = some (b', pad) ∧
        ∃ heights split bands stack, b'.nodes = b.nodes ++ (split :: bands ++ [stack]) ∧
          FillsCanvas clip probe subjects source heights split bands stack pad := by
  have hheights {height n : Nat} (hheight : height < heightLimit) (heven : Even height)
      (hn : 1 ≤ n) (hfew : n ≤ height / 2) :
      ∃ heights, bandHeights? height n = some heights ∧ Fills height n heights := by
    refine ⟨_, bandHeights?_eq_some hheight ?_, bandHeights_fills heven hn hfew⟩
    rw [heightLimit] at hheight
    omega
  refine ⟨fun height n => hheights, fun clip probe subjects b source hframing hmany hfew => ?_⟩
  have hcanvas : clip.canvas.height < heightLimit ∧ Even clip.canvas.height := by
    cases clip.canvas <;> decide
  obtain ⟨heights, hcounted, hfills⟩ :=
    hheights hcanvas.1 hcanvas.2 (one_le_two.trans hmany) hfew
  obtain ⟨b', pad, hframe⟩ := frame_isSome probe source b ⟨hframing, hmany⟩ hcounted
  obtain ⟨-, heights', split, bands, stack, hnodes, hstacks⟩ :=
    stacks_of_frame ⟨hframing, hmany⟩ hframe
  cases hcounted.symm.trans hstacks.counted
  exact ⟨b', pad, hframe, heights, split, bands, stack, hnodes, hstacks.fillsCanvas hfills⟩

/-- Seven bands on a canvas whose seventh part is not even, and a panel of three speakers on it. -/
theorem bands_fill_of_panel :
    let e : Edit :=
      { sourcePath := "/media/panel.mp4", trimStartMs := 0, trimEndMs := 9000, canvas := .tall,
        subjectFraming := true, subjectCount := 3 }
    let probe : Probe := ⟨1919, 1081, some 10000, true, true⟩
    let subjects : List Region :=
      [⟨320, 540, 0.9, .vision⟩, ⟨1700, 540, 0.8, .vision⟩, ⟨960, 540, 0.7, .vision⟩]
    (∃ heights, bandHeights? 1350 7 = some heights ∧ Fills 1350 7 heights) ∧
      ∃ clip, Clip.ofEdit e = .ok clip ∧
        ∃ b' pad, frame clip probe subjects (.new clip.sourceInput) (.source 0 .video) =
          some (b', pad) ∧
            ∃ heights split bands stack, b'.nodes = [] ++ (split :: bands ++ [stack]) ∧
              FillsCanvas clip probe subjects (.source 0 .video) heights split bands stack pad := by
  intro e probe subjects
  obtain ⟨hheights, hcanvas⟩ := bands_fill
  have hfacts : (Clip.ofEdit e).toOption.map
      (fun clip => (clip.subjectFraming, clip.canvas.height)) = some (true, 1350) := by
    decide +kernel
  obtain ⟨clip, hclip, hfacts⟩ := Outcome.exists_of_map hfacts
  obtain ⟨hframing, hheight⟩ := Prod.mk.inj hfacts
  refine ⟨hheights 1350 7 (by decide) (by decide) (by decide) (by decide), clip, hclip, ?_⟩
  exact hcanvas clip probe subjects _ _ hframing (by decide) (by rw [hheight]; decide)

example : bandHeights? 1350 7 = some [192, 192, 192, 192, 192, 192, 198] := by decide +kernel

end Video

end Montage
