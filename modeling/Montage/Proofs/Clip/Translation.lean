import Montage.Compile.Video
import Montage.Proofs.Edit.Geometry

/-! # The clip of an edit

What is known of a clip because it comes from an edit that was accepted. -/

namespace Montage

theorem Outcome.ofOption_eq_ok_iff {α : Type} {x : Option α} {a : α} :
    Outcome.ofOption x = .ok a ↔ x = some a := by
  cases x <;> simp [Outcome.ofOption]

theorem Outcome.ofExcept_eq_ok_iff {α : Type} {x : Except Fault α} {a : α} :
    Outcome.ofExcept x = .ok a ↔ x = .ok a := by
  cases x <;> simp [Outcome.ofExcept]

theorem Outcome.mapM_ofOption_eq_ok {α : Type} {xs : List (Option α)} {ys : List α}
    (h : xs.mapM Outcome.ofOption = .ok ys) : xs = ys.map some := by
  induction xs generalizing ys with
  | nil =>
      rw [List.mapM_nil] at h
      cases h
      rfl
  | cons x xs ih =>
      rw [List.mapM_cons, bind_eq_ok_iff] at h
      obtain ⟨y, hy, hrest⟩ := h
      obtain ⟨ys, htail, hys⟩ := bind_eq_ok_iff.mp hrest
      cases hys
      rw [ofOption_eq_ok_iff.mp hy, ih htail, List.map_cons]

/-- What is computed of an outcome is known of its value. -/
theorem Outcome.exists_of_map {ε α β : Type} {x : Except ε α} {f : α → β} {b : β}
    (h : x.toOption.map f = some b) : ∃ a, x = .ok a ∧ f a = b := by
  cases x with
  | error failure => cases h
  | ok a => exact ⟨a, rfl, Option.some.inj h⟩

/-- Each layer of the clip comes from a layer of the edit. -/
theorem exists_of_filterMap_eq {α β : Type} {xs : List α} {f : α → Option (Option β)}
    {ys : List β} (h : xs.filterMap f = ys.map some) {y : β} (hy : y ∈ ys) :
    ∃ x ∈ xs, f x = some (some y) := by
  have hmem : some y ∈ xs.filterMap f := h ▸ List.mem_map.mpr ⟨y, hy, rfl⟩
  exact List.mem_filterMap.mp hmem

namespace Clip

/-- An accepted edit has no problems, and its clip has a length. Its layers in the trimmed range
are the clip's layers. -/
theorem ofEdit_eq_ok {e : Edit} {clip : Clip} (h : ofEdit e = .ok clip) :
    e.problems = [] ∧ ∃ (ordered : e.trimStartMs ≤ e.trimEndMs) (cutaways : List ClipCutaway)
      (stickers : List ClipSticker),
      let t : Timeline := ⟨e.trimStartMs, e.trimEndMs, e.speed, ordered⟩
      t.duration ≠ 0 ∧ e.cutaways.filterMap (·.toClip? t) = cutaways.map some ∧
        e.stickers.filterMap (·.toClip? t) = stickers.map some ∧
        clip = ofLayers e t cutaways stickers := by
  rw [ofEdit] at h
  split at h
  case h_1 => cases h
  case h_2 hproblems =>
    refine ⟨hproblems, ?_⟩
    split at h
    case isFalse => cases h
    case isTrue ordered =>
      dsimp only at h
      split at h
      case isTrue => cases h
      case isFalse hduration =>
        obtain ⟨cutaways, hcutaways, h⟩ := bind_eq_ok_iff.mp h
        obtain ⟨stickers, hstickers, h⟩ := bind_eq_ok_iff.mp h
        cases h
        exact ⟨ordered, cutaways, stickers, hduration, Outcome.mapM_ofOption_eq_ok hcutaways,
          Outcome.mapM_ofOption_eq_ok hstickers, rfl⟩

/-- The source of the clip is the source of the edit, from the first trimmed instant on. -/
theorem sourceInput_ofEdit {e : Edit} {clip : Clip} (h : ofEdit e = .ok clip) :
    clip.sourceInput =
      .trimmed e.sourcePath e.trimStartMs (e.trimEndMs - e.trimStartMs) := by
  obtain ⟨-, ordered, cutaways, stickers, -, -, -, rfl⟩ := ofEdit_eq_ok h
  rfl

/-- A cutaway of a clip has pixels on each canvas. -/
theorem cutaway_toPixels? {e : Edit} {clip : Clip} (h : ofEdit e = .ok clip)
    {layer : ClipCutaway} (hlayer : layer ∈ clip.cutaways) (width height : Nat) :
    ∃ rect, layer.placement.toPixels? width height = some rect := by
  obtain ⟨-, ordered, cutaways, stickers, -, hcutaways, -, rfl⟩ := ofEdit_eq_ok h
  obtain ⟨c, -, hc⟩ := exists_of_filterMap_eq hcutaways hlayer
  obtain ⟨window, -, hc⟩ := Option.bind_eq_some_iff.mp hc
  obtain ⟨placement, hplacement, rfl⟩ := Option.map_eq_some_iff.mp (Option.some.inj hc)
  exact Placement.toPixels?_of_clamped? hplacement width height

/-- A sticker of a clip has pixels on each canvas. -/
theorem sticker_toPixels? {e : Edit} {clip : Clip} (h : ofEdit e = .ok clip)
    {layer : ClipSticker} (hlayer : layer ∈ clip.stickers) (width height : Nat) :
    ∃ rect, layer.placement.toPixels? width height = some rect := by
  obtain ⟨-, ordered, cutaways, stickers, -, -, hstickers, rfl⟩ := ofEdit_eq_ok h
  obtain ⟨s, -, hs⟩ := exists_of_filterMap_eq hstickers hlayer
  obtain ⟨window, -, hs⟩ := Option.bind_eq_some_iff.mp hs
  obtain ⟨placement, hplacement, rfl⟩ := Option.map_eq_some_iff.mp (Option.some.inj hs)
  exact Placement.toPixels?_of_clamped? hplacement width height

end Clip

end Montage
