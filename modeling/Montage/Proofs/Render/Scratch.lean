import Montage.DataUrl
import Montage.Proofs.Decimal.Digits
import Montage.Proofs.Host.Removal
import Montage.Scratch

/-! # Paths in a scratch directory

A scratch directory is made where nothing was. The paths that it hands out lead into it as long as
no link is made or changed, and so does its own path. -/

namespace Montage

namespace Scratch

/-! ## Names of scratch files -/

theorem toList_fileName (stem extension : String) (id : Nat) :
    (fileName stem extension id).toList =
      stem.toList ++ '-' :: (Decimal.padded 3 id ++ '.' :: extension.toList) := by
  simp [fileName, toString]

theorem onePart_fileName {stem extension : String} (hstem : '/' ∉ stem.toList)
    (hextension : '/' ∉ extension.toList) (id : Nat) :
    Path.OnePart (fileName stem extension id) := by
  have hlist := toList_fileName stem extension id
  have hne (other : String) (hother : '-' ∉ other.toList) :
      fileName stem extension id ≠ other := by
    rintro rfl
    exact hother (by simp [hlist])
  refine ⟨⟨hne _ (by decide), hne _ (by decide), hne _ (by decide)⟩, ?_⟩
  have hnumber : '/' ∉ Decimal.padded 3 id := Decimal.not_mem_padded (by decide) 3 id
  simp [hlist, hstem, hextension, hnumber]

/-- The stems and extensions of the files that are written into a scratch directory: images by their
type, and captions. -/
def names : List (String × String) :=
  [("sticker", "jpg"), ("sticker", "webp"), ("sticker", "gif"), ("sticker", "png"),
    ("captions", "ass")]

/-- The stem and the extension of a still picture, which the encoder is asked for. -/
def stillName : String × String := ("still", "jpg")

theorem slash_not_mem_of_mem_names {name : String × String} (h : name ∈ stillName :: names) :
    '/' ∉ name.1.toList ∧ '/' ∉ name.2.toList := by
  have hall : (stillName :: names).all fun name =>
      !name.1.toList.contains '/' && !name.2.toList.contains '/' := by decide
  simpa using List.all_eq_true.mp hall name h

theorem extensionOf_mem_names (subtype : List Char) :
    ("sticker", DataUrl.extensionOf subtype) ∈ names := by
  rw [DataUrl.extensionOf]
  split <;> decide

theorem mem_names_of_decode {url : String} {complain : Complaint} {image : List UInt8 × String}
    (h : DataUrl.decode url complain = .ok image) : ("sticker", image.2) ∈ names := by
  rw [DataUrl.decode] at h
  split at h
  case h_1 => cases h
  case h_2 =>
    split at h
    case h_1 => cases h
    case h_2 =>
      dsimp only at h
      split at h
      case h_1 => cases h
      case h_2 =>
        cases h
        exact extensionOf_mem_names _

/-- The path of a scratch directory is joined from that of the directory it is in. -/
theorem exists_rootIn_eq_join (t : FileTree) (parent suffix : String) :
    ∃ whole, Path.isAbsolute whole ∧
      rootIn t parent suffix = Path.join whole (nameStart ++ suffix) := by
  refine ⟨_, ?_, rfl⟩
  by_cases hparent : Path.isAbsolute parent
  · rwa [if_pos hparent]
  · rw [if_neg hparent]
    exact Path.isAbsolute_join ((Path.isAbsolute_append (by decide) _).trans (by decide)) hparent

theorem isAbsolute_rootIn (t : FileTree) (parent suffix : String) :
    Path.isAbsolute (rootIn t parent suffix) := by
  obtain ⟨whole, hwhole, hroot⟩ := exists_rootIn_eq_join t parent suffix
  rw [hroot]
  exact Path.isAbsolute_join hwhole (by simp [Path.isAbsolute, nameStart, String.toList_append])

theorem onePart_nameStart_append {suffix : String} (h : '/' ∉ suffix.toList) :
    Path.OnePart (nameStart ++ suffix) := by
  have hlist : (nameStart ++ suffix).toList = nameStart.toList ++ suffix.toList :=
    String.toList_append
  have hne (other : String) (hother : '-' ∉ other.toList) : nameStart ++ suffix ≠ other := by
    rintro rfl
    refine hother ?_
    rw [hlist]
    exact List.mem_append_left _ (by decide)
  refine ⟨⟨hne _ (by decide), hne _ (by decide), hne _ (by decide)⟩, ?_⟩
  rw [hlist, List.mem_append, not_or]
  exact ⟨by decide, h⟩

/-! ## Where scratch files are -/

/-- An open scratch directory with a path; all that was handed out is in there. -/
structure Rooted (root : String) (s : Scratch) : Prop where
  root_eq : s.root = root
  isOpen : s.isOpen
  registered : ∀ path ∈ s.registered, ∃ name, Path.OnePart name ∧ path = Path.join root name

theorem rooted_new (root : String) : Rooted root { root } := ⟨rfl, rfl, by simp⟩

theorem Rooted.allocate {root : String} {s : Scratch} (h : s.Rooted root)
    {name : String × String} (hname : name ∈ stillName :: names) :
    (s.allocate name.1 name.2).1.Rooted root ∧
      ∃ file, Path.OnePart file ∧ (s.allocate name.1 name.2).2 = Path.join root file := by
  obtain ⟨hstem, hextension⟩ := slash_not_mem_of_mem_names hname
  have hfile := onePart_fileName hstem hextension s.nextId
  have hpath : (s.allocate name.1 name.2).2 =
      Path.join root (fileName name.1 name.2 s.nextId) := by
    rw [← h.root_eq]
    rfl
  refine ⟨⟨h.root_eq, h.isOpen, fun path hmem => ?_⟩, _, hfile, hpath⟩
  rcases List.mem_append.mp hmem with hold | hnew
  · exact h.registered path hold
  · exact ⟨_, hfile, (List.mem_singleton.mp hnew).trans hpath⟩

/-- The path of a scratch directory leads to a location with no link in it. -/
structure Placed (t : FileTree) (place : Location) (root : String) : Prop where
  absolute : Path.isAbsolute root
  walk : t.walk false FileTree.linkLimit [] (Path.partsToName root) = .ok place
  unlinked : ∀ q, place <+: q → ∀ target, t.entry? q ≠ some (.link target)

namespace Placed

variable {t t' : FileTree} {place p q : Location} {root name : String} {bytes : List UInt8}

/-- A path in the scratch directory leads there as long as the links are the same. -/
theorem walk_join (h : Placed t place root) (ht : t.Aligned t') (hname : Path.OnePart name)
    {final : Bool}
    (hq : t'.walk final FileTree.linkLimit [] (Path.parts (Path.join root name)) = .ok q) :
    q = place ++ [name] := by
  obtain ⟨blanks, hblanks, hparts⟩ := Path.parts_join h.absolute hname
  rw [hparts] at hq
  have hunlinked {l : Location} (hl : place <+: l) (target : String) :
      t'.entry? l ≠ some (.link target) :=
    fun hlink => h.unlinked l hl target (ht.link l target hlink)
  exact FileTree.walk_into ht hname.toPlain (hunlinked (List.prefix_refl _))
    (hunlinked (List.prefix_append _ _)) hblanks h.walk hq

theorem locateFile_join (h : Placed t place root) (ht : t.Aligned t') (hname : Path.OnePart name)
    (hq : t'.locateFile (Path.join root name) = .ok q) : q = place ++ [name] := by
  rw [FileTree.locateFile, if_neg (Path.not_endsInSlash_join hname), FileTree.locate,
    FileTree.follow] at hq
  obtain ⟨-, -, hwalk⟩ := bind_eq_ok_iff.mp hq
  rw [FileTree.start, if_pos (Path.isAbsolute_join h.absolute
    (Path.not_isAbsolute_of_onePart hname))] at hwalk
  exact h.walk_join ht hname hwalk

theorem locateEntry_join (h : Placed t place root) (ht : t.Aligned t') (hname : Path.OnePart name)
    (hq : t'.locateEntry (Path.join root name) = .ok q) : q = place ++ [name] := by
  have hwalk := FileTree.walk_of_locateEntry
    (Path.isAbsolute_join h.absolute (Path.not_isAbsolute_of_onePart hname)) hq
  rw [Path.partsToName_join h.absolute hname] at hwalk
  exact h.walk_join ht hname hwalk

theorem locateEntry_root (h : Placed t place root) (ht : t.Aligned t')
    (hq : t'.locateEntry root = .ok q) : q = place :=
  FileTree.walk_same ht h.walk (FileTree.walk_of_locateEntry h.absolute hq)

/-- A file that is written into the scratch directory is written there. -/
theorem write_join (h : Placed t place root) (ht : t.Aligned t') (hname : Path.OnePart name)
    {made : FileTree} (hwrite : t'.write (Path.join root name) bytes = .ok made) :
    ∃ executable, t'.entry? (place ++ [name]) ≠ some .directory ∧
      (∀ target, t'.entry? (place ++ [name]) ≠ some (.link target)) ∧
        made = t'.put (place ++ [name]) (.file bytes executable) := by
  obtain ⟨q, executable, hq, hdirectory, hlink, rfl⟩ := FileTree.write_eq_ok hwrite
  obtain rfl := h.locateFile_join ht hname hq
  exact ⟨executable, hdirectory, hlink, rfl⟩

end Placed

theorem new_eq_ok {t t' : FileTree} {parent suffix : String} {s : Scratch}
    (h : new t parent suffix = .ok (t', s)) :
    s = { root := rootIn t parent suffix } ∧ t.createDirectory s.root = .ok t' := by
  unfold new at h
  dsimp only at h
  split at h
  case h_1 made hmade =>
    obtain ⟨rfl, rfl⟩ := Prod.mk.inj (Except.ok.inj h)
    exact ⟨rfl, hmade⟩
  case h_2 => cases h

/-- A scratch directory is made where nothing was. -/
theorem placed_of_new {t t₁ t' : FileTree} (hwf : t.WellFormed) (ht : t.Extends t₁)
    {parent suffix : String} {s : Scratch} (h : new t₁ parent suffix = .ok (t', s)) :
    ∃ place, t₁.locateEntry s.root = .ok place ∧ Placed t₁ place s.root ∧
      t₁.entry? place = none ∧ t' = t₁.put place .directory := by
  obtain ⟨rfl, hmade⟩ := new_eq_ok h
  obtain ⟨place, hplace, hnone, rfl⟩ := FileTree.createDirectory_eq_ok hmade
  have habsolute := isAbsolute_rootIn t₁ parent suffix
  have hwalk := FileTree.walk_of_locateEntry habsolute hplace
  refine ⟨place, hplace, ⟨habsolute, hwalk, fun q hq target hlink => ?_⟩, hnone, rfl⟩
  exact hwf.not_prefix ht ((ht.link q target).mpr hlink) (by simp [hlink]) hnone hq

/-! ## The cleanup -/

section Cleanup

variable {t t' : FileTree} {place p : Location} {root : String} {s : Scratch}

theorem Rooted.cleanup_eq (hs : s.Rooted root) (t : FileTree) :
    (s.cleanup t).2 = (s.registered.foldl FileTree.withoutFile t).withoutDirectory root := by
  rw [cleanup, if_pos hs.isOpen, hs.root_eq]

theorem within_withoutFiles (paths : List String) (t : FileTree) :
    (paths.foldl FileTree.withoutFile t).Within t := by
  induction paths generalizing t with
  | nil => exact .refl t
  | cons path paths ih => exact (ih _).trans (t.within_withoutFile path)

theorem Rooted.within_cleanup (hs : s.Rooted root) (t : FileTree) : (s.cleanup t).2.Within t := by
  rw [hs.cleanup_eq]
  exact (FileTree.within_withoutDirectory _ root).trans (within_withoutFiles s.registered t)

/-- After the cleanup the path of the directory leads nowhere, nor does any that was handed out. -/
theorem Rooted.barren_cleanup (hs : s.Rooted root) {parent name : String}
    (hparent : Path.isAbsolute parent) (hname : Path.OnePart name)
    (hroot : root = Path.join parent name) (t : FileTree) :
    (s.cleanup t).2.Barren root ∧ ∀ path ∈ s.registered, ∀ q,
      (s.cleanup t).2.locateEntry path ≠ .ok q := by
  have hbarren : (s.cleanup t).2.Barren root := by
    rw [hs.cleanup_eq, hroot]
    exact FileTree.barren_withoutDirectory _ hparent hname
  have habsolute : Path.isAbsolute root := by
    rw [hroot]
    exact Path.isAbsolute_join hparent (Path.not_isAbsolute_of_onePart hname)
  refine ⟨hbarren, fun path hpath q => ?_⟩
  obtain ⟨file, hfile, rfl⟩ := hs.registered path hpath
  exact hbarren.locateEntry_join habsolute hfile q

/-- After the cleanup neither the path of the directory nor any that was handed out names anything,
unless a file has come in place of the directory. -/
theorem Rooted.vacant_cleanup (hs : s.Rooted root) {parent name : String}
    (hparent : Path.isAbsolute parent) (hname : Path.OnePart name)
    (hroot : root = Path.join parent name)
    (hfile : ∀ q, t.locateEntry root = .ok q → t.NoFile q) :
    ∀ path ∈ root :: s.registered, (s.cleanup t).2.Vacant path := by
  obtain ⟨hbarren, hnowhere⟩ := hs.barren_cleanup hparent hname hroot t
  intro path hpath
  rcases List.mem_cons.mp hpath with rfl | hpath
  · rw [hs.cleanup_eq, hroot]
    rw [hroot] at hfile
    refine FileTree.vacant_withoutDirectory _ hparent hname fun q hq => ?_
    exact (hfile q (FileTree.locateEntry_of_withoutFiles hq)).within (within_withoutFiles _ t)
  · have habsolute : Path.isAbsolute root := by
      rw [hroot]
      exact Path.isAbsolute_join hparent (Path.not_isAbsolute_of_onePart hname)
    obtain ⟨file, hfile, rfl⟩ := hs.registered path hpath
    exact FileTree.vacant_join habsolute hfile fun q hq => absurd hq (hnowhere _ hpath q)

namespace Placed

variable (h : Placed t place root) (hs : s.Rooted root)

include h hs

/-- What the removal of the registered files keeps, if it is kept by each removal of a file in the
directory. -/
theorem withoutFiles_keeps {I : FileTree → Prop}
    (hstep : ∀ (t' : FileTree) (name : String), t.Aligned t' → I t' →
      t'.entry? (place ++ [name]) ≠ some .directory → I (t'.drop (place ++ [name])))
    (ht : t.Aligned t') (hI : I t') :
    t.Aligned (s.registered.foldl FileTree.withoutFile t') ∧
      I (s.registered.foldl FileTree.withoutFile t') := by
  have hfiles (paths : List String) (hpaths : ∀ path ∈ paths, path ∈ s.registered) :
      ∀ now : FileTree, t.Aligned now → I now →
        t.Aligned (paths.foldl FileTree.withoutFile now) ∧
          I (paths.foldl FileTree.withoutFile now) := by
    induction paths with
    | nil => exact fun now hnow hkept => ⟨hnow, hkept⟩
    | cons path paths ih =>
        obtain ⟨hpath, hrest⟩ := List.forall_mem_cons.mp hpaths
        obtain ⟨name, hname, rfl⟩ := hs.registered path hpath
        intro now hnow hkept
        refine ih hrest _ (hnow.within (now.within_withoutFile _)) ?_
        rcases now.withoutFile_cases (Path.join root name) with hsame | ⟨q, hq, hfile, hdrop⟩
        · rwa [hsame]
        · obtain rfl := h.locateEntry_join hnow hname hq
          rw [hdrop]
          exact hstep now name hnow hkept hfile
  exact hfiles s.registered (fun _ => id) t' ht hI

/-- The cleanup leaves alone what is outside the scratch directory. -/
theorem entry?_cleanup (ht : t.Aligned t') (hp : ¬ place <+: p) :
    FileTree.entry? (s.cleanup t').2 p = t'.entry? p := by
  have hother (name : String) : p ≠ place ++ [name] := by
    rintro rfl
    exact hp (List.prefix_append _ _)
  obtain ⟨haligned, hsame⟩ := h.withoutFiles_keeps hs (I := fun now => now.entry? p = t'.entry? p)
    (fun now name _ hnow _ => (FileTree.entry?_drop_of_ne (hother name)).trans hnow) ht rfl
  rw [hs.cleanup_eq]
  refine (FileTree.entry?_withoutDirectory fun q hq => ?_).trans hsame
  rwa [h.locateEntry_root haligned hq]

/-- Nothing is left of the scratch directory if its path still leads there. -/
theorem entry?_cleanup_of_below (ht : t.Aligned t') (hroot : t'.locateEntry root = .ok place)
    (hdirectory : t'.entry? place = some .directory) (hplace : place ≠ []) (hp : place <+: p) :
    FileTree.entry? (s.cleanup t').2 p = none := by
  have hstep (now : FileTree) (name : String) (hnow : t.Aligned now)
      (hkept : now.locateEntry root = .ok place ∧ now.entry? place = some .directory)
      (hfile : now.entry? (place ++ [name]) ≠ some .directory) :
      (now.drop (place ++ [name])).locateEntry root = .ok place ∧
        FileTree.entry? (now.drop (place ++ [name])) place = some .directory := by
    have hleads : ¬ now.LeadsOn (place ++ [name]) := by
      rintro (hentry | ⟨target, hentry⟩)
      · exact hfile hentry
      · exact h.unlinked _ (List.prefix_append _ _) target (hnow.link _ target hentry)
    refine ⟨FileTree.locateEntry_drop hleads hkept.1, ?_⟩
    rw [FileTree.entry?_drop_of_ne (by simp)]
    exact hkept.2
  obtain ⟨-, hleads, hthere⟩ := h.withoutFiles_keeps hs hstep ht ⟨hroot, hdirectory⟩
  rw [hs.cleanup_eq]
  exact FileTree.entry?_withoutDirectory_of_below hleads hthere hplace hp

end Placed

end Cleanup

end Scratch

end Montage
