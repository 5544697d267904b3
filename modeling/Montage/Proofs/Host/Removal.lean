import Montage.Proofs.Host.Paths
import Montage.Proofs.Host.Presence

/-! # What is left of a directory

Once a directory was removed its path names no directory and no link any more, whatever stood in its
way before. Then no path below leads anywhere. -/

namespace Montage.FileTree

variable {t t' : FileTree} {p q : Location} {path base name : String} {final : Bool}

/-! ## Paths with more parts -/

section Walking

variable {beyond beyond' : Location → List String → Except OsError Location}
  {links : Nat} {here : Location} {parts rest : List String}

/-- Where a path leads first, before links in the last place are followed and before the rest. -/
theorem walkWith_above
    (hbeyond : ∀ here parts q, beyond here (parts ++ rest) = .ok q →
      ∃ p, beyond' here parts = .ok p ∧ (t.LeadsOn p ∨ rest = [] ∧ q = p))
    (hq : t.walkWith final beyond here (parts ++ rest) = .ok q) :
    ∃ p, t.walkWith false beyond' here parts = .ok p ∧ (t.LeadsOn p ∨ rest = [] ∧ q = p) := by
  induction parts generalizing here with
  | nil =>
      refine ⟨here, walkWith_nil here, ?_⟩
      cases rest with
      | nil =>
          rw [List.append_nil, walkWith] at hq
          split at hq
          case h_1 target hentry => exact .inl (.inr ⟨target, hentry⟩)
          case h_2 => exact .inr ⟨rfl, (Except.ok.inj hq).symm⟩
      | cons part rest =>
          rcases walkWith_cons_eq_ok.mp hq with ⟨hentry, -, -⟩ | ⟨target, hentry, -⟩
          · exact .inl (.inl hentry)
          · exact .inl (.inr ⟨target, hentry⟩)
  | cons part parts ih =>
      rw [List.cons_append] at hq
      rcases walkWith_cons_eq_ok.mp hq with ⟨hentry, hsize, hq⟩ | ⟨target, hentry, hq⟩
      · obtain ⟨p, hwalk, hp⟩ := ih hq
        exact ⟨p, walkWith_cons_eq_ok.mpr (.inl ⟨hentry, hsize, hwalk⟩), hp⟩
      · rw [← List.cons_append, ← List.append_assoc] at hq
        obtain ⟨p, hwalk, hp⟩ := hbeyond _ _ _ hq
        exact ⟨p, walkWith_cons_eq_ok.mpr (.inr ⟨target, hentry, hwalk⟩), hp⟩

theorem walk_above (hq : t.walk final links here (parts ++ rest) = .ok q) :
    ∃ p, t.walk false links here parts = .ok p ∧ (t.LeadsOn p ∨ rest = [] ∧ q = p) := by
  induction links generalizing here parts q with
  | zero => exact walkWith_above (fun _ _ _ hfail => by cases hfail) hq
  | succ links ih => exact walkWith_above (fun _ _ _ => ih) hq

/-- A path that ends in a name is not that of the root. -/
theorem walkWith_ne_root (hname : Plain name)
    (hbeyond : ∀ here parts q, beyond here (parts ++ [name]) = .ok q → q ≠ [])
    (hq : t.walkWith false beyond here (parts ++ [name]) = .ok q) : q ≠ [] := by
  induction parts generalizing here with
  | nil =>
      rcases walkWith_cons_eq_ok.mp hq with ⟨-, -, hq⟩ | ⟨target, -, hq⟩
      · rw [step_plain hname, walkWith_nil] at hq
        cases hq
        exact List.append_ne_nil_of_right_ne_nil _ (List.cons_ne_nil _ _)
      · exact hbeyond _ _ _ hq
  | cons part parts ih =>
      rw [List.cons_append] at hq
      rcases walkWith_cons_eq_ok.mp hq with ⟨-, -, hq⟩ | ⟨target, -, hq⟩
      · exact ih hq
      · rw [← List.cons_append, ← List.append_assoc] at hq
        exact hbeyond _ _ _ hq

theorem walk_ne_root (hname : Plain name)
    (hq : t.walk false links here (parts ++ [name]) = .ok q) : q ≠ [] := by
  induction links generalizing here parts q with
  | zero => exact walkWith_ne_root hname (fun _ _ _ hfail => by cases hfail) hq
  | succ links ih => exact walkWith_ne_root hname (fun _ _ _ => ih) hq

/-- A path that leads on nowhere but through what is still there leads where it led. -/
theorem walkWith_kept (h : ∀ p, t.LeadsOn p → t'.entry? p = t.entry? p)
    (hsize : t'.bytewise = t.bytewise)
    (hbeyond : ∀ here parts q, beyond here parts = .ok q → beyond' here parts = .ok q)
    (hq : t.walkWith false beyond here parts = .ok q) :
    t'.walkWith false beyond' here parts = .ok q := by
  induction parts generalizing here with
  | nil => rwa [walkWith_nil] at hq ⊢
  | cons part rest ih =>
      rw [walkWith_cons_eq_ok] at hq ⊢
      rcases hq with ⟨hentry, hshort, hrest⟩ | ⟨target, hentry, hrest⟩
      · rw [sizeOf, ← hsize] at hshort
        exact .inl ⟨(h here (.inl hentry)).trans hentry, hshort, ih hrest⟩
      · exact .inr ⟨target, (h here (.inr ⟨target, hentry⟩)).trans hentry, hbeyond _ _ _ hrest⟩

theorem walk_kept (h : ∀ p, t.LeadsOn p → t'.entry? p = t.entry? p)
    (hsize : t'.bytewise = t.bytewise) (hq : t.walk false links here parts = .ok q) :
    t'.walk false links here parts = .ok q := by
  induction links generalizing here parts q with
  | zero => exact walkWith_kept h hsize (fun _ _ _ hfail => by cases hfail) hq
  | succ links ih => exact walkWith_kept h hsize (fun _ _ _ => ih) hq

end Walking

/-- A path that leads on nowhere but through what is still there names what it named. -/
theorem locateEntry_kept (h : ∀ p, t.LeadsOn p → t'.entry? p = t.entry? p)
    (hsize : t'.bytewise = t.bytewise) (hcurrent : t'.current = t.current)
    (hq : t.locateEntry path = .ok q) : t'.locateEntry path = .ok q := by
  obtain ⟨⟨⟩, hcheck, hwalk⟩ := bind_eq_ok_iff.mp hq
  refine bind_eq_ok_iff.mpr ⟨(), ?_, ?_⟩
  · rwa [checkPath, sizeOf, hsize]
  · rw [hcurrent]
    exact walk_kept h hsize hwalk

/-- The loss of a file turns no path elsewhere. -/
theorem locateEntry_drop (hp : ¬ t.LeadsOn p) (hq : t.locateEntry path = .ok q) :
    (t.drop p).locateEntry path = .ok q := by
  refine locateEntry_kept (fun l hl => entry?_drop_of_ne ?_) rfl rfl hq
  rintro rfl
  exact hp hl

/-- What is named once files were removed was named before. -/
theorem locateEntry_of_withoutFiles {paths : List String}
    (hq : (paths.foldl withoutFile t).locateEntry path = .ok q) : t.locateEntry path = .ok q := by
  induction paths generalizing t with
  | nil => exact hq
  | cons first paths ih =>
      have hrest := ih hq
      rcases t.withoutFile_cases first with hsame | ⟨l, -, -, hdrop⟩
      · rwa [hsame] at hrest
      · rw [hdrop] at hrest
        have hsame (p : Location) (hp : (t.drop l).LeadsOn p) :
            t.entry? p = entry? (t.drop l) p := by
          rcases hp with hentry | ⟨target, hentry⟩ <;> rw [hentry, within_drop t l _ _ hentry]
        exact locateEntry_kept hsame rfl rfl hrest

/-! ## Paths in a directory -/

theorem checkPath_eq_ok : t.checkPath path = .ok () ↔
    path ≠ "" ∧ '\x00' ∉ path.toList ∧ t.sizeOf path < longestPath := by
  rw [checkPath]
  split
  case isTrue hempty => simp [hempty]
  case isFalse hempty =>
    split
    case isTrue hnul => simp_all
    case isFalse hnul =>
      split
      case isTrue hsize => simp [Nat.not_lt_of_le hsize]
      case isFalse hsize => simp_all

theorem sizeOf_le_append (t : FileTree) (base rest : String) :
    t.sizeOf base ≤ t.sizeOf (base ++ rest) := by
  rw [sizeOf, sizeOf]
  split
  · rw [String.length_append]
    exact Nat.le_add_right _ _
  · rw [String.utf8ByteSize_append]
    exact Nat.le_add_right _ _

theorem checkPath_of_append {rest : String} (hbase : base ≠ "")
    (h : t.checkPath (base ++ rest) = .ok ()) : t.checkPath base = .ok () := by
  rw [checkPath_eq_ok] at h ⊢
  obtain ⟨-, hnul, hsize⟩ := h
  rw [String.toList_append, List.mem_append, not_or] at hnul
  exact ⟨hbase, hnul.1, (t.sizeOf_le_append base rest).trans_lt hsize⟩

/-- The path of a directory leads on if one in it leads somewhere. -/
theorem locateEntry_of_follow_join (hbase : Path.isAbsolute base) (hname : Path.OnePart name)
    (hq : t.follow final (Path.join base name) (Path.parts (Path.join base name)) = .ok q) :
    ∃ p, t.locateEntry base = .ok p ∧ t.LeadsOn p := by
  obtain ⟨rest, hjoin⟩ := Path.exists_append_eq_join hbase hname
  obtain ⟨⟨⟩, hcheck, hwalk⟩ := bind_eq_ok_iff.mp hq
  obtain ⟨blanks, -, hparts⟩ := Path.parts_join hbase hname
  rw [start, if_pos (Path.isAbsolute_join hbase (Path.not_isAbsolute_of_onePart hname)),
    hparts] at hwalk
  obtain ⟨p, hwalk, hp⟩ := walk_above hwalk
  rw [hjoin] at hcheck
  refine ⟨p, bind_eq_ok_iff.mpr ⟨(), checkPath_of_append ?_ hcheck, ?_⟩, ?_⟩
  · rintro rfl
    exact absurd hbase (by decide)
  · rwa [start, if_pos hbase]
  · simpa using hp

theorem locateEntry_join_eq (hbase : Path.isAbsolute base) (hname : Path.OnePart name) :
    t.locateEntry (Path.join base name) =
      t.follow false (Path.join base name) (Path.parts (Path.join base name)) := by
  rw [locateEntry, Path.partsToName_join hbase hname]

/-- A path that leads nowhere and names nothing. -/
structure Vacant (t : FileTree) (path : String) : Prop where
  leads : ¬ t.has path
  names : ∀ entry, t.findEntry path ≠ .ok entry

/-- It is enough that nothing is where the path ends. -/
theorem vacant_join (hbase : Path.isAbsolute base) (hname : Path.OnePart name)
    (h : ∀ p, t.locateEntry (Path.join base name) = .ok p → t.entry? p = none) :
    t.Vacant (Path.join base name) where
  leads hhas := by
    obtain ⟨q, hq, hentry⟩ := has_iff.mp hhas
    obtain ⟨⟨⟩, hcheck, hwalk⟩ := bind_eq_ok_iff.mp hq
    rw [← List.append_nil (Path.parts _)] at hwalk
    obtain ⟨p, hwalk, hp⟩ := walk_above hwalk
    have hnone := h p (by
      rw [locateEntry_join_eq hbase hname]
      exact bind_eq_ok_iff.mpr ⟨(), hcheck, hwalk⟩)
    rcases hp with hleads | ⟨-, rfl⟩
    · exact not_leadsOn_of_none hnone hleads
    · exact hentry hnone
  names entry hfound := by
    rw [findEntry, if_neg (Path.not_endsInSlash_join hname)] at hfound
    obtain ⟨p, hp, hfound⟩ := bind_eq_ok_iff.mp hfound
    rw [h p hp] at hfound
    cases hfound

/-! ## Removed directories -/

theorem Barren.locateEntry_join (h : t.Barren base) (hbase : Path.isAbsolute base)
    (hname : Path.OnePart name) (q : Location) : t.locateEntry (Path.join base name) ≠ .ok q := by
  intro hq
  rw [locateEntry_join_eq hbase hname] at hq
  obtain ⟨p, hp, hleads⟩ := locateEntry_of_follow_join hbase hname hq
  exact h p hp hleads

/-- After the removal of a directory nothing is where its path ends, unless nothing was removed. -/
theorem withoutDirectory_join_cases (t : FileTree) (hbase : Path.isAbsolute base)
    (hname : Path.OnePart name) :
    (t.withoutDirectory (Path.join base name) = t ∧ t.Barren (Path.join base name)) ∨
      ∀ p, (t.withoutDirectory (Path.join base name)).locateEntry (Path.join base name) = .ok p →
        entry? (t.withoutDirectory (Path.join base name)) p = none := by
  have habsolute := Path.isAbsolute_join hbase (Path.not_isAbsolute_of_onePart hname)
  refine (t.withoutDirectory_cases (Path.join base name)).imp_right ?_
  rintro ⟨q, hq, hremoved⟩ p hp
  have hwalk := walk_of_locateEntry habsolute hq
  have haligned := (t.within_withoutDirectory (Path.join base name)).aligned
  obtain rfl := walk_same haligned hwalk (walk_of_locateEntry habsolute hp)
  have hroot : p ≠ [] := by
    obtain ⟨blanks, -, hparts⟩ := Path.parts_join hbase hname
    rw [Path.partsToName_join hbase hname, hparts, ← List.append_assoc] at hwalk
    exact walk_ne_root hname.toPlain hwalk
  rcases hremoved with hremoved | hremoved <;> rw [hremoved]
  · exact entry?_dropAll_of_below (List.prefix_refl p) hroot
  · exact entry?_drop_self hroot

theorem barren_withoutDirectory (t : FileTree) (hbase : Path.isAbsolute base)
    (hname : Path.OnePart name) :
    (t.withoutDirectory (Path.join base name)).Barren (Path.join base name) := by
  rcases t.withoutDirectory_join_cases hbase hname with ⟨hsame, hbarren⟩ | hnone
  · rwa [hsame]
  · exact fun p hp => not_leadsOn_of_none (hnone p hp)

/-- No path is left of a directory. Only a file would not be removed. -/
theorem vacant_withoutDirectory (t : FileTree) (hbase : Path.isAbsolute base)
    (hname : Path.OnePart name)
    (h : ∀ p, t.locateEntry (Path.join base name) = .ok p → t.NoFile p) :
    (t.withoutDirectory (Path.join base name)).Vacant (Path.join base name) := by
  refine vacant_join hbase hname ?_
  rcases t.withoutDirectory_join_cases hbase hname with ⟨hsame, hbarren⟩ | hnone
  · rw [hsame]
    intro p hp
    cases hentry : t.entry? p with
    | none => rfl
    | some entry =>
        cases entry with
        | directory => exact absurd (.inl hentry) (hbarren p hp)
        | file bytes executable => exact absurd hentry (h p hp bytes executable)
        | link target => exact absurd (.inr ⟨target, hentry⟩) (hbarren p hp)
  · exact hnone

/-- A directory is removed with all that is below. -/
theorem entry?_withoutDirectory_of_below (hq : t.locateEntry path = .ok q)
    (hdirectory : t.entry? q = some .directory) (hroot : q ≠ []) (hp : q <+: p) :
    entry? (t.withoutDirectory path) p = none := by
  have hremoved : t.withoutDirectory path = t.dropAll q := by
    simp only [withoutDirectory, hq, hdirectory]
  rw [hremoved]
  refine entry?_dropAll_of_below hp ?_
  rintro rfl
  exact hroot (List.prefix_nil.mp hp)

end Montage.FileTree
