import Montage.Proofs.Host.FileTree

/-! # What stays there

A tree retains an earlier one if directories and links are the same and nothing has vanished. What a
path led to is then still there, and where a file could be written it can be written still. -/

namespace Montage.FileTree

variable {t t' t'' : FileTree} {p q : Location} {path : String} {bytes : List UInt8}

/-- A later tree has all that the earlier one had; only files may have changed or come up. -/
structure Retains (t t' : FileTree) : Prop extends t.Extends t' where
  bytewise : t'.bytewise = t.bytewise
  entry : ∀ p, t.entry? p ≠ none → t'.entry? p ≠ none
  /-- No directory has come up. -/
  old : ∀ p, t'.entry? p = some .directory → t.entry? p = some .directory

theorem Retains.refl (t : FileTree) : t.Retains t := ⟨.refl t, rfl, fun _ => id, fun _ => id⟩

theorem Retains.trans (h : t.Retains t') (h' : t'.Retains t'') : t.Retains t'' where
  toExtends := h.toExtends.trans h'.toExtends
  bytewise := h'.bytewise.trans h.bytewise
  entry p hp := h'.entry p (h.entry p hp)
  old p hp := h.old p (h'.old p hp)

/-- A file may be written where there is no directory and no link. -/
theorem Retains.put_file (hdirectory : t.entry? q ≠ some .directory)
    (hlink : ∀ target, t.entry? q ≠ some (.link target)) (bytes : List UInt8)
    (executable : Bool) : t.Retains (t.put q (.file bytes executable)) where
  toExtends := .put_file hdirectory hlink bytes executable
  bytewise := rfl
  entry p hp := by
    by_cases hpq : p = q
    · subst hpq
      simp [entry?_put_self (ne_root_of_not_directory hdirectory)]
    · rwa [entry?_put_of_ne hpq]
  old p hp := by
    by_cases hpq : p = q
    · subst hpq
      simp [entry?_put_self (ne_root_of_not_directory hdirectory)] at hp
    · rwa [entry?_put_of_ne hpq] at hp

/-! ## Paths lead where they led -/

namespace Retains

theorem walkWith {final : Bool} {beyond beyond' : Location → List String → Except OsError Location}
    (h : t.Retains t')
    (hbeyond : ∀ here parts q, beyond here parts = .ok q → beyond' here parts = .ok q)
    {here : Location} {parts : List String}
    (hq : t.walkWith final beyond here parts = .ok q) :
    t'.walkWith final beyond' here parts = .ok q := by
  induction parts generalizing here with
  | nil =>
      rw [FileTree.walkWith] at hq ⊢
      split at hq
      case h_1 target hlink =>
        rw [(h.link here target).mp hlink]
        dsimp only
        cases final with
        | true => exact hbeyond _ _ _ hq
        | false => exact hq
      case h_2 hlink =>
        split
        case h_1 target hlater => exact absurd ((h.link here target).mpr hlater) (hlink target)
        case h_2 => exact hq
  | cons part rest ih =>
      rw [walkWith_cons_eq_ok] at hq ⊢
      rcases hq with ⟨hentry, hsize, hrest⟩ | ⟨target, hentry, hrest⟩
      · rw [sizeOf, ← h.bytewise] at hsize
        exact .inl ⟨h.directory here hentry, hsize, ih hrest⟩
      · exact .inr ⟨target, (h.link here target).mp hentry, hbeyond _ _ _ hrest⟩

theorem walk {final : Bool} (h : t.Retains t') {links : Nat} {here : Location}
    {parts : List String} (hq : t.walk final links here parts = .ok q) :
    t'.walk final links here parts = .ok q := by
  induction links generalizing here parts q with
  | zero => exact h.walkWith (fun _ _ _ hfail => by cases hfail) hq
  | succ links ih => exact h.walkWith (fun _ _ _ => ih) hq

theorem follow {final : Bool} (h : t.Retains t') {parts : List String}
    (hq : t.follow final path parts = .ok q) : t'.follow final path parts = .ok q := by
  have hsame : t'.checkPath path = t.checkPath path := by
    rw [checkPath, checkPath, sizeOf, sizeOf, h.bytewise]
  obtain ⟨checked, hpath, hwalk⟩ := bind_eq_ok_iff.mp hq
  refine bind_eq_ok_iff.mpr ⟨checked, hsame.trans hpath, ?_⟩
  rw [h.current]
  exact h.walk hwalk

end Retains

theorem locateFile_eq_ok_iff :
    t.locateFile path = .ok q ↔ ¬ Path.endsInSlash path ∧ t.locate path = .ok q := by
  rw [locateFile]
  split
  case isTrue hslash =>
    refine ⟨fun h => ?_, fun h => absurd hslash h.1⟩
    obtain ⟨-, -, hthrow⟩ := bind_eq_ok_iff.mp h
    cases hthrow
  case isFalse hslash => exact ⟨fun h => ⟨hslash, h⟩, fun h => h.2⟩

/-! ## What paths lead to -/

theorem has_iff : t.has path ↔ ∃ q, t.locate path = .ok q ∧ t.entry? q ≠ none := by
  rw [has, find]
  cases hlocate : t.locate path with
  | error e => simp [bind, Except.bind, Except.isOk, Except.toBool]
  | ok q =>
      cases hentry : t.entry? q <;>
        simp [bind, Except.bind, hentry, Except.isOk, Except.toBool, pure, Except.pure, throw,
          throwThe, MonadExceptOf.throw]

theorem Retains.has (h : t.Retains t') (hpath : t.has path) : t'.has path := by
  obtain ⟨q, hq, hentry⟩ := has_iff.mp hpath
  exact has_iff.mpr ⟨q, h.follow hq, h.entry q hentry⟩

/-- A file can be written where there is no directory and no link. -/
theorem exists_write (hq : t.locateFile path = .ok q) (hdirectory : t.entry? q ≠ some .directory)
    (hlink : ∀ target, t.entry? q ≠ some (.link target)) (bytes : List UInt8) :
    ∃ t', t.write path bytes = .ok t' := by
  rw [write, hq]
  cases hentry : t.entry? q with
  | none => exact ⟨_, by simp [bind, Except.bind, hentry]; rfl⟩
  | some entry =>
      cases entry with
      | directory => exact absurd hentry hdirectory
      | file old executable => exact ⟨_, by simp [bind, Except.bind, hentry]; rfl⟩
      | link target => exact absurd hentry (hlink target)

/-- A file can be written at a path. -/
def Takes (t : FileTree) (path : String) : Prop := (t.write path []).isOk

instance decidableTakes (t : FileTree) (path : String) : Decidable (t.Takes path) :=
  inferInstanceAs (Decidable ((t.write path []).isOk = true))

theorem takes_iff : t.Takes path ↔ ∃ q, t.locateFile path = .ok q ∧
    t.entry? q ≠ some .directory ∧ ∀ target, t.entry? q ≠ some (.link target) := by
  constructor
  · intro h
    cases hwrite : t.write path [] with
    | error e =>
        rw [Takes, hwrite] at h
        cases h
    | ok t' =>
        obtain ⟨q, -, hq, hdirectory, hlink, -⟩ := write_eq_ok hwrite
        exact ⟨q, hq, hdirectory, hlink⟩
  · rintro ⟨q, hq, hdirectory, hlink⟩
    obtain ⟨t', hwrite⟩ := exists_write hq hdirectory hlink []
    rw [Takes, hwrite]
    rfl

/-- What can be written does not depend on the bytes. -/
theorem Takes.write (h : t.Takes path) (bytes : List UInt8) :
    ∃ t', t.write path bytes = .ok t' := by
  obtain ⟨q, hq, hdirectory, hlink⟩ := takes_iff.mp h
  exact exists_write hq hdirectory hlink bytes

theorem Retains.takes (h : t.Retains t') (hpath : t.Takes path) : t'.Takes path := by
  obtain ⟨q, hq, hdirectory, hlink⟩ := takes_iff.mp hpath
  obtain ⟨hslash, hq⟩ := locateFile_eq_ok_iff.mp hq
  refine takes_iff.mpr ⟨q, locateFile_eq_ok_iff.mpr ⟨hslash, h.follow hq⟩, fun hlater => ?_,
    fun target hlater => ?_⟩
  · exact hdirectory (h.old q hlater)
  · exact hlink target ((h.link q target).mpr hlater)

/-! ## Writing -/

theorem retains_of_write (h : t.write path bytes = .ok t') : t.Retains t' := by
  obtain ⟨q, executable, -, hdirectory, hlink, rfl⟩ := write_eq_ok h
  exact .put_file hdirectory hlink bytes executable

/-- What was written is there. -/
theorem has_of_write (h : t.write path bytes = .ok t') : t'.has path := by
  have hretains := retains_of_write h
  obtain ⟨q, executable, hq, hdirectory, -, rfl⟩ := write_eq_ok h
  have hroot := ne_root_of_not_directory hdirectory
  have hlocate := (locateFile_eq_ok_iff.mp hq).2
  exact has_iff.mpr ⟨q, hretains.follow hlocate, by simp [entry?_put_self hroot]⟩

theorem read_of_write (h : t.write path bytes = .ok t') : t'.read path = .ok bytes := by
  have hretains := retains_of_write h
  obtain ⟨q, executable, hq, hdirectory, -, rfl⟩ := write_eq_ok h
  have hroot := ne_root_of_not_directory hdirectory
  have hlocate := hretains.follow (locateFile_eq_ok_iff.mp hq).2
  refine bind_eq_ok_iff.mpr ⟨.file bytes executable, bind_eq_ok_iff.mpr ⟨q, hlocate, ?_⟩, rfl⟩
  rw [entry?_put_self hroot]
  rfl

/-! ## Files that come up -/

/-- No file is at a location. -/
def NoFile (t : FileTree) (p : Location) : Prop :=
  ∀ bytes executable, t.entry? p ≠ some (.file bytes executable)

instance decidableNoFile (t : FileTree) (p : Location) : Decidable (t.NoFile p) :=
  match h : t.entry? p with
  | some (.file bytes executable) => isFalse fun hnone => hnone bytes executable h
  | some .directory => isTrue (by simp [NoFile, h])
  | some (.link _) => isTrue (by simp [NoFile, h])
  | none => isTrue (by simp [NoFile, h])

theorem NoFile.within (h : t.NoFile p) (hw : t'.Within t) : t'.NoFile p :=
  fun bytes executable hp => h bytes executable (hw p _ hp)

theorem NoFile.put_of_ne (h : t.NoFile p) (hne : p ≠ q) (entry : Entry) :
    (t.put q entry).NoFile p := by
  intro bytes executable hp
  rw [entry?_put_of_ne hne] at hp
  exact h bytes executable hp

theorem NoFile.put_directory (h : t.NoFile p) (hq : t.entry? q = none) :
    (t.put q .directory).NoFile p := by
  by_cases hpq : p = q
  · subst hpq
    intro bytes executable hp
    rw [entry?_put_self (ne_root_of_not_directory (t := t) (by simp [hq]))] at hp
    cases hp
  · exact h.put_of_ne hpq .directory

/-- Making directories makes no files. -/
theorem NoFile.createDirectories (h : t.NoFile p) (path : String) :
    (t.createDirectories path).1.NoFile p :=
  createDirectories_keeps (R := fun t t' => t.NoFile p → t'.NoFile p) (fun _ => id)
    (fun _ _ _ h h' => h' ∘ h) (fun _ _ hq h => h.put_directory hq) t path h

end Montage.FileTree
