import Mathlib.Data.List.Induction
import Montage.Fault
import Montage.Host.FileTree

/-! # What changes of a file tree leave alone

A file tree is extended by a change that takes no directory or link away and makes no link. A path
leads to the same location before and after, if it leads to any; for that it is enough that links
are the same. -/

namespace Montage

/-- The key of a location tells it apart. -/
theorem Location.key_inj {p q : Location} : p.key = q.key ↔ p = q :=
  ⟨fun h => congrArg Prod.snd h, congrArg _⟩

namespace FileTree

variable {t t' t'' : FileTree} {p q : Location} {entry : Entry}

/-! ## Entries -/

@[simp] theorem entry?_root (t : FileTree) : t.entry? [] = some .directory := if_pos rfl

theorem ne_root_of_not_directory (h : t.entry? p ≠ some .directory) : p ≠ [] := by
  rintro rfl
  exact h t.entry?_root

theorem lookup_filter_key (l : List ((Nat × Location) × Entry)) (keep : Nat × Location → Bool)
    (h : keep p.key = true) :
    (l.filter fun e => keep e.1).lookup p.key = l.lookup p.key := by
  induction l with
  | nil => rfl
  | cons e l ih =>
      obtain ⟨key, entry⟩ := e
      by_cases heq : p.key = key
      · subst heq
        simp [h]
      · have hother : (p.key == key) = false := by simpa using heq
        cases hkept : keep key <;> simp [hkept, List.lookup_cons, hother, ih]

theorem lookup_filter_key_of_not (l : List ((Nat × Location) × Entry))
    (keep : Nat × Location → Bool) (h : keep p.key = false) :
    (l.filter fun e => keep e.1).lookup p.key = none := by
  rw [List.lookup_eq_none_iff]
  intro e he
  have hkept := (List.mem_filter.mp he).2
  simp only [bne_iff_ne, ne_eq]
  intro heq
  rw [← heq, h] at hkept
  cases hkept

theorem entry?_put_self (h : p ≠ []) : entry? (t.put p entry) p = some entry := by
  simp [put, entry?, h]

theorem entry?_put_of_ne (h : p ≠ q) : entry? (t.put q entry) p = t.entry? p := by
  have hkey : p.key ≠ q.key := fun heq => h (Location.key_inj.mp heq)
  have hother : (p.key == q.key) = false := by simpa using hkey
  have hrest := lookup_filter_key t.entries (fun k => k ≠ q.key) (decide_eq_true hkey)
  simp only [put, entry?, List.lookup_cons, hother, hrest]

theorem entry?_drop_self (h : p ≠ []) : entry? (t.drop p) p = none := by
  have hrest := lookup_filter_key_of_not (p := p) t.entries (fun k => k ≠ p.key) (by simp)
  simp only [drop, entry?, if_neg h, hrest]

theorem entry?_drop_of_ne (h : p ≠ q) : entry? (t.drop q) p = t.entry? p := by
  have hkey : p.key ≠ q.key := fun heq => h (Location.key_inj.mp heq)
  have hrest := lookup_filter_key t.entries (fun k => k ≠ q.key) (decide_eq_true hkey)
  simp only [drop, entry?, hrest]

theorem entry?_dropAll_of_not (h : ¬ q <+: p) : entry? (t.dropAll q) p = t.entry? p := by
  have hrest := lookup_filter_key t.entries (fun k => !q.isPrefixOf k.2)
    (by simpa [Location.key, ← List.isPrefixOf_iff_prefix] using h)
  simp only [dropAll, entry?, hrest]

theorem entry?_dropAll_of_below (h : q <+: p) (hroot : p ≠ []) :
    entry? (t.dropAll q) p = none := by
  have hrest := lookup_filter_key_of_not (p := p) t.entries (fun k => !q.isPrefixOf k.2)
    (by simpa [Location.key, ← List.isPrefixOf_iff_prefix] using h)
  simp only [dropAll, entry?, if_neg hroot, hrest]

/-! ## Extensions -/

/-- A later tree has all directories of the earlier one, and the same links. -/
structure Extends (t t' : FileTree) : Prop where
  directory : ∀ p, t.entry? p = some .directory → t'.entry? p = some .directory
  link : ∀ p target, t.entry? p = some (.link target) ↔ t'.entry? p = some (.link target)
  current : t'.current = t.current

/-- The later tree extends the earlier one and has the same file at a location. -/
structure Spares (p : Location) (t t' : FileTree) : Prop extends t.Extends t' where
  file : ∀ bytes executable, t.entry? p = some (.file bytes executable) →
    t'.entry? p = some (.file bytes executable)

theorem Extends.refl (t : FileTree) : t.Extends t := ⟨fun _ => id, fun _ _ => .rfl, rfl⟩

theorem Extends.trans (h : t.Extends t') (h' : t'.Extends t'') : t.Extends t'' where
  directory p hp := h'.directory p (h.directory p hp)
  link p target := (h.link p target).trans (h'.link p target)
  current := h'.current.trans h.current

theorem Spares.refl (p : Location) (t : FileTree) : Spares p t t := ⟨.refl t, fun _ _ => id⟩

theorem Spares.trans (h : Spares p t t') (h' : Spares p t' t'') : Spares p t t'' :=
  ⟨h.toExtends.trans h'.toExtends, fun bytes executable hfile =>
    h'.file bytes executable (h.file bytes executable hfile)⟩

/-- A file may be written where there is no directory and no link. -/
theorem Extends.put_file (hdirectory : t.entry? q ≠ some .directory)
    (hlink : ∀ target, t.entry? q ≠ some (.link target)) (bytes : List UInt8)
    (executable : Bool) : t.Extends (t.put q (.file bytes executable)) := by
  refine ⟨fun l hl => ?_, fun l target => ?_, rfl⟩
  · have hlq : l ≠ q := fun heq => hdirectory (heq ▸ hl)
    rwa [entry?_put_of_ne hlq]
  · by_cases hlq : l = q
    · subst hlq
      simp [entry?_put_self (ne_root_of_not_directory hdirectory), hlink target]
    · rw [entry?_put_of_ne hlq]

theorem Spares.put_file (hdirectory : t.entry? q ≠ some .directory)
    (hlink : ∀ target, t.entry? q ≠ some (.link target)) (hne : p ≠ q) (bytes : List UInt8)
    (executable : Bool) : Spares p t (t.put q (.file bytes executable)) := by
  refine ⟨.put_file hdirectory hlink bytes executable, fun _ _ hfile => ?_⟩
  rwa [entry?_put_of_ne hne]

/-- A directory may be made where nothing was. -/
theorem Spares.put_directory (p : Location) (hq : t.entry? q = none) :
    Spares p t (t.put q .directory) := by
  have hroot : q ≠ [] := ne_root_of_not_directory (t := t) (by simp [hq])
  have hother {l : Location} {e : Entry} (hl : t.entry? l = some e) :
      entry? (t.put q .directory) l = some e := by
    rw [entry?_put_of_ne, hl]
    rintro rfl
    rw [hq] at hl
    cases hl
  refine ⟨⟨fun l hl => hother hl, fun l target => ⟨hother, fun hl => ?_⟩, rfl⟩,
    fun _ _ hfile => hother hfile⟩
  by_cases hlq : l = q
  · rw [hlq, entry?_put_self hroot] at hl
    cases hl
  · rwa [entry?_put_of_ne hlq] at hl

theorem createDirectory_eq_ok {path : String} (h : t.createDirectory path = .ok t') :
    ∃ q, t.locateEntry path = .ok q ∧ t.entry? q = none ∧ t' = t.put q .directory := by
  obtain ⟨q, hq, h⟩ := bind_eq_ok_iff.mp h
  split at h
  case h_1 => cases h
  case h_2 hnone =>
    rw [if_neg (by simp)] at h
    exact ⟨q, hq, hnone, (Except.ok.inj h).symm⟩

/-- What each making of a directory keeps is kept by making several, also when not all of them can
be made. -/
theorem createFrom_keeps {R : FileTree → FileTree → Prop} (hrefl : ∀ t, R t t)
    (htrans : ∀ t t' t'', R t t' → R t' t'' → R t t'')
    (hmade : ∀ t q, t.entry? q = none → R t (t.put q .directory)) (depth : Nat) (t : FileTree)
    (path : String) : R t (t.createFrom depth path).1 := by
  have hcreated {t t' : FileTree} {path : String} (h : t.createDirectory path = .ok t') :
      R t t' := by
    obtain ⟨q, -, hnone, rfl⟩ := createDirectory_eq_ok h
    exact hmade t q hnone
  induction depth generalizing t path with
  | zero => exact hrefl t
  | succ depth ih =>
      rw [createFrom]
      split
      case isTrue => exact hrefl t
      case isFalse =>
        split
        case h_1 made hcreate => exact hcreated hcreate
        case h_2 =>
          split
          case h_1 => exact hrefl t
          case h_2 parent _ =>
            have hparent := ih t parent
            split
            case h_1 t₁ e heq => rwa [heq] at hparent
            case h_2 t₁ _ heq =>
              rw [heq] at hparent
              split
              case h_1 made hcreate => exact htrans _ _ _ hparent (hcreated hcreate)
              case h_2 => split <;> exact hparent
        case h_3 => split <;> exact hrefl t

theorem createDirectories_keeps {R : FileTree → FileTree → Prop} (hrefl : ∀ t, R t t)
    (htrans : ∀ t t' t'', R t t' → R t' t'' → R t t'')
    (hmade : ∀ t q, t.entry? q = none → R t (t.put q .directory)) (t : FileTree) (path : String) :
    R t (t.createDirectories path).1 :=
  createFrom_keeps hrefl htrans hmade _ t path

theorem spares_createDirectories (p : Location) (t : FileTree) (path : String) :
    Spares p t (t.createDirectories path).1 :=
  createDirectories_keeps (Spares.refl p) (fun _ _ _ => .trans) (fun _ _ => .put_directory p) t path

/-! ## Following paths -/

/-- A tree in which nothing is otherwise than in another one, but something may be missing. -/
def Within (t t' : FileTree) : Prop := ∀ p entry, t.entry? p = some entry → t'.entry? p = some entry

theorem Within.refl (t : FileTree) : t.Within t := fun _ _ => id

theorem Within.trans (h : t.Within t') (h' : t'.Within t'') : t.Within t'' :=
  fun p entry hp => h' p entry (h p entry hp)

theorem within_drop (t : FileTree) (q : Location) : (t.drop q).Within t := by
  intro p entry hp
  by_cases hpq : p = q
  · subst hpq
    by_cases hroot : p = []
    · subst hroot
      rwa [entry?_root] at hp ⊢
    · rw [entry?_drop_self hroot] at hp
      cases hp
  · rwa [entry?_drop_of_ne hpq] at hp

theorem within_dropAll (t : FileTree) (q : Location) : (t.dropAll q).Within t := by
  intro p entry hp
  by_cases hpq : q <+: p
  · by_cases hroot : p = []
    · subst hroot
      rwa [entry?_root] at hp ⊢
    · rw [entry?_dropAll_of_below hpq hroot] at hp
      cases hp
  · rwa [entry?_dropAll_of_not hpq] at hp

/-- The links of a later tree are links of the earlier one, and where the earlier one has a link
there is no directory. -/
structure Aligned (t t' : FileTree) : Prop where
  link : ∀ p target, t'.entry? p = some (.link target) → t.entry? p = some (.link target)
  directory : ∀ p target, t.entry? p = some (.link target) → t'.entry? p ≠ some .directory

/-- Links are the same, but for what is missing. -/
theorem aligned_of_link (h : ∀ p target, t.entry? p = some (.link target) ↔
      t'.entry? p = some (.link target)) (hw : t''.Within t') : t.Aligned t'' where
  link p target hp := (h p target).mpr (hw p _ hp)
  directory p target hp hdirectory := by
    cases (hw p _ hdirectory).symm.trans ((h p target).mp hp)

theorem Within.aligned (hw : t'.Within t) : t.Aligned t' := aligned_of_link (fun _ _ => .rfl) hw

theorem Aligned.within (h : t.Aligned t') (hw : t''.Within t') : t.Aligned t'' where
  link p target hp := h.link p target (hw p _ hp)
  directory p target hp hdirectory := h.directory p target hp (hw p _ hdirectory)

section Walking

variable {beyond beyond' : Location → List String → Except OsError Location} {final : Bool}
  {here : Location}

theorem walkWith_nil (here : Location) : t.walkWith false beyond here [] = .ok here := by
  rw [walkWith]
  split <;> rfl

/-- A path leads on through a directory, or is followed beyond a link. -/
theorem walkWith_cons_eq_ok {part : String} {rest : List String} :
    t.walkWith final beyond here (part :: rest) = .ok p ↔
      (t.entry? here = some .directory ∧ t.sizeOf part ≤ longestName ∧
        t.walkWith final beyond (step here part) rest = .ok p) ∨
      ∃ target, t.entry? here = some (.link target) ∧
        beyond (start target here.dropLast) (Path.parts target ++ part :: rest) = .ok p := by
  rw [walkWith]
  split
  case h_1 hentry => simp [hentry]
  case h_2 hentry => simp [hentry]
  case h_3 target hlink => simp [hlink]
  case h_4 hdirectory =>
    split
    case isTrue hsize => simp [hdirectory, Nat.not_le_of_lt hsize]
    case isFalse hsize => simp [hdirectory, Nat.le_of_not_lt hsize]

/-- A path whose last link is not followed leads where it led, if anywhere. -/
theorem walkWith_same (h : t.Aligned t')
    (hbeyond : ∀ here parts p q, beyond here parts = .ok p → beyond' here parts = .ok q → q = p)
    {parts : List String} (hp : t.walkWith false beyond here parts = .ok p)
    (hq : t'.walkWith false beyond' here parts = .ok q) : q = p := by
  induction parts generalizing here with
  | nil =>
      rw [walkWith_nil] at hp hq
      exact (Except.ok.inj hq).symm.trans (Except.ok.inj hp)
  | cons part rest ih =>
      rcases walkWith_cons_eq_ok.mp hp with ⟨hentry, -, hp⟩ | ⟨target, hentry, hp⟩ <;>
        rcases walkWith_cons_eq_ok.mp hq with ⟨hfound, -, hq⟩ | ⟨target', hfound, hq⟩
      · exact ih hp hq
      · cases hentry.symm.trans (h.link here target' hfound)
      · exact absurd hfound (h.directory here target hentry)
      · obtain rfl := Entry.link.inj (Option.some.inj (hentry.symm.trans (h.link _ _ hfound)))
        exact hbeyond _ _ _ _ hp hq

theorem walk_same (h : t.Aligned t') {links : Nat} {parts : List String}
    (hp : t.walk false links here parts = .ok p) (hq : t'.walk false links here parts = .ok q) :
    q = p := by
  induction links generalizing here parts p q with
  | zero => exact walkWith_same h (fun _ _ _ _ hfail => by cases hfail) hp hq
  | succ links ih => exact walkWith_same h (fun _ _ _ _ => ih) hp hq

/-- A name of something in a directory: it is no step to the directory itself or to the one
above. -/
structure Plain (name : String) : Prop where
  ne_empty : name ≠ ""
  ne_here : name ≠ "."
  ne_above : name ≠ ".."

theorem step_plain {name : String} (h : Plain name) (here : Location) :
    step here name = here ++ [name] := by
  rw [step, if_neg (by simp [h.ne_empty, h.ne_here]), if_neg h.ne_above]

variable {name : String} {blanks : List String}

/-- Empty steps and then a name, where no link is. -/
theorem walkWith_name (hname : Plain name) (hhere : ∀ target, t.entry? here ≠ some (.link target))
    (hlink : ∀ target, t.entry? (here ++ [name]) ≠ some (.link target))
    (hblanks : ∀ part ∈ blanks, part = "")
    (hq : t.walkWith final beyond here (blanks ++ [name]) = .ok q) : q = here ++ [name] := by
  induction blanks with
  | nil =>
      rcases walkWith_cons_eq_ok.mp hq with ⟨-, -, hq⟩ | ⟨target, hfound, -⟩
      · rw [step_plain hname, walkWith] at hq
        split at hq
        case h_1 target hfound => exact absurd hfound (hlink target)
        case h_2 => exact (Except.ok.inj hq).symm
      · exact absurd hfound (hhere target)
  | cons part blanks ih =>
      obtain ⟨rfl, hrest⟩ := List.forall_mem_cons.mp hblanks
      rcases walkWith_cons_eq_ok.mp hq with ⟨-, -, hq⟩ | ⟨target, hfound, -⟩
      · exact ih hrest hq
      · exact absurd hfound (hhere target)

/-- A path of something in a directory leads into the directory, if anywhere. -/
theorem walkWith_into (h : t.Aligned t') (hname : Plain name)
    (hp : ∀ target, t'.entry? p ≠ some (.link target))
    (hlink : ∀ target, t'.entry? (p ++ [name]) ≠ some (.link target))
    (hblanks : ∀ part ∈ blanks, part = "")
    (hbeyond : ∀ here parts q, beyond here parts = .ok p →
      beyond' here (parts ++ (blanks ++ [name])) = .ok q → q = p ++ [name])
    {parts : List String} (hwalk : t.walkWith false beyond here parts = .ok p)
    (hq : t'.walkWith final beyond' here (parts ++ (blanks ++ [name])) = .ok q) :
    q = p ++ [name] := by
  induction parts generalizing here with
  | nil =>
      rw [walkWith_nil] at hwalk
      obtain rfl := Except.ok.inj hwalk
      exact walkWith_name hname hp hlink hblanks hq
  | cons part rest ih =>
      rw [List.cons_append] at hq
      rcases walkWith_cons_eq_ok.mp hwalk with ⟨hentry, -, hwalk⟩ | ⟨target, hentry, hwalk⟩ <;>
        rcases walkWith_cons_eq_ok.mp hq with ⟨hfound, -, hq⟩ | ⟨target', hfound, hq⟩
      · exact ih hwalk hq
      · cases hentry.symm.trans (h.link here target' hfound)
      · exact absurd hfound (h.directory here target hentry)
      · obtain rfl := Entry.link.inj (Option.some.inj (hentry.symm.trans (h.link _ _ hfound)))
        exact hbeyond _ _ _ hwalk (by simpa using hq)

theorem walk_into (h : t.Aligned t') (hname : Plain name)
    (hp : ∀ target, t'.entry? p ≠ some (.link target))
    (hlink : ∀ target, t'.entry? (p ++ [name]) ≠ some (.link target))
    (hblanks : ∀ part ∈ blanks, part = "") {links : Nat} {parts : List String}
    (hwalk : t.walk false links here parts = .ok p)
    (hq : t'.walk final links here (parts ++ (blanks ++ [name])) = .ok q) :
    q = p ++ [name] := by
  induction links generalizing here parts q with
  | zero =>
      exact walkWith_into h hname hp hlink hblanks (fun _ _ _ hfail => by cases hfail) hwalk hq
  | succ links ih =>
      rw [walk] at hwalk hq
      refine walkWith_into h hname hp hlink hblanks (fun here parts q hlater => ?_) hwalk hq
      exact ih hlater

end Walking

theorem walk_of_locateEntry {path : String} (hpath : Path.isAbsolute path)
    (h : t.locateEntry path = .ok q) :
    t.walk false linkLimit [] (Path.partsToName path) = .ok q := by
  obtain ⟨-, -, hwalk⟩ := bind_eq_ok_iff.mp h
  rwa [start, if_pos hpath] at hwalk

/-- A path that names one location names no other one in an extension. -/
theorem Extends.locateEntry_ne (h : t.Extends t') {path : String} (hq : t.locateEntry path = .ok q)
    (hne : q ≠ p) : t'.locateEntry path ≠ .ok p := by
  intro hp
  obtain ⟨-, -, hwalk⟩ := bind_eq_ok_iff.mp hq
  obtain ⟨-, -, hlater⟩ := bind_eq_ok_iff.mp hp
  rw [h.current] at hlater
  exact hne (walk_same (aligned_of_link h.link (.refl t')) hwalk hlater).symm

/-! ## Writing and removing -/

theorem write_eq_ok {path : String} {bytes : List UInt8} (h : t.write path bytes = .ok t') :
    ∃ q executable, t.locateFile path = .ok q ∧ t.entry? q ≠ some .directory ∧
      (∀ target, t.entry? q ≠ some (.link target)) ∧ t' = t.put q (.file bytes executable) := by
  obtain ⟨q, hq, h⟩ := bind_eq_ok_iff.mp h
  refine ⟨q, ?_⟩
  split at h
  case h_1 => cases h
  case h_2 _ executable hentry =>
    cases h
    exact ⟨executable, hq, by simp [hentry], by simp [hentry], rfl⟩
  case h_3 => cases h
  case h_4 hentry =>
    cases h
    exact ⟨false, hq, by simp [hentry], by simp [hentry], rfl⟩

/-- The removal of a file takes away what the path names, which is no directory, or nothing. -/
theorem withoutFile_cases (t : FileTree) (path : String) :
    t.withoutFile path = t ∨
      ∃ q, t.locateEntry path = .ok q ∧ t.entry? q ≠ some .directory ∧
        t.withoutFile path = t.drop q := by
  rw [withoutFile]
  cases h : t.removeFile path with
  | error e => exact .inl rfl
  | ok t' =>
      obtain ⟨q, hq, h⟩ := bind_eq_ok_iff.mp h
      split at h
      case h_1 => cases h
      case h_2 => cases h
      case h_3 entry hother hentry =>
        have hdirectory : t.entry? q ≠ some .directory := fun hentry' =>
          hother (Option.some.inj (hentry.symm.trans hentry'))
        split at h
        · cases h
        · cases h
          exact .inr ⟨q, hq, hdirectory, rfl⟩

theorem within_withoutFile (t : FileTree) (path : String) : (t.withoutFile path).Within t := by
  rcases t.withoutFile_cases path with hsame | ⟨q, -, -, hdrop⟩
  · rw [hsame]
    exact .refl t
  · rw [hdrop]
    exact within_drop t q

theorem entry?_withoutFile {path : String} (h : t.locateEntry path ≠ .ok p) :
    entry? (t.withoutFile path) p = t.entry? p := by
  rcases t.withoutFile_cases path with hsame | ⟨q, hq, -, hdrop⟩
  · rw [hsame]
  · rw [hdrop, entry?_drop_of_ne]
    rintro rfl
    exact h hq

/-- What leads on: a directory, or a link. -/
def LeadsOn (t : FileTree) (p : Location) : Prop :=
  t.entry? p = some .directory ∨ ∃ target, t.entry? p = some (.link target)

theorem not_leadsOn_of_none (h : t.entry? p = none) : ¬ t.LeadsOn p := by
  simp [LeadsOn, h]

/-- A path that names no directory and no link: nothing, or a file. -/
def Barren (t : FileTree) (path : String) : Prop :=
  ∀ p, t.locateEntry path = .ok p → ¬ t.LeadsOn p

/-- The removal of a directory takes away what its path names, unless that leads nowhere. -/
theorem withoutDirectory_cases (t : FileTree) (path : String) :
    (t.withoutDirectory path = t ∧ t.Barren path) ∨
      ∃ q, t.locateEntry path = .ok q ∧
        (t.withoutDirectory path = t.dropAll q ∨ t.withoutDirectory path = t.drop q) := by
  rw [withoutDirectory]
  split
  case h_1 e he => exact .inl ⟨rfl, fun p hp => by cases he.symm.trans hp⟩
  case h_2 q hq =>
    split
    case h_1 => exact .inr ⟨q, hq, .inl rfl⟩
    case h_2 => exact .inr ⟨q, hq, .inr rfl⟩
    case h_3 hdirectory hlink =>
      refine .inl ⟨rfl, fun p hp hleads => ?_⟩
      obtain rfl := Except.ok.inj (hq.symm.trans hp)
      rcases hleads with hentry | ⟨target, hentry⟩
      · exact hdirectory hentry
      · exact hlink target hentry

/-- The removal of a directory takes away nothing outside. -/
theorem entry?_withoutDirectory {path : String}
    (h : ∀ q, t.locateEntry path = .ok q → ¬ q <+: p) :
    entry? (t.withoutDirectory path) p = t.entry? p := by
  rcases t.withoutDirectory_cases path with ⟨hsame, -⟩ | ⟨q, hq, hremoved | hremoved⟩
  · rw [hsame]
  · rw [hremoved]
    exact entry?_dropAll_of_not (h q hq)
  · rw [hremoved]
    refine entry?_drop_of_ne ?_
    rintro rfl
    exact h p hq (List.prefix_refl p)

theorem within_withoutDirectory (t : FileTree) (path : String) :
    (t.withoutDirectory path).Within t := by
  rcases t.withoutDirectory_cases path with ⟨hsame, -⟩ | ⟨q, -, hremoved | hremoved⟩
  · rw [hsame]
    exact .refl t
  · rw [hremoved]
    exact within_dropAll t q
  · rw [hremoved]
    exact within_drop t q

/-! ## Well-formed trees -/

/-- All that a tree holds is in a directory. -/
def WellFormed (t : FileTree) : Prop :=
  ∀ p entry, t.entry? p = some entry → p ≠ [] → t.entry? p.dropLast = some .directory

/-- It is enough to look at what is listed. -/
theorem wellFormed_of_entries (h : ∀ e ∈ t.entries, t.entry? e.1.2.dropLast = some .directory) :
    t.WellFormed := by
  intro p entry hentry hroot
  unfold entry? at hentry
  rw [if_neg hroot] at hentry
  obtain ⟨l₁, l₂, hentries, -⟩ := List.lookup_eq_some_iff.mp hentry
  exact h (p.key, entry) (by simp [hentries])

theorem WellFormed.directory_of_append (h : t.WellFormed) {rest : List String} (hrest : rest ≠ [])
    (hentry : t.entry? (p ++ rest) = some entry) : t.entry? p = some .directory := by
  induction rest using List.reverseRecOn generalizing entry with
  | nil => exact absurd rfl hrest
  | append_singleton rest name ih =>
      have hparent := h _ _ hentry (by simp)
      rw [← List.append_assoc, List.dropLast_concat] at hparent
      by_cases hnil : rest = []
      · rwa [hnil, List.append_nil] at hparent
      · exact ih hnil hparent

/-- What is there is not where later nothing is, nor below it. -/
theorem WellFormed.not_prefix (h : t.WellFormed) (ht : t.Extends t')
    (hentry : t.entry? p = some entry) (hlater : t'.entry? p ≠ none) (hq : t'.entry? q = none) :
    ¬ q <+: p := by
  rintro ⟨rest, rfl⟩
  by_cases hrest : rest = []
  · rw [hrest, List.append_nil] at hlater
    exact hlater hq
  · have hdirectory := ht.directory q (h.directory_of_append hrest hentry)
    rw [hq] at hdirectory
    cases hdirectory

/-- Where nothing is, nothing is below. -/
theorem WellFormed.none_of_below (h : t.WellFormed) (hq : t.entry? q = none) (hp : q <+: p) :
    t.entry? p = none := by
  by_contra hsome
  obtain ⟨entry, hentry⟩ := Option.ne_none_iff_exists'.mp hsome
  exact h.not_prefix (.refl t) hentry hsome hq hp

end FileTree

end Montage
