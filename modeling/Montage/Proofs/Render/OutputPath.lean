import Montage.OutputPath
import Montage.Proofs.Decimal.Digits
import Montage.Proofs.Host.Paths

/-! # Derived paths

A clip that is not named gets a name of its own beside its source or in a given directory. The name
begins like that of the source and tells the canvas and the second, so that it is never the name
of the source, nor that of another canvas or second. -/

namespace Montage

/-! ## Stamps -/

/-- The fields of a date and a time of day keep to their bounds, and the year to four digits. A
minute may end in a leap second. -/
structure Instant.IsDate (t : Instant) : Prop where
  year : t.year ≤ 9999
  month : t.month ≤ 12
  day : t.day ≤ 31
  hour : t.hour < 24
  minute : t.minute < 60
  second : t.second ≤ 60

theorem Instant.toList_stamp {t : Instant} (h : t.IsDate) : t.stamp.toList =
    Decimal.padded 4 t.year ++ (Decimal.padded 2 t.month ++ (Decimal.padded 2 t.day ++
      'T' :: (Decimal.padded 2 t.hour ++ (Decimal.padded 2 t.minute ++
        (Decimal.padded 2 t.second ++ ['Z']))))) := by
  have hyear : ¬ 9999 < t.year := Nat.not_lt_of_le h.year
  simp [stamp, hyear]

/-- A stamp tells the second. -/
theorem Instant.eq_of_stamp {t t' : Instant} (h : t.IsDate) (h' : t'.IsDate)
    (heq : t.stamp = t'.stamp) : t = t' := by
  have hlists := congrArg String.toList heq
  rw [toList_stamp h, toList_stamp h'] at hlists
  obtain ⟨hyear, hlists⟩ := Decimal.padded_append_inj (by decide) (h.year.trans_lt (by decide))
    (h'.year.trans_lt (by decide)) hlists
  obtain ⟨hmonth, hlists⟩ := Decimal.padded_append_inj (by decide) (h.month.trans_lt (by decide))
    (h'.month.trans_lt (by decide)) hlists
  obtain ⟨hday, hlists⟩ := Decimal.padded_append_inj (by decide) (h.day.trans_lt (by decide))
    (h'.day.trans_lt (by decide)) hlists
  obtain ⟨hhour, hlists⟩ := Decimal.padded_append_inj (by decide) (h.hour.trans (by decide))
    (h'.hour.trans (by decide)) (List.cons.inj hlists).2
  obtain ⟨hminute, hlists⟩ := Decimal.padded_append_inj (by decide) (h.minute.trans (by decide))
    (h'.minute.trans (by decide)) hlists
  obtain ⟨hsecond, -⟩ := Decimal.padded_append_inj (by decide) (h.second.trans_lt (by decide))
    (h'.second.trans_lt (by decide)) hlists
  cases t
  cases t'
  simp_all

theorem Instant.slash_not_mem_stamp (t : Instant) : '/' ∉ t.stamp.toList := by
  have hpadded (width n : Nat) : '/' ∉ Decimal.padded width n :=
    Decimal.not_mem_padded (by decide) width n
  by_cases hyear : 9999 < t.year <;> simp [stamp, hyear, hpadded]

/-! ## The calendar -/

namespace Calendar

/-- A day of a cycle, but for the last one, is in one of four centuries of 36524 days, there in a
span of four years of 1461 days, and of these four the last one is a day longer. -/
theorem yearOfCycle_eq {century span day : Nat} (hcentury : century < 4)
    (hspan : 1461 * span + day < 36524) (hday : day < 1461) :
    yearOfCycle (36524 * century + 1461 * span + day) =
      100 * century + 4 * span + min (day / 365) 3 := by
  have hleap : (36524 * century + 1461 * span + day) / 1460 =
      25 * century + span + (24 * century + span + day) / 1460 := by omega
  have hcenturies : (36524 * century + 1461 * span + day) / 36524 = century := by omega
  have hcycle : (36524 * century + 1461 * span + day) / 146096 = 0 := by omega
  rw [yearOfCycle, hleap, hcenturies, hcycle]
  omega

theorem firstDay_eq {century span year : Nat} (hspan : span < 25) (hyear : year < 4) :
    firstDay (100 * century + 4 * span + year) = 36524 * century + 1461 * span + 365 * year := by
  have hleap : (100 * century + 4 * span + year) / 4 = 25 * century + span := by omega
  have hcentury : (100 * century + 4 * span + year) / 100 = century := by omega
  rw [firstDay, hleap, hcentury]
  omega

/-- A day of a cycle is a day of its year. -/
theorem year_spec {day : Nat} (h : day < cycleDays) : yearOfCycle day < 400 ∧
    firstDay (yearOfCycle day) ≤ day ∧ day < firstDay (yearOfCycle day) + 366 := by
  by_cases hlast : day = 146096
  · subst hlast
    decide
  simp only [cycleDays] at h
  have hsplit : day = 36524 * (day / 36524) + 1461 * (day % 36524 / 1461) + day % 36524 % 1461 := by
    omega
  have hyear : yearOfCycle day = 100 * (day / 36524) + 4 * (day % 36524 / 1461) +
      min (day % 36524 % 1461 / 365) 3 := by
    conv_lhs => rw [hsplit]
    exact yearOfCycle_eq (by omega) (by omega) (by omega)
  rw [hyear, firstDay_eq (by omega) (by omega)]
  omega

/-- The months from March on, the first of which has 31 days, have 153 days every five. -/
theorem month_spec {inYear : Nat} (h : inYear < 366) : (5 * inYear + 2) / 153 < 12 ∧
    (153 * ((5 * inYear + 2) / 153) + 2) / 5 ≤ inYear ∧
    inYear < (153 * ((5 * inYear + 2) / 153) + 2) / 5 + 31 := by
  omega

theorem isDate_instantOf {seconds : Nat} (h : (instantOf seconds).year ≤ 9999) :
    (instantOf seconds).IsDate := by
  have hcycle : (seconds / 86400 + epochDays) % cycleDays < cycleDays := Nat.mod_lt _ (by decide)
  obtain ⟨-, hfirst, hday⟩ := year_spec hcycle
  obtain ⟨hmonth, hstart, hend⟩ := month_spec (Nat.sub_lt_left_of_lt_add hfirst hday)
  refine ⟨h, ?month, ?_, ?_, ?_, ?_⟩
  case month =>
    simp only [instantOf]
    split <;> omega
  all_goals
    simp only [instantOf]
    omega

/-- A date and a time of day tell the second. -/
theorem instantOf_injective : Function.Injective instantOf := by
  intro a b h
  simp only [instantOf, Instant.mk.injEq] at h
  obtain ⟨hyear, hmonth, hday, hhour, hminute, hsecond⟩ := h
  have hmod (n : Nat) : n % cycleDays < cycleDays := Nat.mod_lt _ (by decide)
  obtain ⟨hcycle, hfirst, hlast⟩ := year_spec (hmod (a / 86400 + epochDays))
  obtain ⟨hcycle', hfirst', hlast'⟩ := year_spec (hmod (b / 86400 + epochDays))
  obtain ⟨hm, hstart, -⟩ := month_spec (Nat.sub_lt_left_of_lt_add hfirst hlast)
  obtain ⟨hm', hstart', -⟩ := month_spec (Nat.sub_lt_left_of_lt_add hfirst' hlast')
  have hsplit := Nat.div_add_mod (a / 86400 + epochDays) cycleDays
  have hsplit' := Nat.div_add_mod (b / 86400 + epochDays) cycleDays
  generalize (a / 86400 + epochDays) % cycleDays = inCycle at *
  generalize (b / 86400 + epochDays) % cycleDays = inCycle' at *
  generalize (a / 86400 + epochDays) / cycleDays = cycle at *
  generalize (b / 86400 + epochDays) / cycleDays = cycle' at *
  generalize yearOfCycle inCycle = year at *
  generalize yearOfCycle inCycle' = year' at *
  have hmonths : (5 * (inCycle - firstDay year) + 2) / 153 =
      (5 * (inCycle' - firstDay year') + 2) / 153 := by
    split at hmonth <;> split at hmonth <;> omega
  have hdays : inCycle - firstDay year = inCycle' - firstDay year' := by
    rw [hmonths] at hday hstart
    omega
  obtain ⟨rfl, rfl⟩ : year = year' ∧ cycle = cycle' := by
    rw [hmonth] at hyear
    omega
  omega

end Calendar

/-! ## Names -/

namespace Path

variable {path name stem : String}

/-- A name is its stem, alone or with what follows from its last dot on. -/
theorem stemOf_cases (name : String) :
    stemOf name = name ∨ ∃ extension, name = stemOf name ++ "." ++ extension := by
  unfold stemOf
  split
  case h_1 after before hsplit =>
    split
    case isTrue => exact .inl rfl
    case isFalse =>
      refine .inr ⟨String.ofList after.reverse, String.toList_injective ?_⟩
      have hname := congrArg List.reverse (Text.eq_of_splitAt? hsplit)
      rw [List.reverse_reverse] at hname
      simp [hname]
  case h_2 => exact .inl rfl

theorem mem_parts_of_fileName? (h : fileName? path = some name) : name ∈ parts path := by
  obtain ⟨after, hparts, -⟩ := exists_trims path
  rw [fileName?] at h
  split at h
  case h_1 last hlast =>
    rw [Option.ite_none_left_eq_some, Option.some.injEq] at h
    obtain ⟨-, rfl⟩ := h
    rw [hparts]
    exact List.mem_append_left after (List.mem_of_getLast? hlast)
  case h_2 => cases h

/-- A stem is one part of a path, as the name is. -/
theorem slash_not_mem_of_fileStem? (h : fileStem? path = some stem) : '/' ∉ stem.toList := by
  obtain ⟨name, hname, rfl⟩ := Option.map_eq_some_iff.mp h
  have hslash := slash_not_mem_of_mem_parts (mem_parts_of_fileName? hname)
  rcases stemOf_cases name with hstem | ⟨extension, hstem⟩
  · rwa [hstem]
  · intro hmem
    refine hslash ?_
    rw [hstem, String.append_assoc, String.toList_append]
    exact List.mem_append_left _ hmem

end Path

/-- The name of a clip. -/
def clipName (stem : String) (canvas : Canvas) (now : Instant) : String :=
  s!"{stem}_{canvas.slug}_{now.stamp}.mp4"

theorem Canvas.slug_injective : Function.Injective Canvas.slug := by
  intro a b h
  cases a <;> cases b <;> simp [slug] at h ⊢

theorem Canvas.not_mem_slug (canvas : Canvas) : '_' ∉ canvas.slug.toList := by
  cases canvas <;> decide

theorem Canvas.slash_not_mem_slug (canvas : Canvas) : '/' ∉ canvas.slug.toList := by
  cases canvas <;> decide

section Names

variable {stem : String} {canvas canvas' : Canvas} {now now' : Instant}

theorem toList_clipName (stem : String) (canvas : Canvas) (now : Instant) :
    (clipName stem canvas now).toList = stem.toList ++ '_' ::
      (canvas.slug.toList ++ '_' :: (now.stamp.toList ++ ".mp4".toList)) := by
  simp [clipName, toString]

theorem onePart_clipName (hstem : '/' ∉ stem.toList) (canvas : Canvas) (now : Instant) :
    Path.OnePart (clipName stem canvas now) := by
  have hne (other : String) (hother : '_' ∉ other.toList) : clipName stem canvas now ≠ other := by
    rintro rfl
    exact hother (by simp [toList_clipName])
  refine ⟨⟨hne _ (by decide), hne _ (by decide), hne _ (by decide)⟩, ?_⟩
  have hcanvas := canvas.slash_not_mem_slug
  have hnow := now.slash_not_mem_stamp
  simp [toList_clipName, hstem, hcanvas, hnow]

/-- After the stem comes an underscore, and in the name of the source there is a dot or nothing. -/
theorem clipName_stemOf_ne (name : String) (canvas : Canvas) (now : Instant) :
    clipName (Path.stemOf name) canvas now ≠ name := by
  intro heq
  have hlist := congrArg String.toList heq
  rw [toList_clipName] at hlist
  rcases Path.stemOf_cases name with hstem | ⟨extension, hstem⟩
  · rw [hstem, List.append_right_eq_self] at hlist
    exact List.cons_ne_nil _ _ hlist
  · have hname : name.toList = (Path.stemOf name).toList ++ '.' :: extension.toList := by
      conv_lhs => rw [hstem]
      simp
    obtain ⟨hnext, -⟩ := List.cons.inj (List.append_cancel_left (hlist.trans hname))
    exact absurd hnext (by decide)

/-- With the same stem, a name tells the canvas and the stamp. -/
theorem eq_of_clipName (h : clipName stem canvas now = clipName stem canvas' now') :
    canvas = canvas' ∧ now.stamp = now'.stamp := by
  have hlist := congrArg String.toList h
  rw [toList_clipName, toList_clipName] at hlist
  obtain ⟨-, hlist⟩ := List.cons.inj (List.append_cancel_left hlist)
  obtain ⟨hslug, hlist⟩ :=
    Text.eq_of_append_cons canvas.not_mem_slug canvas'.not_mem_slug hlist
  exact ⟨Canvas.slug_injective (String.toList_injective hslug),
    String.toList_injective (List.append_cancel_right hlist)⟩

end Names

/-! ## Derived paths -/

/-- Where a clip that is not named belongs: in the given directory, else in that of its source. -/
inductive ClipDirectory (source : String) : Option String → String → Prop
  | given (dir : String) : ClipDirectory source (some dir) dir
  | beside {dir : String} (h : Path.parent? source = some dir) (hne : dir ≠ "") :
      ClipDirectory source none dir
  | here (h : ∀ dir, Path.parent? source = some dir → dir = "") : ClipDirectory source none "."

theorem exists_derivedOutputPath_eq_join (source : String) (outputDir : Option String) :
    ∃ dir, ClipDirectory source outputDir dir ∧ ∀ canvas now,
      derivedOutputPath source canvas outputDir now =
        Path.join dir (clipName ((Path.fileStem? source).getD "clip") canvas now) := by
  cases outputDir with
  | some dir => exact ⟨dir, .given dir, fun _ _ => rfl⟩
  | none =>
      refine ⟨((Path.parent? source).filter (· ≠ "")).getD ".", ?_, fun _ _ => rfl⟩
      cases hdir : (Path.parent? source).filter (· ≠ "") with
      | some dir =>
          obtain ⟨hparent, hne⟩ := Option.filter_eq_some_iff.mp hdir
          exact .beside hparent (of_decide_eq_true hne)
      | none =>
          refine .here fun dir hparent => ?_
          simpa using Option.filter_eq_none_iff.mp hdir dir hparent

theorem onePart_clipName_of_source (source : String) (canvas : Canvas) (now : Instant) :
    Path.OnePart (clipName ((Path.fileStem? source).getD "clip") canvas now) := by
  refine onePart_clipName ?_ canvas now
  cases hstem : Path.fileStem? source with
  | some stem => exact Path.slash_not_mem_of_fileStem? hstem
  | none => decide

theorem fileName?_derivedOutputPath (source : String) (canvas : Canvas)
    (outputDir : Option String) (now : Instant) :
    Path.fileName? (derivedOutputPath source canvas outputDir now) =
      some (clipName ((Path.fileStem? source).getD "clip") canvas now) := by
  obtain ⟨dir, -, hjoin⟩ := exists_derivedOutputPath_eq_join source outputDir
  rw [hjoin]
  exact Path.fileName?_join (onePart_clipName_of_source source canvas now) dir

/-- A clip is not named like its source. -/
theorem clipName_ne_fileName (source : String) (canvas : Canvas) (now : Instant) :
    Path.fileName? source ≠ some (clipName ((Path.fileStem? source).getD "clip") canvas now) := by
  generalize hstem : (Path.fileStem? source).getD "clip" = stem
  intro hname
  rw [Path.fileStem?, hname, Option.map_some, Option.getD_some] at hstem
  refine clipName_stemOf_ne (clipName stem canvas now) canvas now ?_
  rw [hstem]

theorem not_same_derivedOutputPath_source (source : String) (canvas : Canvas)
    (outputDir : Option String) (now : Instant) :
    ¬ Path.same (derivedOutputPath source canvas outputDir now) source := by
  intro hsame
  have hnames := Path.fileName?_eq_of_same hsame
  rw [fileName?_derivedOutputPath] at hnames
  exact clipName_ne_fileName source canvas now hnames.symm

theorem same_derivedOutputPath_iff (source : String) (outputDir : Option String)
    {canvas canvas' : Canvas} {now now' : Instant} (hnow : now.IsDate) (hnow' : now'.IsDate) :
    Path.same (derivedOutputPath source canvas outputDir now)
        (derivedOutputPath source canvas' outputDir now') ↔ canvas = canvas' ∧ now = now' := by
  constructor
  · intro hsame
    have hnames := Path.fileName?_eq_of_same hsame
    rw [fileName?_derivedOutputPath, fileName?_derivedOutputPath, Option.some.injEq] at hnames
    obtain ⟨hcanvas, hstamp⟩ := eq_of_clipName hnames
    exact ⟨hcanvas, Instant.eq_of_stamp hnow hnow' hstamp⟩
  · rintro ⟨rfl, rfl⟩
    exact Path.same_refl _

/-- A path that is derived for a source is not that of the source. It names a file in the given
directory, else in that of the source, and the name starts like that of the source. A path tells the
canvas and the second, as long as years have four digits. -/
theorem derivedOutputPath_spec (source : String) (outputDir : Option String) :
    (∀ canvas now,
      let path := derivedOutputPath source canvas outputDir now
      ¬ Path.same path source ∧
      (∃ name, Path.fileName? path = some name ∧
        ((Path.fileStem? source).getD "clip").toList <+: name.toList) ∧
      ∃ dir, ClipDirectory source outputDir dir ∧
        ∃ parent, Path.parent? path = some parent ∧ Path.same parent dir) ∧
    (∀ canvas canvas' now now', now.IsDate → now'.IsDate →
      (Path.same (derivedOutputPath source canvas outputDir now)
          (derivedOutputPath source canvas' outputDir now') ↔
        canvas = canvas' ∧ now = now')) ∧
    ∀ canvas canvas' seconds seconds', (Calendar.instantOf seconds).year ≤ 9999 →
      (Calendar.instantOf seconds').year ≤ 9999 →
      (Path.same (derivedOutputPath source canvas outputDir (Calendar.instantOf seconds))
          (derivedOutputPath source canvas' outputDir (Calendar.instantOf seconds')) ↔
        canvas = canvas' ∧ seconds = seconds') := by
  obtain ⟨dir, hdir, hjoin⟩ := exists_derivedOutputPath_eq_join source outputDir
  refine ⟨fun canvas now => ⟨not_same_derivedOutputPath_source source canvas outputDir now,
      ⟨_, fileName?_derivedOutputPath source canvas outputDir now, ?stem⟩,
      dir, hdir, Path.normalEnd dir, ?parent, Path.same_normalEnd dir⟩,
    fun canvas canvas' now now' => same_derivedOutputPath_iff source outputDir, ?seconds⟩
  case stem =>
    rw [toList_clipName]
    exact List.prefix_append _ _
  case parent =>
    rw [hjoin]
    exact Path.parent?_join (onePart_clipName_of_source source canvas now) dir
  case seconds =>
    intro canvas canvas' seconds seconds' hyear hyear'
    rw [same_derivedOutputPath_iff source outputDir (Calendar.isDate_instantOf hyear)
      (Calendar.isDate_instantOf hyear'), Calendar.instantOf_injective.eq_iff]

/-- Beside a source with two dots in its name: the last second of a day and the first one of the
next, a leap day, and a leap second and the one before it. -/
theorem derivedOutputPath_spec_leap :
    let path : Instant → String := derivedOutputPath "/media//archive.tar.gz/" .portrait none
    path (Calendar.instantOf 951782399) = "/media/archive.tar_9x16_20000228T235959Z.mp4" ∧
    ¬ Path.same (path (Calendar.instantOf 951782399)) "/media//archive.tar.gz/" ∧
    ¬ Path.same (path (Calendar.instantOf 951782399)) (path (Calendar.instantOf 951782400)) ∧
    ¬ Path.same (path ⟨2016, 12, 31, 23, 59, 60⟩) (path ⟨2016, 12, 31, 23, 59, 59⟩) := by
  obtain ⟨hpath, hfields, hseconds⟩ := derivedOutputPath_spec "/media//archive.tar.gz/" none
  refine ⟨by decide +kernel, (hpath .portrait _).1, fun hsame => ?_, fun hsame => ?_⟩
  · have heq := (hseconds .portrait .portrait 951782399 951782400 (by decide) (by decide)).mp hsame
    exact absurd heq.2 (by decide)
  · have hdate (second : Nat) (h : second ≤ 60) : Instant.IsDate ⟨2016, 12, 31, 23, 59, second⟩ :=
      ⟨by simp, by simp, by simp, by simp, by simp, h⟩
    have heq := (hfields .portrait .portrait _ _ (hdate 60 (by decide))
      (hdate 59 (by decide))).mp hsame
    exact absurd heq.2 (by decide)

end Montage
