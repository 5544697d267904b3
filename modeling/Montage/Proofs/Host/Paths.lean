import Mathlib.Data.List.Basic
import Mathlib.Data.List.TakeWhile
import Montage.Proofs.Host.FileTree
import Montage.Proofs.Text.Split

/-! # Parts of a path

A path that is joined with a name has the parts of both, and stands for what has the name. The name
is then its last part that counts, and what it was joined to is its directory, in whatever way that
is written. -/

namespace Montage

namespace Path

variable {base name path a b : String} {ps : List String}

/-! ## Joined paths -/

/-- A name that is one part of a path. -/
structure OnePart (name : String) : Prop extends FileTree.Plain name where
  slash : '/' ∉ name.toList

theorem not_isAbsolute_of_onePart (h : OnePart name) : ¬ isAbsolute name := by
  intro habsolute
  have hhead : name.toList.head? = some '/' := by simpa [isAbsolute] using habsolute
  exact h.slash (List.mem_of_head? hhead)

/-- Parts without the empty ones at their end, and these. -/
theorem exists_blanks (ps : List String) : ∃ blanks, (∀ part ∈ blanks, part = "") ∧
    ps = (ps.reverse.dropWhile (· = "")).reverse ++ blanks := by
  refine ⟨(ps.reverse.takeWhile (· = "")).reverse, fun part hpart => ?_, ?_⟩
  · simpa using List.mem_takeWhile_imp (List.mem_reverse.mp hpart)
  · rw [← List.reverse_append, List.takeWhile_append_dropWhile, List.reverse_reverse]

theorem parts_of_onePart (h : OnePart name) : parts name = [name] := by
  rw [parts, Text.splitOnChar_of_not_mem h.slash, List.map_singleton, String.ofList_toList]

/-- The parts around a slash. -/
theorem parts_append_slash (base rest : String) :
    parts (base ++ "/" ++ rest) = parts base ++ parts rest := by
  have hslash : "/".toList = ['/'] := rfl
  rw [parts, String.toList_append, String.toList_append, hslash, List.append_assoc,
    List.singleton_append, Text.splitOnChar_append, List.map_append, parts, parts]

/-- A path that ends in a slash, and what stands before that. -/
theorem exists_append_slash (h : base.toList.getLast? = some '/') :
    ∃ front, base = front ++ "/" := by
  obtain ⟨front, hfront⟩ := List.getLast?_eq_some_iff.mp h
  refine ⟨String.ofList front, ?_⟩
  rw [← String.ofList_toList (s := base), hfront, String.ofList_append]

/-- A path that is joined with a name has the parts of both; only empty parts in between count
for nothing. -/
theorem parts_join (hbase : isAbsolute base) (h : OnePart name) :
    ∃ blanks, (∀ part ∈ blanks, part = "") ∧
      parts (join base name) = partsToName base ++ (blanks ++ [name]) := by
  have hne : base ≠ "" := by
    rintro rfl
    exact absurd hbase (by decide)
  rw [join, if_neg (by simp [not_isAbsolute_of_onePart h, hne])]
  split
  case isTrue hlast =>
    -- The last part of `base` is empty, and the slash before it is the one before the name.
    obtain ⟨front, rfl⟩ := exists_append_slash hlast
    obtain ⟨blanks, hblanks, hsplit⟩ := exists_blanks (parts front)
    have hparts : parts (front ++ "/") = parts front ++ [""] := by
      rw [← String.append_empty (s := front ++ "/"), parts_append_slash]
      rfl
    have hstrip : partsToName (front ++ "/") =
        ((parts front).reverse.dropWhile (· = "")).reverse := by
      rw [partsToName, hparts, List.reverse_append]
      simp
    refine ⟨blanks, hblanks, ?_⟩
    rw [hstrip, ← List.append_assoc, ← hsplit, parts_append_slash, parts_of_onePart h]
  case isFalse =>
    obtain ⟨blanks, hblanks, hsplit⟩ := exists_blanks (parts base)
    refine ⟨blanks, hblanks, ?_⟩
    rw [partsToName, ← List.append_assoc, ← hsplit, parts_append_slash, parts_of_onePart h]

/-- The name at the end of a joined path is no slash. -/
theorem partsToName_join (hbase : isAbsolute base) (h : OnePart name) :
    partsToName (join base name) = parts (join base name) := by
  obtain ⟨blanks, -, hparts⟩ := parts_join hbase h
  rw [partsToName, hparts, ← List.append_assoc, List.reverse_append, List.reverse_singleton,
    List.singleton_append, List.dropWhile_cons_of_neg (by simpa using h.ne_empty),
    List.reverse_cons, List.reverse_reverse]

theorem exists_append_eq_join (hbase : isAbsolute base) (h : OnePart name) :
    ∃ rest, join base name = base ++ rest := by
  have hne : base ≠ "" := by
    rintro rfl
    exact absurd hbase (by decide)
  rw [join, if_neg (by simp [not_isAbsolute_of_onePart h, hne])]
  split
  · exact ⟨name, rfl⟩
  · exact ⟨"/" ++ name, String.append_assoc⟩

theorem isAbsolute_append (hbase : base ≠ "") (rest : String) :
    isAbsolute (base ++ rest) = isAbsolute base := by
  have hne : base.toList ≠ [] := fun hnil => hbase (String.toList_eq_nil_iff.mp hnil)
  rw [isAbsolute, isAbsolute, String.toList_append, List.head?_append_of_ne_nil _ hne]

theorem isAbsolute_join_eq (hname : ¬ isAbsolute name) (base : String) :
    isAbsolute (join base name) = isAbsolute base := by
  rw [join]
  split
  case isTrue hjoin =>
    rw [hjoin.resolve_left hname, Bool.eq_false_iff.mpr hname]
    rfl
  case isFalse hjoin =>
    obtain ⟨-, hbase⟩ := not_or.mp hjoin
    split
    · exact isAbsolute_append hbase name
    · rw [String.append_assoc, isAbsolute_append hbase]

theorem isAbsolute_join (hbase : isAbsolute base) (hname : ¬ isAbsolute name) :
    isAbsolute (join base name) :=
  (isAbsolute_join_eq hname base).trans hbase

/-- A joined path stands for what has the name, not for a directory. -/
theorem not_endsInSlash_join (h : OnePart name) : ¬ endsInSlash (join base name) := by
  have hlist : name.toList ≠ [] := fun hnil => h.ne_empty (String.toList_eq_nil_iff.mp hnil)
  have hlast : (join base name).toList.getLast? = some (name.toList.getLast hlist) := by
    rw [join]
    split
    · exact List.getLast?_eq_some_getLast hlist
    · split <;>
        rw [String.toList_append, List.getLast?_append, List.getLast?_eq_some_getLast hlist,
          Option.some_or]
  rw [endsInSlash, hlast, decide_eq_true_eq, Option.some.injEq]
  intro hslash
  exact h.slash (hslash ▸ List.getLast_mem hlist)

/-! ## Parts -/

theorem parts_ne_nil (path : String) : parts path ≠ [] := by
  simpa [parts] using Text.splitOnChar_ne_nil '/' path.toList

theorem slash_not_mem_of_mem_parts {part : String} (h : part ∈ parts path) :
    '/' ∉ part.toList := by
  obtain ⟨run, hrun, rfl⟩ := List.mem_map.mp h
  rw [String.toList_ofList]
  exact Text.not_mem_of_mem_splitOnChar hrun

/-- A path is its parts with slashes between them. -/
theorem intercalate_parts (path : String) : "/".intercalate (parts path) = path := by
  apply String.toList_injective
  rw [String.toList_intercalate, parts, List.map_map]
  have hid : String.toList ∘ String.ofList = id := funext fun _ => String.toList_ofList
  rw [hid, List.map_id]
  exact Text.intercalate_splitOnChar '/' path.toList

theorem parts_intercalate (hne : ps ≠ []) (hps : ∀ part ∈ ps, '/' ∉ part.toList) :
    parts ("/".intercalate ps) = ps := by
  have hruns : ∀ run ∈ ps.map String.toList, '/' ∉ run := List.forall_mem_map.mpr hps
  rw [parts, String.toList_intercalate]
  change ((Text.splitOnChar '/' (['/'].intercalate (ps.map String.toList))).map _) = _
  rw [Text.splitOnChar_intercalate (by simpa using hne) hruns, List.map_map]
  have hid : String.ofList ∘ String.toList = id := funext fun _ => String.ofList_toList
  rw [hid, List.map_id]

/-- The path of all its parts. -/
theorem ofParts_parts (path : String) : ofParts (isAbsolute path) (parts path) = path := by
  unfold ofParts
  split
  case h_1 h => exact absurd h (parts_ne_nil path)
  case h_2 h =>
    have hempty : path = "" := by rw [← intercalate_parts path, h]; rfl
    rw [hempty]
    rfl
  case h_3 => exact intercalate_parts path

/-- A path starts at the root if its first part is empty and not the only one. -/
theorem isAbsolute_iff : isAbsolute path ↔ ∃ rest, rest ≠ [] ∧ parts path = "" :: rest := by
  rw [isAbsolute, decide_eq_true_eq, parts]
  cases path.toList with
  | nil => simp [Text.splitOnChar]
  | cons c cs =>
      rw [List.head?_cons, Option.some.injEq, Text.splitOnChar]
      split
      case isTrue hc =>
        exact iff_of_true hc ⟨_, by simpa using Text.splitOnChar_ne_nil '/' cs, rfl⟩
      case isFalse hc =>
        refine iff_of_false hc ?_
        rintro ⟨rest, -, h⟩
        split at h <;> simp at h

/-! ## Parts that count -/

/-- Parts of a path up to the last one that counts, and the parts after that one. -/
structure Trims (ps after : List String) : Prop where
  last : ∀ e ∈ ps.zipIdx.getLast?, counts (e.2 == 0) e.1
  after : ∀ e ∈ after.zipIdx ps.length, ¬ counts (e.2 == 0) e.1

variable {after : List String}

theorem exists_trims (path : String) :
    ∃ after, parts path = trimmed path ++ after ∧ Trims (trimmed path) after := by
  let idle (e : String × Nat) : Bool := !counts (e.2 == 0) e.1
  have hsplit : (parts path).zipIdx = ((parts path).zipIdx.reverse.dropWhile idle).reverse ++
      ((parts path).zipIdx.reverse.takeWhile idle).reverse := by
    rw [← List.reverse_append, List.takeWhile_append_dropWhile, List.reverse_reverse]
  obtain ⟨ps, after, hparts, hps, hafter⟩ := List.zipIdx_eq_append_iff.mp hsplit
  have htrimmed : trimmed path = ps := by
    rw [trimmed]
    change (((parts path).zipIdx.reverse.dropWhile idle).reverse.map Prod.fst) = ps
    rw [hps, List.zipIdx_map_fst]
  rw [htrimmed]
  refine ⟨after, hparts, fun e he => ?_, fun e he => ?_⟩
  · rw [← hps, List.getLast?_reverse] at he
    have hhead := List.head?_dropWhile_not idle (parts path).zipIdx.reverse
    rw [Option.mem_def.mp he] at hhead
    simpa [idle] using hhead
  · rw [Nat.zero_add] at hafter
    rw [← hafter, List.mem_reverse] at he
    simpa [idle] using List.mem_takeWhile_imp he

theorem trimmed_eq (hparts : parts path = ps ++ after) (h : Trims ps after) :
    trimmed path = ps := by
  have hafter : ∀ e ∈ (after.zipIdx ps.length).reverse, (!counts (e.2 == 0) e.1) = true :=
    fun e he => by simpa using h.after e (List.mem_reverse.mp he)
  rw [trimmed, hparts, List.zipIdx_append, List.reverse_append, Nat.zero_add,
    List.dropWhile_append_of_pos hafter]
  have hlast : (ps.zipIdx.reverse.dropWhile fun e => !counts (e.2 == 0) e.1) =
      ps.zipIdx.reverse := by
    cases hreverse : ps.zipIdx.reverse with
    | nil => rfl
    | cons e rest =>
        have hcounts := h.last e (by rw [← List.head?_reverse, hreverse]; rfl)
        rw [List.dropWhile_cons_of_neg (by simpa using hcounts)]
  rw [hlast, List.reverse_reverse, List.zipIdx_map_fst]

theorem countedParts_eq (path : String) : countedParts path =
    ((trimmed path).zipIdx.filter fun (part, i) => counts (i == 0) part).map Prod.fst := by
  obtain ⟨after, hparts, htrims⟩ := exists_trims path
  have hnone : ((after.zipIdx (trimmed path).length).filter
      fun (part, i) => counts (i == 0) part) = [] := List.filter_eq_nil_iff.mpr htrims.after
  rw [countedParts, hparts, List.zipIdx_append, List.filter_append, Nat.zero_add, hnone,
    List.append_nil]

/-- The last part that counts is the last one of the path as far as it counts. -/
theorem getLast?_countedParts (path : String) :
    (countedParts path).getLast? = (trimmed path).getLast? := by
  obtain ⟨after, -, htrims⟩ := exists_trims path
  have hfind : ((trimmed path).zipIdx.reverse.find? fun (part, i) => counts (i == 0) part) =
      (trimmed path).zipIdx.reverse.head? := by
    have hlast := htrims.last
    rw [← List.head?_reverse] at hlast
    cases hreverse : (trimmed path).zipIdx.reverse with
    | nil => rfl
    | cons e rest =>
        rw [hreverse] at hlast
        exact List.find?_cons_of_pos (hlast e rfl)
  rw [countedParts_eq, List.getLast?_map, List.getLast?_filter, hfind, List.head?_reverse,
    ← List.getLast?_map, List.zipIdx_map_fst]

theorem same_refl (path : String) : same path path := by
  rw [same, beq_self_eq_true, beq_self_eq_true, Bool.and_self]

/-- Paths with the same parts have the same name. -/
theorem fileName?_eq_of_same (h : same a b) : fileName? a = fileName? b := by
  have hparts : countedParts a = countedParts b := by
    rw [same, Bool.and_eq_true, beq_iff_eq, beq_iff_eq] at h
    exact h.2
  rw [fileName?, fileName?, ← getLast?_countedParts, ← getLast?_countedParts, hparts]

/-! ## The end of a path -/

/-- A part that counts is not empty. -/
theorem ne_empty_of_trims {rest : List String} (h : Trims ("" :: rest) after) : rest ≠ [] := by
  rintro rfl
  exact absurd (h.last ("", 0) rfl) (by decide)

theorem parts_normalEnd (h : trimmed path ≠ []) : parts (normalEnd path) = trimmed path := by
  obtain ⟨after, hparts, htrims⟩ := exists_trims path
  have hslash : ∀ part ∈ trimmed path, '/' ∉ part.toList := fun part hpart =>
    slash_not_mem_of_mem_parts (hparts ▸ List.mem_append_left after hpart : part ∈ parts path)
  rw [normalEnd, ofParts.eq_def]
  split
  case h_1 hnil => exact absurd hnil h
  case h_2 hempty => exact absurd rfl (ne_empty_of_trims (hempty ▸ htrims))
  case h_3 => exact parts_intercalate h hslash

theorem isAbsolute_normalEnd (path : String) : isAbsolute (normalEnd path) = isAbsolute path := by
  by_cases hnil : trimmed path = []
  · rw [normalEnd, hnil, ofParts]
    cases isAbsolute path <;> rfl
  · obtain ⟨after, hparts, htrims⟩ := exists_trims path
    rw [Bool.eq_iff_iff, isAbsolute_iff, isAbsolute_iff, parts_normalEnd hnil, hparts]
    obtain ⟨first, rest, hcons⟩ := List.exists_cons_of_ne_nil hnil
    rw [hcons] at htrims ⊢
    rw [List.cons_append]
    constructor
    · rintro ⟨rest', hne, heq⟩
      obtain ⟨rfl, rfl⟩ := List.cons.inj heq
      exact ⟨rest ++ after, List.append_ne_nil_of_left_ne_nil hne after, rfl⟩
    · rintro ⟨rest', -, heq⟩
      obtain ⟨rfl, -⟩ := List.cons.inj heq
      exact ⟨rest, ne_empty_of_trims htrims, rfl⟩

/-- What follows the last part that counts makes no difference to a path. -/
theorem same_normalEnd (path : String) : same (normalEnd path) path := by
  rw [same, isAbsolute_normalEnd, beq_self_eq_true, Bool.true_and, beq_iff_eq]
  by_cases hnil : trimmed path = []
  · rw [countedParts_eq path, normalEnd, hnil, ofParts]
    cases isAbsolute path <;> decide
  · obtain ⟨after, -, htrims⟩ := exists_trims path
    have hparts := parts_normalEnd hnil
    have htrimmed : trimmed (normalEnd path) = trimmed path :=
      trimmed_eq (hparts.trans (List.append_nil _).symm) ⟨htrims.last, by simp⟩
    rw [countedParts_eq, htrimmed, countedParts_eq]

/-! ## What was joined -/

theorem trims_concat (hname : FileTree.Plain name) (ps : List String) :
    Trims (ps ++ [name]) [] := by
  refine ⟨fun e he => ?_, by simp⟩
  rw [List.zipIdx_append, List.getLast?_append] at he
  cases he
  simp [counts, hname.ne_empty, hname.ne_here]

/-- A slash at the end makes no difference, except alone. -/
theorem normalEnd_append_slash (hbase : base ≠ "") :
    normalEnd (base ++ "/") = normalEnd base := by
  obtain ⟨after, hparts, htrims⟩ := exists_trims base
  have hlater : parts (base ++ "/") = trimmed base ++ (after ++ [""]) := by
    rw [← String.append_empty (s := base ++ "/"), parts_append_slash, hparts, List.append_assoc]
    rfl
  have htrimmed : trimmed (base ++ "/") = trimmed base := by
    refine trimmed_eq hlater ⟨htrims.last, fun e he => ?_⟩
    rw [List.zipIdx_append] at he
    rcases List.mem_append.mp he with hold | hnew
    · exact htrims.after e hold
    · rw [List.zipIdx_singleton, List.mem_singleton] at hnew
      simp [hnew, counts]
  rw [normalEnd, normalEnd, htrimmed, isAbsolute_append hbase]

/-- A path that is joined with a name has the name as its last part, and before it the parts of
the path that it was joined to. -/
theorem exists_parts_join (h : OnePart name) (base : String) :
    ∃ ps, parts (join base name) = ps ++ [name] ∧
      normalEnd (ofParts (isAbsolute base) ps) = normalEnd base := by
  by_cases hempty : base = ""
  · refine ⟨[], ?_, by rw [hempty]; rfl⟩
    rw [join, if_pos (.inr hempty), parts_of_onePart h, List.nil_append]
  rw [join, if_neg (by simp [not_isAbsolute_of_onePart h, hempty])]
  split
  case isTrue hlast =>
    obtain ⟨front, rfl⟩ := exists_append_slash hlast
    refine ⟨parts front, ?_, ?_⟩
    · rw [parts_append_slash, parts_of_onePart h]
    · by_cases hroot : front = ""
      · rw [hroot]
        rfl
      · rw [isAbsolute_append hroot, ofParts_parts, normalEnd_append_slash hroot]
  case isFalse =>
    refine ⟨parts base, ?_, by rw [ofParts_parts]⟩
    rw [parts_append_slash, parts_of_onePart h]

theorem trimmed_join (h : OnePart name) (base : String) :
    trimmed (join base name) = parts (join base name) := by
  obtain ⟨ps, hparts, -⟩ := exists_parts_join h base
  rw [hparts]
  exact trimmed_eq (by rw [hparts, List.append_nil]) (trims_concat h.toPlain ps)

/-- A joined path is nothing but what was joined. -/
theorem normalEnd_join (h : OnePart name) (base : String) :
    normalEnd (join base name) = join base name := by
  rw [normalEnd, trimmed_join h, ofParts_parts]

theorem fileName?_join (h : OnePart name) (base : String) :
    fileName? (join base name) = some name := by
  obtain ⟨ps, hparts, -⟩ := exists_parts_join h base
  simp only [fileName?, trimmed_join h, hparts, List.getLast?_concat]
  rw [if_neg (by simp [h.ne_here, h.ne_above])]

theorem parent?_join (h : OnePart name) (base : String) :
    parent? (join base name) = some (normalEnd base) := by
  obtain ⟨ps, hparts, hend⟩ := exists_parts_join h base
  have hne : ps ++ [name] ≠ [] := List.append_ne_nil_of_right_ne_nil _ (List.cons_ne_nil _ _)
  rw [parent?.eq_def, trimmed_join h, hparts]
  split
  case h_1 hnil => exact absurd hnil hne
  case h_2 => rw [List.dropLast_concat, isAbsolute_join_eq (not_isAbsolute_of_onePart h), hend]

end Path

end Montage
