-- SUMMARY: Which directory a library has below the library roots.
import Mathlib.Data.List.Lex
import HeaderForms.Include.Resolver

/-!
# Directories of libraries

A library has a directory below a root when one is there under its name, or under its name with a
version behind it. The first root that has one decides, whatever is below the later ones. There the
directory without a version is taken, and else one whose version no other exceeds, in whatever
order the names below the root come.
-/

namespace HeaderForms.Resolver

open Numeral

/-! ## Versions -/

/-- The text is made of numbers below 2^64 with points between them, and these are the numbers. -/
def IsVersion (text : List Char) (version : List Nat) : Prop :=
  ∃ parts : List (List Char), parts ≠ [] ∧ text = ['.'].intercalate parts ∧
    parts.mapM (below? (Nat.pow 2 64) 10) = some version

/-- The name is that of the library with a dash and a version behind it. -/
def IsVersioned (app name : String) (version : List Nat) : Prop :=
  ∃ text, name.toList = app.toList ++ '-' :: text ∧ IsVersion text version

theorem point_notMem_of_below? {bound n : Nat} {part : List Char}
    (h : below? bound 10 part = some n) : '.' ∉ part := by
  intro hmem
  obtain ⟨value, hvalue, -⟩ := Option.bind_eq_some_iff.1 h
  have hdigits : (stripPlus part).all (isDigitOf 10) = true := by
    unfold natural? at hvalue
    split at hvalue
    case isTrue hall => exact (Bool.and_eq_true_iff.1 hall).2
    case isFalse => cases hvalue
  have hpoint : '.' ∈ stripPlus part := by
    unfold stripPlus
    split
    case h_1 digits => exact (List.mem_cons.1 hmem).resolve_left (by decide)
    case h_2 => exact hmem
  exact absurd (List.all_eq_true.1 hdigits '.' hpoint) (by decide)

theorem exists_number_of_mem {parts : List (List Char)} {version : List Nat}
    (h : parts.mapM (below? (Nat.pow 2 64) 10) = some version) :
    ∀ part ∈ parts, ∃ n, below? (Nat.pow 2 64) 10 part = some n := by
  induction parts generalizing version with
  | nil => exact List.forall_mem_nil _
  | cons part parts ih =>
    rw [List.mapM_cons] at h
    obtain ⟨n, hn, h⟩ := Option.bind_eq_some_iff.1 h
    obtain ⟨others, hothers, -⟩ := Option.bind_eq_some_iff.1 h
    exact List.forall_mem_cons.2 ⟨⟨n, hn⟩, ih hothers⟩

theorem version?_eq_some_iff {text : List Char} {version : List Nat} :
    version? text = some version ↔ IsVersion text version := by
  constructor
  · intro h
    exact ⟨text.splitOn '.', List.splitOn_ne_nil _ _, (List.intercalate_splitOn '.').symm, h⟩
  · rintro ⟨parts, hne, rfl, hparts⟩
    have hpoint : ∀ part ∈ parts, '.' ∉ part := by
      intro part hpart
      obtain ⟨n, hn⟩ := exists_number_of_mem hparts part hpart
      exact point_notMem_of_below? hn
    rw [version?, List.splitOn_intercalate '.' hpoint hne, hparts]

theorem versionOf?_eq_some_iff {app name : String} {version : List Nat} :
    versionOf? app name = some version ↔ IsVersioned app name version := by
  simp only [versionOf?, List.isPrefixOf_iff_prefix]
  constructor
  · intro h
    split at h
    case isFalse => cases h
    case isTrue hprefix =>
      obtain ⟨text, htext⟩ := hprefix
      rw [← htext, List.drop_left] at h
      exact ⟨text, by simp [← htext], version?_eq_some_iff.1 h⟩
  · rintro ⟨text, htext, hversion⟩
    have hname : name.toList = (app.toList ++ ['-']) ++ text := by simp [htext]
    rw [hname, if_pos (List.prefix_append _ _), List.drop_left]
    exact version?_eq_some_iff.2 hversion

/-- Versions are compared number by number, and a shorter one that agrees is lower. -/
theorem versionLe_iff {first second : List Nat} :
    versionLe first second = true ↔ first ≤ second := by
  fun_induction versionLe first second with
  | case1 second =>
    refine iff_of_true rfl ?_
    cases second with
    | nil => exact le_rfl
    | cons b bs => exact le_of_lt (List.nil_lt_cons b bs)
  | case2 a as => exact iff_of_false Bool.false_ne_true (not_le_of_gt (List.nil_lt_cons a as))
  | case3 a as b bs ih =>
    rw [le_iff_lt_or_eq, List.cons_lt_cons_iff, Bool.or_eq_true, Bool.and_eq_true, ih,
      le_iff_lt_or_eq, decide_eq_true_iff, decide_eq_true_iff, List.cons.injEq]
    tauto

/-! ## The latest candidate -/

theorem le_later_left (first second : List Nat × String) : first.1 ≤ (later first second).1 := by
  unfold later
  split
  case isTrue h => exact versionLe_iff.1 h
  case isFalse => exact le_refl _

theorem le_later_right (first second : List Nat × String) : second.1 ≤ (later first second).1 := by
  unfold later
  split
  case isTrue => exact le_refl _
  case isFalse h => exact (le_total _ _).resolve_left fun hle => h (versionLe_iff.2 hle)

theorem later_eq_or (first second : List Nat × String) :
    later first second = first ∨ later first second = second := by
  unfold later
  split
  case isTrue => exact .inr rfl
  case isFalse => exact .inl rfl

theorem foldl_later (rest : List (List Nat × String)) (candidate : List Nat × String) :
    rest.foldl later candidate ∈ candidate :: rest ∧
      ∀ other ∈ candidate :: rest, other.1 ≤ (rest.foldl later candidate).1 := by
  induction rest generalizing candidate with
  | nil => simp
  | cons next rest ih =>
    obtain ⟨hmem, hle⟩ := ih (later candidate next)
    obtain ⟨hfirst, hrest⟩ := List.forall_mem_cons.1 hle
    rw [List.foldl_cons]
    constructor
    · rcases List.mem_cons.1 hmem with heq | hmem
      · rw [heq]
        rcases later_eq_or candidate next with h | h <;> simp [h]
      · simp [hmem]
    · refine List.forall_mem_cons.2 ⟨?_, List.forall_mem_cons.2 ⟨?_, hrest⟩⟩
      · exact le_trans (le_later_left candidate next) hfirst
      · exact le_trans (le_later_right candidate next) hfirst

/-- There is a latest candidate unless there is none, and no candidate is later. -/
theorem latest?_cases (candidates : List (List Nat × String)) :
    (candidates = [] ∧ latest? candidates = none) ∨
      ∃ latest ∈ candidates, latest? candidates = some latest ∧
        ∀ other ∈ candidates, other.1 ≤ latest.1 := by
  cases candidates with
  | nil => exact .inl ⟨rfl, rfl⟩
  | cons candidate rest =>
    obtain ⟨hmem, hle⟩ := foldl_later rest candidate
    exact .inr ⟨_, hmem, rfl, hle⟩

/-! ## Roots -/

variable (files : FileSystem Id) (app : String)

/-- There is a directory below the root under the name of the library and a version. -/
structure HasVersion (root name : String) (version : List Nat) : Prop where
  listed : name ∈ (files.entries root).run
  isDir : (files.isDir (Path.join root name)).run = true
  versioned : IsVersioned app name version

/-- The library has a directory below the root. -/
def Has (root : String) : Prop :=
  (files.isDir (Path.join root app)).run = true ∨
    ∃ name version, HasVersion files app root name version

/-- The directory of the library below a root that has one. -/
inductive Takes (root : String) : String → Prop where
  | plain (hplain : (files.isDir (Path.join root app)).run = true) :
    Takes root (Path.join root app)
  | latest {name : String} {version : List Nat}
    (hplain : (files.isDir (Path.join root app)).run = false)
    (hversion : HasVersion files app root name version)
    (hlatest : ∀ other version', HasVersion files app root other version' → version' ≤ version) :
    Takes root (Path.join root name)

/-- The directory of the library, which is below the first root that has one. -/
inductive Locates : List String → Option String → Prop where
  | nowhere {roots : List String} (hroots : ∀ root ∈ roots, ¬ Has files app root) :
    Locates roots none
  | below {before after : List String} {root dir : String}
    (hbefore : ∀ earlier ∈ before, ¬ Has files app earlier) (hdir : Takes files app root dir) :
    Locates (before ++ root :: after) (some dir)

variable {files app}

theorem Takes.has {root dir : String} (h : Takes files app root dir) : Has files app root := by
  cases h with
  | plain hplain => exact .inl hplain
  | latest _ hversion => exact .inr ⟨_, _, hversion⟩

theorem Locates.cons {root : String} {roots : List String} {found : Option String}
    (hroot : ¬ Has files app root) (h : Locates files app roots found) :
    Locates files app (root :: roots) found := by
  cases h with
  | nowhere hroots => exact .nowhere (List.forall_mem_cons.2 ⟨hroot, hroots⟩)
  | @below before after other dir hbefore hdir =>
    have hearlier : ∀ earlier ∈ root :: before, ¬ Has files app earlier :=
      List.forall_mem_cons.2 ⟨hroot, hbefore⟩
    exact @Locates.below files app (root :: before) after other dir hearlier hdir

theorem mem_candidates {root : String} {names : List String} {version : List Nat} {path : String} :
    (version, path) ∈ (candidates files root app names).run ↔
      ∃ name ∈ names, versionOf? app name = some version ∧
        (files.isDir (Path.join root name)).run = true ∧ path = Path.join root name := by
  induction names with
  | nil => exact iff_of_false List.not_mem_nil (by simp)
  | cons name names ih =>
    rw [candidates]
    cases hversion : versionOf? app name with
    | none => simpa [hversion] using ih
    | some found =>
      cases hdir : (files.isDir (Path.join root name)).run with
      | false => simpa [hversion, hdir] using ih
      | true =>
        have hcons : (version, path) ∈ ((found, Path.join root name) ::
            (candidates files root app names).run) ↔
              (some found = some version ∧ path = Path.join root name) ∨
                ∃ name ∈ names, versionOf? app name = some version ∧
                  (files.isDir (Path.join root name)).run = true ∧ path = Path.join root name := by
          rw [List.mem_cons, ih, Prod.mk.injEq, Option.some.injEq, eq_comm (a := version)]
        simpa [hversion, hdir] using hcons

/-- The candidates below a root are the directories that have a version in their names. -/
theorem mem_candidates_entries {root path : String} {version : List Nat} :
    (version, path) ∈ (candidates files root app (files.entries root).run).run ↔
      ∃ name, HasVersion files app root name version ∧ path = Path.join root name := by
  rw [mem_candidates]
  constructor
  · rintro ⟨name, hlisted, hversion, hdir, rfl⟩
    exact ⟨name, ⟨hlisted, hdir, versionOf?_eq_some_iff.1 hversion⟩, rfl⟩
  · rintro ⟨name, h, rfl⟩
    exact ⟨name, h.listed, versionOf?_eq_some_iff.2 h.versioned, h.isDir, rfl⟩

/-- A root either has no directory of the library, or the one that is taken is answered. -/
theorem libDirBelow_cases (root : String) :
    (¬ Has files app root ∧ (libDirBelow files app root).run = none) ∨
      ∃ dir, Takes files app root dir ∧ (libDirBelow files app root).run = some dir := by
  cases hplain : (files.isDir (Path.join root app)).run with
  | true => exact .inr ⟨_, .plain hplain, by simp [libDirBelow, hplain]⟩
  | false =>
    have hbelow : (libDirBelow files app root).run =
        (latest? (candidates files root app (files.entries root).run).run).map (·.2) := by
      simp [libDirBelow, hplain]
    rw [hbelow]
    rcases latest?_cases (candidates files root app (files.entries root).run).run with
      ⟨hnone, hlatest⟩ | ⟨⟨version, path⟩, hmem, hlatest, hle⟩
    · refine .inl ⟨?_, by rw [hlatest]; rfl⟩
      rintro (hdir | ⟨name, version, hversion⟩)
      · exact absurd (hplain.symm.trans hdir) Bool.false_ne_true
      · have hmem := mem_candidates_entries.2 ⟨name, hversion, rfl⟩
        rw [hnone] at hmem
        exact List.not_mem_nil hmem
    · obtain ⟨name, hversion, rfl⟩ := mem_candidates_entries.1 hmem
      refine .inr ⟨_, .latest hplain hversion fun other version' hother => ?_, by rw [hlatest]; rfl⟩
      exact hle _ (mem_candidates_entries.2 ⟨other, hother, rfl⟩)

/-- The directory of a library is found, or there is none below any root. -/
theorem locates_libDir (roots : List String) :
    Locates files app roots (libDir files app roots).run := by
  induction roots with
  | nil => exact .nowhere (List.forall_mem_nil _)
  | cons root roots ih =>
    rcases @libDirBelow_cases files app root with ⟨hnot, hbelow⟩ | ⟨dir, hdir, hbelow⟩
    · have hlater : (libDir files app (root :: roots)).run = (libDir files app roots).run := by
        simp [libDir, hbelow]
      exact hlater.symm ▸ ih.cons hnot
    · have hfound : (libDir files app (root :: roots)).run = some dir := by
        simp [libDir, hbelow]
      rw [hfound]
      exact @Locates.below files app [] roots root dir (List.forall_mem_nil _) hdir

end HeaderForms.Resolver
