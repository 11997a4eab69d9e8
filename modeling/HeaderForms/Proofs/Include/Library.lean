-- SUMMARY: What including a library file does: which file it includes, and when it fails.
import Mathlib.Data.List.TakeWhile
import HeaderForms.File.Tree
import HeaderForms.Include.Basic
import HeaderForms.Proofs.Include.Resolver

/-!
# Library includes

A library file is looked for on the search path first, and then it is included as any other file.
Otherwise its name is split at the first slash, into the name of a library and the path of a file
in the directory of that library. Whether the file is read as a header is told by the whole name.
-/

namespace HeaderForms

/-! ## Names -/

theorem splitLibrary_append {app : String} (rest : String) (happ : '/' ∉ app.toList) :
    splitLibrary (app ++ "/" ++ rest) = some (app, rest) := by
  have hall : ∀ c ∈ app.toList, decide (c ≠ '/') = true := fun c hc =>
    decide_eq_true fun heq => happ (heq ▸ hc)
  have hchars : (app ++ "/" ++ rest).toList = app.toList ++ '/' :: rest.toList := by simp
  simp only [splitLibrary, hchars, List.takeWhile_append_of_pos hall,
    List.dropWhile_append_of_pos hall]
  simp

theorem splitLibrary_eq_none {name : String} (h : '/' ∉ name.toList) :
    splitLibrary name = none := by
  have hnil : name.toList.dropWhile (· ≠ '/') = [] :=
    List.dropWhile_eq_nil_iff.2 fun c hc => decide_eq_true fun heq => h (heq ▸ hc)
  simp only [splitLibrary, hnil]

theorem splitLibrary_eq_some_iff {name app rest : String} :
    splitLibrary name = some (app, rest) ↔ name = app ++ "/" ++ rest ∧ '/' ∉ app.toList := by
  constructor
  · intro h
    by_cases hslash : '/' ∈ name.toList
    · obtain ⟨front, behind, hname, hfront⟩ := List.eq_append_cons_of_mem hslash
      have happ : '/' ∉ (String.ofList front).toList := by simpa using hfront
      have heq : name = String.ofList front ++ "/" ++ String.ofList behind := by
        rw [← String.toList_inj]
        simp [hname]
      rw [heq, splitLibrary_append _ happ] at h
      cases h
      exact ⟨heq, happ⟩
    · rw [splitLibrary_eq_none hslash] at h
      cases h
  · rintro ⟨rfl, happ⟩
    exact splitLibrary_append rest happ

/-! ## Files in libraries -/

/-- The name has a library in front of its first slash, and this is the file that the path behind
the slash stands for in the directory of that library. -/
def InLibrary (files : FileSystem Id) (roots : List String) (name path : String) : Prop :=
  ∃ app rest dir, app ≠ "" ∧ '/' ∉ app.toList ∧ name = app ++ "/" ++ rest ∧
    (Resolver.libDir files app roots).run = some dir ∧
    (Resolver.resolve files [dir] rest).run = some path

namespace Includer

variable {files : FileSystem Id} {config : Config}

theorem resolveLibrary_eq_some_iff {name path : String} :
    ((ofFiles files config).resolveLibrary name).run = some path ↔
      InLibrary files config.libRoots name path := by
  unfold resolveLibrary
  cases hsplit : splitLibrary name with
  | none =>
    refine iff_of_false nofun ?_
    rintro ⟨app, rest, dir, -, happ, hname, -⟩
    rw [splitLibrary_eq_some_iff.2 ⟨hname, happ⟩] at hsplit
    cases hsplit
  | some found =>
    obtain ⟨app, rest⟩ := found
    have hmatch : InLibrary files config.libRoots name path ↔ app ≠ "" ∧ ∃ dir,
        (Resolver.libDir files app config.libRoots).run = some dir ∧
        (Resolver.resolve files [dir] rest).run = some path := by
      constructor
      · rintro ⟨app', rest', dir, hne, happ, hname, hdir, hpath⟩
        rw [splitLibrary_eq_some_iff.2 ⟨hname, happ⟩] at hsplit
        cases hsplit
        exact ⟨hne, dir, hdir, hpath⟩
      · rintro ⟨hne, dir, hdir, hpath⟩
        obtain ⟨hname, happ⟩ := splitLibrary_eq_some_iff.1 hsplit
        exact ⟨app, rest, dir, hne, happ, hname, hdir, hpath⟩
    rw [hmatch]
    by_cases hempty : app = ""
    · simp [hempty]
    · cases hdir : (Resolver.libDir files app config.libRoots).run with
      | none => simp [hempty, ofFiles, hdir]
      | some dir => simp [hempty, ofFiles, hdir]

theorem run_file (includer : Includer Id) (name : String) (session : Session) :
    (includer.file [.string name] session).run =
      match (includer.resolve session.includePath name).run with
      | some path => (includer.includeFound path name session).run
      | none => .failed (session.addError (.missing .file name)) := by
  cases h : (includer.resolve session.includePath name).run <;> simp [file, includeName, h]

theorem run_lib (includer : Includer Id) (name : String) (session : Session) :
    (includer.lib [.string name] session).run =
      match (includer.resolve session.includePath name).run with
      | some path => (includer.includeFound path name session).run
      | none =>
        match (includer.resolveLibrary name).run with
        | some path => (includer.includeFound path name session).run
        | none => .failed (session.addError (.missing .lib name)) := by
  cases h : (includer.resolve session.includePath name).run with
  | some path => simp [lib, includeName, h]
  | none =>
    cases h' : (includer.resolveLibrary name).run <;> simp [lib, includeName, h, h']

/-- A library file that is on the search path is included as any file is. Another is included from
the directory of its library if it is there, and fails with one error otherwise. The directory is
that of the first root that has any, and it is there without a version or with the highest. -/
theorem lib_ofFiles (files : FileSystem Id) (config : Config) (session : Session) (name : String) :
    let includer := ofFiles files config
    let found := (Resolver.resolve files session.includePath name).run
    let outcome := (includer.lib [.string name] session).run
    (found ≠ none → outcome = (includer.file [.string name] session).run) ∧
      (found = none → ∀ path, InLibrary files config.libRoots name path →
        outcome = (if config.isHeader name then includer.includeHeader path session
          else includer.includeNative path session).run) ∧
      (found = none → (∀ path, ¬ InLibrary files config.libRoots name path) →
        outcome = .failed (session.addError (.missing .lib name))) ∧
      ∀ app, Resolver.Locates files app config.libRoots
        (Resolver.libDir files app config.libRoots).run := by
  intro includer found outcome
  have hlib : outcome = _ := run_lib includer name session
  have hresolve : (includer.resolve session.includePath name).run = found := rfl
  rw [hresolve] at hlib
  refine ⟨fun hfound => ?_, fun hfound path hpath => ?_, fun hfound hnone => ?_,
    fun app => Resolver.locates_libDir config.libRoots⟩
  · obtain ⟨path, hpath⟩ := Option.ne_none_iff_exists'.1 hfound
    rw [hlib, run_file, hresolve, hpath]
  · rw [hlib, hfound, resolveLibrary_eq_some_iff.2 hpath]
    rfl
  · have hlibrary : (includer.resolveLibrary name).run = none :=
      Option.eq_none_iff_forall_ne_some.2 fun path hpath =>
        hnone path (resolveLibrary_eq_some_iff.1 hpath)
    rw [hlib, hfound, hlibrary]

/-- Three roots. The first has no directory of the library `foo`, though the names in it start like
one, the second has three with versions, and the third has one without. -/
def libraryTree : FileTree :=
  let header : FileTree := .dir [("x.hrl", .file (some "-a(b)."))]
  .dir [("a", .dir [("foo-x", header), ("foobar-9", header), ("foo-8", .file none)]),
    ("b", .dir [("foo-1.9", header), ("foo-1.10", header), ("foo-1.2.30", header)]),
    ("c", .dir [("foo", header)])]

def libraryConfig : Config :=
  { Config.default with libRoots := ["a", "b", "c"] }

theorem lib_ofFiles_sample :
    let includer := ofFiles libraryTree.fileSystem libraryConfig
    let session := Session.initial.withIncludePath ["c/foo"]
    (includer.lib [.string "x.hrl"] session).run = (includer.file [.string "x.hrl"] session).run ∧
      (includer.lib [.string "foo/x.hrl"] session).run =
        (includer.includeHeader "b/foo-1.10/x.hrl" session).run ∧
      (includer.lib [.string "foo/y.hrl"] session).run =
        .failed (session.addError (.missing .lib "foo/y.hrl")) := by
  intro includer session
  have hlatest : (Resolver.libDir libraryTree.fileSystem "foo" libraryConfig.libRoots).run =
      some "b/foo-1.10" := by decide +kernel
  refine ⟨(lib_ofFiles _ libraryConfig session "x.hrl").1 (by decide +kernel), ?_, ?_⟩
  · have hpath : InLibrary libraryTree.fileSystem libraryConfig.libRoots "foo/x.hrl"
        "b/foo-1.10/x.hrl" :=
      ⟨"foo", "x.hrl", "b/foo-1.10", by decide, by decide, by decide +kernel, hlatest,
        by decide +kernel⟩
    exact (lib_ofFiles _ libraryConfig session "foo/x.hrl").2.1 (by decide +kernel) _ hpath
  · refine (lib_ofFiles _ libraryConfig session "foo/y.hrl").2.2.1 (by decide +kernel) ?_
    intro path hpath
    have hnone : (includer.resolveLibrary "foo/y.hrl").run = none := by decide +kernel
    cases hnone.symm.trans (resolveLibrary_eq_some_iff.2 hpath)

end Includer

end HeaderForms
