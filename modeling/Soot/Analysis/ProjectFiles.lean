import Soot.Model.Modules

/-!
# Where a required name is looked up

The search tries the directory of the requiring file, the current directory and that of the
executable before the root of the project.
-/

set_option autoImplicit false

namespace Soot.Analysis

open Soot.Computation Soot.Program Soot.Model

theorem find_append_bind {α β : Type} {p : α → Bool} {ref : α → Option β} {target : Option β}
    (extra : List α) {l : List α} (hextra : ∀ a ∈ extra, p a = true → ref a = target)
    (hl : (l.find? p).bind ref = target) : ((extra ++ l).find? p).bind ref = target := by
  rw [List.find?_append]
  cases hfound : extra.find? p with
  | none => exact hl
  | some a => exact hextra a (List.mem_of_find?_eq_some hfound) (List.find?_some hfound)

section Search

variable {files : ProjectFiles} {path : Text} (hdot : path.head? ≠ some (byte '.'))
  (hrelative : (PathName.ofText path).absolute = false)

include hdot hrelative

theorem resolveRequire_eq (places : RunPlaces) (origin : InputOrigin) (fromId : List Text) :
    files.resolveRequire places origin path fromId =
      ((((files.baseDir origin fromId).map fun dir =>
          lexicallyNormal (dir ++ (PathName.ofText path).parts)).toList ++
        [places.cwd ++ (PathName.ofText path).parts, places.exe ++ (PathName.ofText path).parts] ++
        ([files.projectRoot ++ (PathName.ofText path).parts] ++ files.searchPaths.map
          (fun dir => dir.within files.projectRoot ++ (PathName.ofText path).parts)) ++
        [places.config ++ (PathName.ofText path).parts,
          sharePlace ++ (PathName.ofText path).parts]).find? files.fileExists).bind
        files.moduleRef := by
  have hexplicit : ((text "./").isPrefixOf path || (text "../").isPrefixOf path) = false := by
    have hone : text "./" = byte '.' :: text "/" := by with_unfolding_all decide
    have htwo : text "../" = byte '.' :: text "./" := by with_unfolding_all decide
    rw [hone, htwo]
    cases path with
    | nil => rfl
    | cons c rest =>
      have hc : (byte '.' == c) = false := by
        rw [beq_eq_false_iff_ne]
        exact fun heq => hdot (by rw [heq]; rfl)
      simp [List.isPrefixOf, hc]
  simp [ProjectFiles.resolveRequire, ProjectFiles.findProjectFile, PathName.within, hrelative,
    hexplicit]

omit hdot in
variable (files) in
theorem rootModule_eq :
    rootModule files path =
      ((([files.projectRoot ++ (PathName.ofText path).parts] ++ files.searchPaths.map
          (fun dir => dir.within files.projectRoot ++ (PathName.ofText path).parts)) ++
        [sharePlace ++ (PathName.ofText path).parts]).find? files.fileExists).bind
        files.moduleRef := by
  simp [rootModule, PathName.within, hrelative]

theorem rootRelative_of_namedOnce (h : NamedOnce files path) : RootRelative files path := by
  have hall : ∀ places origin fromId,
      files.resolveRequire places origin path fromId = rootModule files path := by
    intro places origin fromId
    have hplain := fun dir => h dir _ List.mem_cons_self
    have hnormal := fun dir => h dir _ (List.mem_cons_of_mem _ (List.mem_singleton_self _))
    rw [resolveRequire_eq hdot hrelative, List.append_assoc]
    apply find_append_bind
    · intro place hplace
      simp only [List.mem_append, Option.mem_toList, Option.map_eq_some_iff, List.mem_cons,
        List.not_mem_nil, or_false] at hplace
      rcases hplace with ⟨base, hbase, rfl⟩ | rfl | rfl
      · have hwithin : ∃ dir, base = files.projectRoot ++ dir := by
          rw [ProjectFiles.baseDir] at hbase
          split_ifs at hbase
          · exact ⟨fromId.dropLast, (Option.some.inj hbase).symm⟩
          · exact ⟨[], by rw [List.append_nil, Option.some.inj hbase]⟩
        obtain ⟨dir, rfl⟩ := hwithin
        exact hnormal dir
      · exact hplain places.cwd
      · exact hplain places.exe
    · have hroot := rootModule_eq files hrelative
      rw [List.find?_append] at hroot ⊢
      cases hfound : List.find? files.fileExists
        ([files.projectRoot ++ (PathName.ofText path).parts] ++ files.searchPaths.map
          fun dir => dir.within files.projectRoot ++ (PathName.ofText path).parts) with
      | some place =>
        rw [hroot, hfound]
        rfl
      | none =>
        rw [hfound] at hroot
        apply find_append_bind [places.config ++ (PathName.ofText path).parts]
        · intro place hplace
          rw [List.mem_singleton.mp hplace]
          exact hplain places.config
        · exact hroot.symm
  intro places places' origin origin' fromId fromId'
  rw [hall, hall]

theorem namedOnce_of_rootRelative (h : RootRelative files path) : NamedOnce files path := by
  let home : RunPlaces := ⟨files.projectRoot, files.projectRoot, files.projectRoot⟩
  have hhome : files.resolveRequire home .Default path [] = rootModule files path := by
    rw [resolveRequire_eq hdot hrelative, rootModule_eq files hrelative]
    by_cases hexists : files.fileExists (files.projectRoot ++ (PathName.ofText path).parts) = true
    · simp [ProjectFiles.baseDir, home, hexists]
    · simp [ProjectFiles.baseDir, home, hexists, List.find?_append]
  intro dir place hplace hexists
  rcases List.mem_cons.mp hplace with rfl | hplace
  · -- The directory is the current one.
    rw [← hhome, h home ⟨dir, dir, dir⟩ .Default .Default [] [], resolveRequire_eq hdot hrelative]
    simp [ProjectFiles.baseDir, hexists]
  · -- The directory is that of the requiring file, or the root.
    obtain rfl := List.mem_singleton.mp hplace
    cases dir with
    | nil =>
      rw [List.append_nil] at hexists ⊢
      rw [← hhome, h home home .Default .Repl [] [], resolveRequire_eq hdot hrelative]
      simp [ProjectFiles.baseDir, hexists]
    | cons part dir =>
      have hbase : files.baseDir .Default (part :: dir ++ [[]]) =
          some (files.projectRoot ++ (part :: dir)) := by
        rw [ProjectFiles.baseDir, if_pos rfl, List.dropLast_concat, if_neg (List.cons_ne_nil _ _)]
      rw [List.append_assoc] at hexists
      rw [← hhome, h home home .Default .Default [] (part :: dir ++ [[]]),
        resolveRequire_eq hdot hrelative, hbase, Option.map_some, Option.toList_some,
        List.append_assoc, List.append_assoc, List.append_assoc, List.singleton_append,
        List.find?_cons_of_pos hexists]
      rfl

end Search

/-- A name that does not start with a dot is the same module in every run exactly when it has a
root, or when every file of that name, in whatever directory, is the module found from the root.
SRCLINE: Compiler.cpp:419-456, ProjectConfig.cpp:71-121 -/
theorem rootRelative_iff (files : ProjectFiles) {path : Text}
    (hdot : path.head? ≠ some (byte '.')) :
    RootRelative files path ↔ (PathName.ofText path).absolute = true ∨ NamedOnce files path := by
  by_cases habsolute : (PathName.ofText path).absolute = true
  · refine iff_of_true (fun places places' origin origin' fromId fromId' => ?_) (.inl habsolute)
    simp [ProjectFiles.resolveRequire, ProjectFiles.findProjectFile, habsolute]
  · rw [or_iff_right habsolute]
    rw [Bool.not_eq_true] at habsolute
    exact ⟨namedOnce_of_rootRelative hdot habsolute, rootRelative_of_namedOnce hdot habsolute⟩

/-- The only file of the project is in the root: its name is this file, wherever the compiler
runs. -/
theorem rootRelative_iff_single :
    (text "lib.sc").head? ≠ some (byte '.') ∧
      RootRelative ⟨fun place => place = [text "p", text "lib.sc"], id, [text "p"], []⟩
        (text "lib.sc") := by
  have hdot : (text "lib.sc").head? ≠ some (byte '.') := by with_unfolding_all decide
  refine ⟨hdot, (rootRelative_iff _ hdot).mpr (.inr ?_)⟩
  intro dir place _ hexists
  obtain rfl := of_decide_eq_true hexists
  with_unfolding_all decide

/-- A file in the root and one of the same name below it: the current directory decides. -/
theorem not_rootRelative_nested :
    ¬ ∀ files path, path.head? ≠ some (byte '.') → RootRelative files path := by
  intro h
  let root : FilePlace := [text "p"]
  let nested : FilePlace := [text "p", text "sub"]
  let files : ProjectFiles :=
    ⟨fun place => place = root ++ [text "lib.sc"] ∨ place = nested ++ [text "lib.sc"], id, root, []⟩
  have hsame := h files (text "lib.sc") (by with_unfolding_all decide) ⟨root, root, root⟩
    ⟨nested, nested, nested⟩ .Default .Default [] []
  exact absurd hsame (by with_unfolding_all decide)

end Soot.Analysis
