import Soot.Program.Compiler
import Soot.Computation.Texts

/-!
# Files of a project

How the name in a `require` is looked up in the file system.
-/

set_option autoImplicit false

namespace Soot.Program

open Soot.Computation

/-- A directory or a file: the names from the root of the file system on. -/
abbrev FilePlace := List Text

/-- A `std::filesystem::path`, with or without a root. -/
structure PathName where
  absolute : Bool
  parts : List Text

namespace PathName

def ofText (s : Text) : PathName :=
  ⟨s.head? = some (byte '/'), (s.splitOn (byte '/')).filter (· ≠ [])⟩

/-- `operator/`, of a directory and a path. -/
def within (dir : FilePlace) (p : PathName) : FilePlace := if p.absolute then p.parts else dir ++ p.parts

end PathName

def lexicallyNormal (place : FilePlace) : FilePlace :=
  place.foldl (fun done part =>
    if part = text "." then done
    else if part = text ".." then done.dropLast
    else done ++ [part]) []

structure ProjectFiles where
  /-- `std::filesystem::exists` -/
  fileExists : FilePlace → Bool
  /-- `std::filesystem::weakly_canonical` -/
  canonical : FilePlace → FilePlace
  projectRoot : FilePlace
  searchPaths : List PathName

/-- Where a run finds itself: `CWD`, `EXE` and `CONFIG`. -/
structure RunPlaces where
  cwd : FilePlace
  exe : FilePlace
  config : FilePlace

/-- `get_path(PathType::SHARE)`. SRCLINE: ProjectConfig.cpp:47 -/
def sharePlace : FilePlace := [text "usr", text "local", text "share", text "soot"]

namespace ProjectFiles

variable (files : ProjectFiles)

/-- `make_module_id`: the path from the root of the project, or nothing where it throws.
SRCLINE: Compiler.cpp:349-371 -/
def makeModuleId (found : FilePlace) : Option (List Text) :=
  let root := files.canonical files.projectRoot
  let place := files.canonical found
  if root.isPrefixOf place then
    some (if place = root then [text "."] else place.drop root.length)
  else none

/-- `find_project_file`; the base directory is none where its path is empty.
SRCLINE: ProjectConfig.cpp:71-121 -/
def findProjectFile (places : RunPlaces) (filename : Text) (absBase : Option FilePlace) :
    Option FilePlace :=
  let file := PathName.ofText filename
  if file.absolute then [file.parts].find? files.fileExists
  else
    let based := (absBase.map fun dir => lexicallyNormal (file.within dir)).toList
    if (text "./").isPrefixOf filename || (text "../").isPrefixOf filename then
      based.find? files.fileExists
    else
      (based ++ [file.within places.cwd, file.within places.exe, file.within files.projectRoot] ++
        files.searchPaths.map (fun dir => file.within (dir.within files.projectRoot)) ++
        [file.within places.config, file.within sharePlace]).find? files.fileExists

/-- The base directory of a requiring file, which is given by its place in the project.
SRCLINE: Compiler.cpp:435-440 -/
def baseDir (origin : InputOrigin) (fromId : List Text) : Option FilePlace :=
  if origin = .Default then
    if fromId.dropLast = [] then none else some (files.projectRoot ++ fromId.dropLast)
  else some files.projectRoot

/-- `ModuleRef` of a file that was found. SRCLINE: Compiler.cpp:445-455 -/
def moduleRef (found : FilePlace) : Option (List Text × FilePlace) :=
  (files.makeModuleId found).map fun id => (id, files.canonical found)

/-- `resolve_require`. SRCLINE: Compiler.cpp:419-456 -/
def resolveRequire (places : RunPlaces) (origin : InputOrigin) (path : Text)
    (fromId : List Text) : Option (List Text × FilePlace) :=
  (files.findProjectFile places path (files.baseDir origin fromId)).bind files.moduleRef

end ProjectFiles

end Soot.Program
