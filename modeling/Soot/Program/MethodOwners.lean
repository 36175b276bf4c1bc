import Soot.Program.ScriptElements

/-!
# Whose method a function is

A function whose name is the name of a type, a hyphen and the name of a method implements that
method. The compiler adds it to the file that declares the type; the binary builder enters it in
the method tables of the types of a file.
-/

set_option autoImplicit false

namespace Soot.Program

/-- What a `FileNode` says about types: those of its type declarations and those of its state
scripts, in order. -/
structure FileTypes where
  name : String
  declared : List String
  stateScripts : List String

def methodPrefix (typeName : String) : String := typeName ++ "-"

/-- `rfind(prefix, 0) == 0`. -/
def hasMethodPrefix (typeName fnName : String) : Bool :=
  (methodPrefix typeName).toList.isPrefixOf fnName.toList

/-! ## The compiler -/

/-- One type declaration of the owner search: the owner and `best_prefix_len`. -/
def considerType (fnName : String) (file : FileTypes) (found : Option FileTypes × ℕ)
    (typeName : String) : Option FileTypes × ℕ :=
  if hasMethodPrefix typeName fnName && (methodPrefix typeName).length > found.2 then
    (some file, (methodPrefix typeName).length)
  else found

/-- The owner search over the files, in the order of the iteration.
SRCLINE: Compiler.cpp:797-815 -/
def ownerSearch (files : List FileTypes) (fnName : String) : Option FileTypes × ℕ :=
  files.foldl (fun found file => file.declared.foldl (considerType fnName file) found) (none, 0)

/-! ## The binary builder -/

/-- One element of the first pass, for one type: the running offset and `method_offsets`, the last
entry of a name first. -/
def recordMethod (typeName : String) (pass : ℕ × List (String × ℕ)) (element : String × ℕ) :
    ℕ × List (String × ℕ) :=
  (pass.1 + element.2,
    if hasMethodPrefix typeName element.1 then
      (String.ofList (element.1.toList.drop (methodPrefix typeName).length), pass.1) :: pass.2
    else pass.2)

/-- The first pass of `make_binary` for one type, over the names and sizes of the elements.
SRCLINE: FileNode.cpp:842-867 -/
def methodOffsets (typeName : String) (totalEntries : ℕ) (elements : List (String × ℕ)) :
    List (String × ℕ) :=
  (elements.foldl (recordMethod typeName) (tableStart + totalEntries * tableEntrySize, [])).2

/-- The types whose method tables `make_binary` fills. SRCLINE: FileNode.cpp:783-805 -/
def FileTypes.tables (file : FileTypes) : List String := file.declared ++ file.stateScripts

/-- The record of a method in the table of a type of a file; a type that is not a structure has no
table. SRCLINE: FileNode.cpp:146-157, 171-195, 295-311 -/
def tableRecord (ts : TypeSystem) (totalEntries : ℕ) (elements : List (String × ℕ))
    (typeName : String) (t : SootType) (id : ℕ) : Option (Except TypeFault MethodRecord) :=
  if t.fields.isSome then
    some (methodRecord ts
      (fun method => (methodOffsets typeName totalEntries elements).lookup method) typeName t id)
  else none

end Soot.Program
