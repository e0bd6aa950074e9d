import AssemblerIndex.Files.Wildcard
import AssemblerIndex.Library

/-!
# Directories as libraries

A member of a directory is a file named after it, with or without an extension.  The extension
and the letters in front of it may be written in any case, a name without one only as it is asked for.
Of several directories the first one with a match wins.
-/

namespace AssemblerIndex

/-- A path with a further name; an absolute name stands for itself. -/
def joinPath (directory name : String) : String :=
  if name.startsWith "/" ∨ directory.isEmpty then name
  else if directory.endsWith "/" then directory ++ name
  else directory ++ "/" ++ name

/-- The patterns under which a member is looked for in directories, in their order. -/
def memberPatterns (directories : List String) (name : String) : List String :=
  directories.flatMap fun d => [joinPath d name, joinPath d (name ++ ".*")]

/-- The member that a file holds. -/
def memberOfFile (file : List String × String) : LibraryMember :=
  { uri := (Uri.ofFile file.1).text, text := file.2 }

/-- The first file of a volume under which a member is found in directories. -/
def memberFile? (v : Volume) (directories : List String) (name : String) :
    Option (List String × String) :=
  (memberPatterns directories name).findSome? (Wildcard.findFile? v)

theorem mem_files_of_memberFile? {v : Volume} {directories : List String} {name : String}
    {file : List String × String} (h : memberFile? v directories name = some file) :
    file ∈ v.files := by
  obtain ⟨_, _, h⟩ := List.exists_of_findSome?_eq_some h
  exact Wildcard.mem_files_of_findFile? h

/-- The library of the files in directories of a volume. -/
def Library.ofDirectories (v : Volume) (directories : List String) : Library :=
  { find? := fun name => (memberFile? v directories name).map memberOfFile
    members := v.files.map memberOfFile
    mem_of_find? := fun _ _ h =>
      let ⟨_, hf, hm⟩ := Option.map_eq_some_iff.1 h
      hm ▸ List.mem_map_of_mem (mem_files_of_memberFile? hf) }

end AssemblerIndex
