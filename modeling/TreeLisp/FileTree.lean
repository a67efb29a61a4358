import TreeLisp.FileSystem

/-!
# File trees

The file system of the directories and text files that are listed. Beyond them there are the roots,
the working directory and the directories above it. A directory that is closed may not be searched.
-/
namespace TreeLisp

/-- Directories and files with their contents, under paths in which two dots stand in front
only. -/
structure FileTree where
  dirs : List Path
  files : List (Path × String)
  closed : List Path

namespace FileTree

def leadsTo (place path : Path) : Bool :=
  place.anchor == path.anchor && place.names.isPrefixOf path.names

/-- A directory is listed, has something listed in it, or needs no listing. -/
def isDirAt (t : FileTree) (place : Path) : Bool :=
  place.names.all (· = "..") || t.dirs.any (leadsTo place) ||
    t.files.any fun f => leadsTo place f.1.parent

def longestName : Nat := 255

/-- Go along names; every place that is left for another one must be a directory. -/
def walk (t : FileTree) (place : Path) : List String → Except FileError Path
  | [] => .ok place
  | name :: later =>
    if t.isDirAt place then
      if t.closed.contains place then .error .denied
      else if longestName < name.utf8ByteSize then .error .tooLong
      else t.walk (place.enter name) later
    else if (t.files.lookup place).isSome then .error .notDirectory
    else .error .notFound

def look (t : FileTree) (p : Path) : Except FileError Node := do
  if FileSystem.longestPath < p.text.utf8ByteSize then throw .tooLong
  let place ← t.walk ⟨p.anchor, []⟩ p.names
  if t.isDirAt place then return .directory
  match t.files.lookup place with
  | some content => return .file (.ok content)
  | none => throw .notFound

def system (t : FileTree) : FileSystem :=
  ⟨t.look⟩

end FileTree

end TreeLisp
