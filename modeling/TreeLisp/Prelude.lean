import TreeLisp.FileSystem

/-!
# The core prelude

Functions that every session starts with, unless it is told otherwise, written in the language
itself.
-/
namespace TreeLisp.Prelude

def fileName : String := "core.lisp"

def core : String :=
"(defn inc (x) (+ x 1))
(defn dec (x) (- x 1))
(defn identity (x) x)

(defn second (xs) (first (rest xs)))
"

/-- The file system with the core prelude in the directory that it is packaged in. -/
def installed (packaged : Path) (files : FileSystem) : FileSystem :=
  ⟨fun p =>
    if p = packaged then .ok .directory
    else if p = packaged.child fileName then .ok (.file (.ok core))
    else files.look p⟩

end TreeLisp.Prelude
