import Stencil.Files.Path
import Stencil.Text.Split
import Stencil.Text.Utf8

/-!
Reading template files.

`ReadFault` lists the reasons why a path cannot be read as text. `FileTree` holds directories and
files by their absolute positions and reads a path by walking through its parts, as an operating
system does: every part but the last must be a directory, a slash at the end asks for a directory
too, and `..` goes up from where the walk stands.
-/

namespace Stencil

inductive ReadFault where
  | notFound
  | isADirectory
  | notADirectory
  /-- A part, or the whole path, is too long. -/
  | invalidFilename
  /-- The path holds a NUL. -/
  | invalidInput
  /-- The contents are not UTF-8. -/
  | invalidData
  deriving DecidableEq

def ReadFault.message : ReadFault → String
  | notFound => "No such file or directory (os error 2)"
  | isADirectory => "Is a directory (os error 21)"
  | notADirectory => "Not a directory (os error 20)"
  | invalidFilename => "File name too long (os error 36)"
  | invalidInput => "file name contained an unexpected NUL byte"
  | invalidData => "stream did not contain valid UTF-8"

/-- What templates are read from. -/
abbrev FileSource := Path → Except ReadFault String

/-- The names from the root to a file or directory. -/
abbrev Position := List String

structure FileTree where
  /-- The directory that relative paths start from. -/
  current : Position
  directories : List Position
  files : List (Position × List UInt8)

namespace FileTree

/-- The directories that lead to a position. -/
def above (p : Position) : List Position := (List.range p.length).map p.take

/-- A tree of the given files and of the directories above them and above the current one. -/
def ofFiles (current : Position) (files : List (Position × List UInt8)) : FileTree where
  current := current
  directories := current :: (current :: files.map (·.1)).flatMap above
  files := files.reverse

/-- The parts of a path text between slashes. -/
def parts (text : String) : List String := (pieces ['/'] text.toList).map String.ofList

/-- Whether a part of a path stays where it is. -/
def isIdle (part : String) : Bool := part == "" || part == "."

/-- The position of a file whose path is given from the current directory. -/
def positionOf (current : Position) (text : String) : Position :=
  current ++ (parts text).filter fun part => !isIdle part

def isDirectory (t : FileTree) (p : Position) : Bool := t.directories.contains p

def exists? (t : FileTree) (p : Position) : Bool := t.isDirectory p || (t.files.lookup p).isSome

/-- Where the parts lead to from a position. -/
def walk (t : FileTree) : Position → List String → Except ReadFault Position
  | p, [] => .ok p
  | p, part :: rest =>
    if !t.isDirectory p then .error .notADirectory
    else if isIdle part then walk t p rest
    else if part == ".." then walk t p.dropLast rest
    else if 255 < part.utf8ByteSize then .error .invalidFilename
    else
      let next := p ++ [part]
      if t.exists? next then walk t next rest else .error .notFound

/-- The bytes of the file that a path text names. -/
def bytes (t : FileTree) (text : String) : Except ReadFault (List UInt8) :=
  if text.toList.contains '\x00' then .error .invalidInput
  else if text == "" then .error .notFound
  else if 4096 ≤ text.utf8ByteSize then .error .invalidFilename
  else
    match t.walk (if text.toList.head? == some '/' then [] else t.current) (parts text) with
    | .error fault => .error fault
    | .ok p =>
      match t.files.lookup p with
      | some bytes => if t.isDirectory p then .error .isADirectory else .ok bytes
      | none => .error .isADirectory

def read (t : FileTree) : FileSource := fun path =>
  match t.bytes path.text with
  | .error fault => .error fault
  | .ok bytes =>
    match Utf8.read? bytes with
    | some text => .ok (String.ofList text)
    | none => .error .invalidData

end FileTree

end Stencil
