import StrategyDesk.Text.Bytes

/-!
This module contains the reading of text files, and trees of files that are held in memory. Paths
are followed from the root of the tree. What lies above the root is an empty directory, in which
absolute paths start.
-/

namespace StrategyDesk

inductive ReadError where
  | notFound
  | isDirectory
  | notDirectory
  | nameTooLong
  | nulInName
  | notText
  | described (reason : String)
  deriving Repr, DecidableEq

def ReadError.message : ReadError → String
  | .notFound => "No such file or directory (os error 2)"
  | .isDirectory => "Is a directory (os error 21)"
  | .notDirectory => "Not a directory (os error 20)"
  | .nameTooLong => "File name too long (os error 36)"
  | .nulInName => "file name contained an unexpected NUL byte"
  | .notText => "stream did not contain valid UTF-8"
  | .described reason => reason

inductive FileContent where
  | text (s : String)
  | bytes (bs : List UInt8)
  | directory

structure FileTree where
  files : List (List String × FileContent)

namespace FileTree

def parts (path : List Char) : List String :=
  (Text.segments '/' path).map String.ofList |>.filter fun part => part != "" && part != "."

def ofFiles (files : List (String × FileContent)) : FileTree where
  files := files.map fun (path, content) => (parts path.toList, content)

def at? (tree : FileTree) (place : List String) : Option FileContent :=
  match tree.files.lookup place with
  | some content => some content
  | none =>
    if place.isEmpty || tree.files.any fun (file, _) => place.isPrefixOf file then some .directory
    else none

def isDirectory : FileContent → Bool
  | .directory => true
  | _ => false

def maxNameLength : Nat := 255

def maxPathLength : Nat := 4095

/--
Goes from a place by some parts of a path. The number says how far above the root the place lies.
-/
def follow (tree : FileTree) (above : Nat) (place : List String) :
    List String → Except ReadError FileContent
  | [] => if 0 < above then .ok .directory else
    match tree.at? place with
    | some content => .ok content
    | none => .error .notFound
  | part :: rest => do
    if part = ".." then
      if place.isEmpty then tree.follow (above + 1) [] rest
      else
        match tree.at? place with
        | some .directory => tree.follow above place.dropLast rest
        | some _ => .error .notDirectory
        | none => .error .notFound
    else if 0 < above then
      .error .notFound
    else
      match tree.at? place with
      | some .directory =>
        if maxNameLength < part.utf8ByteSize then .error .nameTooLong
        else tree.follow above (place ++ [part]) rest
      | some _ => .error .notDirectory
      | none => .error .notFound

def readText (content : FileContent) : Except ReadError String :=
  match content with
  | .directory => .error .isDirectory
  | .text s => .ok s
  | .bytes bs =>
    match String.fromUTF8? (ByteArray.mk bs.toArray) with
    | some s => .ok s
    | none => .error .notText

def endsInDirectory (path : List Char) : Bool :=
  match (Text.segments '/' path).getLast? with
  | some last => last.isEmpty || last == ['.'] || last == ['.', '.']
  | none => false

def read (tree : FileTree) (path : String) : Except ReadError String :=
  let s := path.toList
  let above := if s.head? = some '/' then 1 else 0
  if s.contains '\x00' then .error .nulInName
  else if s.isEmpty then .error .notFound
  else if maxPathLength < path.utf8ByteSize then .error .nameTooLong
  else do
    let content ← tree.follow above [] (parts s)
    if endsInDirectory s && !isDirectory content then throw .notDirectory
    readText content

end FileTree

def joinPath (directory name : String) : String :=
  if directory = "" || directory.endsWith "/" then directory ++ name
  else directory ++ "/" ++ name

end StrategyDesk
