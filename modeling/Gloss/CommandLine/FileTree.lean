import Gloss.CommandLine.Host

namespace Gloss.CommandLine

inductive FileTree where
  | file (content : ByteArray)
  | directory (entries : List (String × FileTree))

namespace FileTree

def entry : FileTree → Entry
  | file content => .file content
  | directory _ => .unreadable .isDirectory

def maxNameBytes : Nat := 255

def maxPathBytes : Nat := 4095

def workingDirectory : List String := ["tmp", "gloss"]

def wayTo (path : String) : List String :=
  match path.splitOn "/" with
  | "" :: names => names
  | names => workingDirectory ++ names

/-- Follows names from a tree, which stands in the directories `above`, the nearest first. The
root is above itself. -/
def follow (above : List FileTree) (here : FileTree) : List String → Except Fault Entry
  | [] => .ok here.entry
  | name :: rest =>
    match here with
    | file _ => .error .notDirectory
    | directory entries =>
      if name = "" || name = "." then follow above here rest
      else if name = ".." then follow above.tail (above.headD here) rest
      else if maxNameBytes < name.utf8ByteSize then .error .nameTooLong
      else
        match entries.lookup name with
        | none => .error .notFound
        | some next => follow (here :: above) next rest

def find (root : FileTree) (path : String) : Except Fault Entry :=
  if maxPathBytes < path.utf8ByteSize then .error .nameTooLong
  else if path.isEmpty then .error .notFound
  else follow [] root (wayTo path)

/-- Puts a tree at the end of a way down, with the directories on the way. A directory that is
there already keeps its entries when an empty one is put in its place. -/
def putAt (new : FileTree) : List String → FileTree → FileTree
  | [], here =>
    match new, here with
    | directory [], directory entries => directory entries
    | _, _ => new
  | name :: rest, here =>
    let entries := match here with
      | directory entries => entries
      | file _ => []
    let next := (entries.lookup name).getD (directory [])
    directory ((name, putAt new rest next) :: entries.filter (·.1 ≠ name))

/-- Puts a tree at the end of a way of names, which has gone down through `passed`, the last name
first. A directory that the way enters is made if it is missing, even if the way leaves it again. -/
def putAlong (new root : FileTree) (passed : List String) : List String → FileTree
  | [] => putAt new passed.reverse root
  | name :: rest =>
    if name = "" || name = "." then putAlong new root passed rest
    else if name = ".." then putAlong new root passed.tail rest
    else
      let passed := name :: passed
      putAlong new (putAt (directory []) passed.reverse root) passed rest

def put (root : FileTree) (path : String) (new : FileTree) : FileTree :=
  putAlong new root [] (wayTo path)

/-- A machine with an empty working directory, where only the null device can be read. -/
def bare : FileTree :=
  putAt (directory []) workingDirectory
    (directory [("dev", directory [("null", file ByteArray.empty)])])

end FileTree
end Gloss.CommandLine
