import Reassembly.Fault
import Reassembly.Text.Utf8

/-! The files that a run works on. A path is followed part by part from the working directory,
or from the root if it begins with a slash; every part but the last has to name a directory. -/
namespace Reassembly

/-- What stands at a place. A device takes everything written to it, or nothing if it is full. -/
inductive Node
  | file (content : Bytes)
  | directory
  | device (full : Bool)
  deriving DecidableEq, Repr

/-- The parts that lead to a place, the last one first. The root is known by its slash. -/
abbrev Place := List String

structure Disk where
  nodes : List (Place × Node)
  deriving DecidableEq, Repr

namespace Place

/-- The place above; nothing is known of what lies above the working directory. -/
def up : Place → Place
  | [] => [".."]
  | ["/"] => ["/"]
  | ".." :: rest => ".." :: ".." :: rest
  | _::rest => rest

def enter (here : Place) (part : String) : Place :=
  if part = "." then here else if part = ".." then up here else part::here

def isAbsolute (path : String) : Bool := path.toList.head? = some '/'

def endsInSlash (path : String) : Bool := path.toList.getLast? = some '/'

def base (path : String) : Place := if isAbsolute path then ["/"] else []

def parts (path : String) : List String :=
  ((path.toList.splitOn '/').filter (· ≠ [])).map String.ofList

def name (here : Place) : String := String.intercalate "/" here.reverse

def isOutside (here : Place) : Bool := here.any fun part => part = ".." || part = "/"

end Place

namespace Disk

/-- The devices that every disk has, and where they are. -/
def devices : List (Place × Node) :=
  [(["dev","/"],.directory),(["full","dev","/"],.device true),(["null","dev","/"],.device false)]

/-- What stands at a place; the directories above the working directory are always there. -/
def find? (d : Disk) (here : Place) : Option Node :=
  if here.all (· = "..") || here = ["/"] then some .directory
  else (d.nodes.lookup here).or (devices.lookup here)

def put (d : Disk) (here : Place) (node : Node) : Disk :=
  ⟨(here,node)::d.nodes.filter (fun e => e.1 ≠ here)⟩

def addUnder (d : Disk) (here : Place) (content : Bytes) : List String → Disk
  | [] => d
  | [name] => d.put (name::here) (.file content)
  | part::parts => (d.put (part::here) .directory).addUnder (part::here) content parts

def addFile (d : Disk) (path : String) (content : Bytes) : Disk :=
  d.addUnder (Place.base path) content (Place.parts path)

def ofFiles (files : List (String × Bytes)) : Disk :=
  files.foldl (fun d (path,content) => d.addFile path content) ⟨[]⟩

def files (d : Disk) : List (String × Bytes) :=
  d.nodes.filterMap fun
    | (here,.file content) => if Place.isOutside here then none else some (Place.name here,content)
    | _ => none

def walk (d : Disk) (here : Place) : List String → Except FileFault Place
  | [] => .ok here
  | part::parts =>
    match d.find? here with
    | none => .error .notFound
    | some .directory => walk d (Place.enter here part) parts
    | some _ => .error .notDirectory

/-- The place that a path leads to, where nothing need stand. -/
def locate (d : Disk) (path : String) : Except FileFault Place :=
  d.walk (Place.base path) (Place.parts path ++ if Place.endsInSlash path then ["."] else [])

def contains (d : Disk) (path : String) : Bool :=
  match d.locate path with
  | .ok here => (d.find? here).isSome
  | .error _ => false

def read (d : Disk) (path : String) : Except FileFault Bytes :=
  match d.locate path with
  | .error fault => .error fault
  | .ok here =>
    match d.find? here with
    | none => .error .notFound
    | some .directory => .error .isDirectory
    | some (.file content) => .ok content
    | some (.device _) => .ok []

def readText (d : Disk) (path : String) : Except FileFault String :=
  match d.read path with
  | .error fault => .error fault
  | .ok content =>
    match Text.ofUtf8? content with
    | some text => .ok text
    | none => .error .notText

/-- The place of a file about to be written. A path that ends in a slash is not one, though what
leads to it is looked at first. -/
def locateFile (d : Disk) (path : String) : Except FileFault Place :=
  let parts := Place.parts path
  if Place.endsInSlash path then
    match d.walk (Place.base path) (parts.dropLast ++ ["."]) with
    | .error fault => .error fault
    | .ok _ => .error .isDirectory
  else
    match d.walk (Place.base path) parts with
    | .error fault => .error fault
    | .ok here =>
      match d.find? here with
      | some .directory => .error .isDirectory
      | _ => .ok here

def isFull (d : Disk) (here : Place) : Bool := d.find? here = some (.device true)

/-- Gives the file at a place its content; a device keeps nothing. -/
def write (d : Disk) (here : Place) (content : Bytes) : Disk :=
  match d.find? here with
  | some (.device _) => d
  | _ => d.put here (.file content)

end Disk
end Reassembly
