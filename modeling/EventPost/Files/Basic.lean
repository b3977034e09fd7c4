import EventPost.Text.Utf8

/-!
What paths lead to. `Files` answers for every path, as a text with slashes, what a program finds
there.
-/

namespace EventPost

open Text (Bytes)

namespace Files

inductive Fault
  | missing
  | alreadyThere
  | notDirectory
  | isDirectory
  | notText
  /-- A NUL stands in the path. -/
  | badName
  /-- Anything else, in the words of the system. -/
  | other (message : String)
  deriving DecidableEq, Repr

def Fault.message : Fault → String
  | .missing => "No such file or directory (os error 2)"
  | .alreadyThere => "File exists (os error 17)"
  | .notDirectory => "Not a directory (os error 20)"
  | .isDirectory => "Is a directory (os error 21)"
  | .notText => "stream did not contain valid UTF-8"
  | .badName => "file name contained an unexpected NUL byte"
  | .other message => message

inductive Found
  | file (content : Bytes)
  | directory
  /-- Something is there, and cannot be opened. -/
  | barred (why : Fault)
  | nothing (why : Fault)
  deriving DecidableEq, Repr

end Files

abbrev Files := String → Files.Found

namespace Files

def exist (files : Files) (path : String) : Bool :=
  match files path with
  | .nothing _ => false
  | _ => true

def readText (files : Files) (path : String) : Except Fault String :=
  match files path with
  | .file content =>
    match Text.decodeString? content with
    | some s => .ok s
    | none => .error .notText
  | .directory => .error .isDirectory
  | .barred why | .nothing why => .error why

/-- Whether a directory is there, or can be made together with those above it. -/
def makeDirectory (files : Files) (path : String) : Except Fault Unit :=
  match files path with
  | .directory | .nothing .missing => .ok ()
  | .file _ | .barred _ => .error .alreadyThere
  | .nothing why => .error why

/-- Whether text can be put at the end of a file, which is made if its directory is there. -/
def openFile (files : Files) (path : String) : Except Fault Unit :=
  match files path with
  | .file _ | .nothing .missing => .ok ()
  | .directory => .error .isDirectory
  | .barred why | .nothing why => .error why

def steps (path : String) : List String :=
  ((path.splitToList (· == '/')).filter fun s => s ≠ "" ∧ s ≠ ".")

/-- The same files after a directory, and those above it, have been made. -/
def withDirectory (files : Files) (path : String) : Files := fun p =>
  if steps p <+: steps path ∧ p.startsWith "/" = path.startsWith "/" then
    match files p with
    | .nothing _ => .directory
    | found => found
  else files p

/-- The same files after text has been put at the end of one, which is made if it is not there. -/
def withText (files : Files) (path text : String) : Files := fun p =>
  if steps p = steps path ∧ p.startsWith "/" = path.startsWith "/" ∧ p.endsWith '/' = false then
    match files p with
    | .file content => .file (content ++ Text.bytesOf text)
    | .nothing .missing => .file (Text.bytesOf text)
    | found => found
  else files p

def join (base name : String) : String :=
  if base.isEmpty ∨ base.endsWith '/' then base ++ name else base ++ "/" ++ name

end Files

end EventPost
