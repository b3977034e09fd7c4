import EventPost.Files.Basic

/-!
A tree of files below one working directory. A name in a path is looked up in the directory to its
left; a double dot leads one directory up, though not out of the tree.
-/

namespace EventPost.Files

open Text (Bytes)

structure Entry where
  /-- The names that lead to it, outermost first. -/
  place : List String
  /-- There is none for a directory. -/
  content : Option Bytes

abbrev Tree := List Entry

namespace Tree

def ofList (files : List (String × Bytes)) : Tree :=
  files.map fun (path, content) =>
    ⟨steps path, if path.endsWith '/' then none else some content⟩

def at? (t : Tree) (place : List String) : Option (Option Bytes) :=
  match t.find? fun e => e.place = place ∧ e.content.isSome with
  | some e => some e.content
  | none => if place = [] ∨ t.any (fun e => place.isPrefixOf e.place) then some none else none

def follow (t : Tree) (place : List String) : List String → Found
  | [] =>
    match t.at? place.reverse with
    | none => .nothing .missing
    | some none => .directory
    | some (some content) => .file content
  | name :: rest =>
    match t.at? place.reverse with
    | none => .nothing .missing
    | some (some _) => .nothing .notDirectory
    | some none =>
      if name = "" ∨ name = "." then t.follow place rest
      else if name = ".." then
        match place with
        | [] => .nothing .missing
        | _ :: above => t.follow above rest
      else t.follow (name :: place) rest

def files (t : Tree) : Files := fun path =>
  if path.contains '\x00' then .nothing .badName
  else if path = "" then .nothing .missing
  else if path.startsWith "/" then
    if steps path = [] then .directory else .nothing .missing
  else t.follow [] (path.splitToList (· == '/'))

end Tree

end EventPost.Files
