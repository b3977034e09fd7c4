import EventPost.Yaml.Event

/-!
Documents: the events of one, with the names of aliases resolved to where their anchors stand. A
document that breaks off keeps the events before the break.
-/

namespace EventPost.Yaml

/-- What is wrong with a text beyond its grammar. -/
inductive Fault
  | malformed (p : Problem)
  | unknownAnchor (m : Mark)
  | endOfText
  | manyDocuments
  deriving DecidableEq, Repr

def Fault.message : Fault → String
  | .malformed p => p.message
  | .unknownAnchor m => "unknown anchor" ++ if m.isStart then "" else " at " ++ m.text
  | .endOfText => "EOF while parsing a value"
  | .manyDocuments =>
    "deserializing from YAML containing more than one document is not supported"

inductive Item
  /-- Refers to the item of an anchor, by its number. -/
  | alias (anchor : Nat)
  | scalar (s : Scalar)
  | sequenceStart (tag : Option Text.Bytes)
  | sequenceEnd
  | mappingStart (tag : Option Text.Bytes)
  | mappingEnd
  /-- Stands for the content of a text without documents. -/
  | void
  deriving DecidableEq, Repr

abbrev Items := List (Item × Mark)

structure Document where
  items : Items
  /-- The places of the items that anchors name, by the anchors' numbers. -/
  places : List (Nat × Nat)
  fault : Option Fault

/-- What has been gathered of a document: its items in reverse, the numbers of the anchors' names,
and their places. -/
structure Gathering where
  items : Items
  count : Nat
  anchors : List (String × Nat)
  places : List (Nat × Nat)

namespace Gathering

def start : Gathering := ⟨[], 0, [], []⟩

def add (g : Gathering) (item : Item) (m : Mark) : Gathering :=
  { g with items := (item, m) :: g.items, count := g.count + 1 }

/-- A name gets the number of names known before. A name that is given anew gets a new number. -/
def name (g : Gathering) : Option String → Gathering
  | none => g
  | some s =>
    let n := g.anchors.length
    { g with
      anchors := (s, n) :: g.anchors.filter (·.1 ≠ s)
      places := (n, g.count) :: g.places }

def finish (g : Gathering) (fault : Option Fault) : Document := ⟨g.items.reverse, g.places, fault⟩

end Gathering

/-- The first document among the events, and the events behind it. There is none if only the end of
the text comes, but for the first document, which is then void. -/
def gather (problem : Option Problem) (first : Bool) (g : Gathering) :
    List (EventKind × Mark) → Option (Document × List (EventKind × Mark))
  | [] => problem.map fun p => (g.finish (some (.malformed p)), [])
  | (e, m) :: rest =>
    match e with
    | .streamStart | .documentStart => gather problem first g rest
    | .streamEnd =>
      if first then
        some (if g.items.isEmpty then (g.add .void m).finish none else g.finish none, [])
      else none
    | .documentEnd => some (g.finish none, rest)
    | .alias name =>
      match g.anchors.lookup name with
      | some n => gather problem first (g.add (.alias n) m) rest
      | none => some (g.finish (some (.unknownAnchor m)), rest)
    | .scalar s => gather problem first ((g.name s.anchor).add (.scalar s) m) rest
    | .sequenceStart anchor tag =>
      gather problem first ((g.name anchor).add (.sequenceStart tag) m) rest
    | .sequenceEnd => gather problem first (g.add .sequenceEnd m) rest
    | .mappingStart anchor tag =>
      gather problem first ((g.name anchor).add (.mappingStart tag) m) rest
    | .mappingEnd => gather problem first (g.add .mappingEnd m) rest

/-- The one document of a text, and whether something follows it. -/
structure Load where
  document : Document
  more : Bool

def load (cs : List Char) : Load :=
  let (es, problem) := events cs
  match gather problem true .start es with
  | none => ⟨⟨[], [], some .endOfText⟩, false⟩
  | some (d, rest) =>
    ⟨d, d.fault.isNone && (gather problem false .start rest).isSome⟩

end EventPost.Yaml
