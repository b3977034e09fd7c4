import EventPost.Submission.Acknowledgment
import EventPost.Yaml.Field
import EventPost.Yaml.Writer

/-!
Acknowledgments as YAML texts: written for the caller of the program, and read back.
-/

namespace EventPost

namespace Yaml

def foldTexts (d : Document) (path : Path) :
    (fuel : Nat) → List String → Items → Outcome (List String)
  | 0, acc, items => .ok (acc.reverse, items)
  | fuel + 1, acc, items =>
    match items with
    | (.sequenceEnd, _) :: rest => .ok (acc.reverse, rest)
    | _ =>
      match readText d "a string" path items with
      | .error e => .error e
      | .ok (s, rest) => foldTexts d path fuel (s :: acc) rest

def readTexts (d : Document) (path : Path) (items : Items) : Outcome (List String) :=
  match d.next items with
  | .error e => .error e
  | .ok n =>
    placed n.mark path <|
      match n.item with
      | .sequenceStart _ =>
        match foldTexts d path (n.inner.length + 1) [] n.inner with
        | .error e => .error e
        | .ok (ss, rest) => .ok (ss, if n.inner.length = n.outer.length then rest else n.outer)
      | item => .error (item.complaint "a sequence")

end Yaml

namespace Acknowledgment

def toYaml (a : Acknowledgment) : String := Yaml.text a.toJson

def readYamlMember (d : Yaml.Document) (p : Partial) (key : String) (path : Yaml.Path)
    (items : Yaml.Items) : Yaml.Outcome Partial :=
  if key = "accepted" then
    Yaml.once key p.accepted (Yaml.readWord d path items) fun n => { p with accepted := some n }
  else if key = "event_ids" then
    Yaml.once key p.eventIds (Yaml.readTexts d path items) fun ids => { p with eventIds := some ids }
  else Yaml.skipped d p items

def readYaml (d : Yaml.Document) (items : Yaml.Items) : Yaml.Outcome Acknowledgment :=
  match Yaml.readMapping d expected ⟨none, none⟩ [] (readYamlMember d) items with
  | .error e => .error e
  | .ok (⟨some n, some ids⟩, rest) => .ok (⟨n, ids⟩, rest)
  | .ok (⟨none, _⟩, _) => Yaml.mismatch "missing field `accepted`"
  | .ok (⟨some _, none⟩, _) => Yaml.mismatch "missing field `event_ids`"

def ofYaml (text : String) : Except Yaml.Trouble Acknowledgment := Yaml.readDocument readYaml text

end Acknowledgment

end EventPost
