import EventPost.CommandLine.Arguments

/-!
The command line that asks for given arguments. Each flag is one argument, with its value behind an
equals sign; then come a double dash and the words, so that nothing in a word is taken for a flag.
-/

namespace EventPost.CommandLine

/-- A flag as it is given, with a value if it takes one. -/
structure Mention where
  flag : Flag
  value : Option String
  deriving DecidableEq, Repr

namespace Mention

def spell (m : Mention) : String :=
  "--" ++ m.flag.name ++ match m.value with
    | some v => "=" ++ v
    | none => ""

def ofOption (f : Flag) (value : Option String) : List Mention :=
  value.toList.map fun v => ⟨f, some v⟩

def ofSwitch (f : Flag) (wanted : Bool) : List Mention := if wanted then [⟨f, none⟩] else []

def ofList (f : Flag) (values : List String) : List Mention := values.map fun v => ⟨f, some v⟩

end Mention

/-- An entry whose value is written as JSON, so that a string is not taken for anything else. -/
def spellEntry (e : String × Json) : String := e.1 ++ "=" ++ e.2.compact

namespace Arguments

def mentions (a : Arguments) : List Mention :=
  Mention.ofOption .body a.body
    ++ Mention.ofOption .url a.url
    ++ Mention.ofOption .actor a.actor
    ++ Mention.ofList .tag a.tags
    ++ Mention.ofSwitch .actionRequired a.actionRequired
    ++ Mention.ofOption .groupKey a.groupKey
    ++ Mention.ofOption .expiresAt a.expiresAt
    ++ Mention.ofList .metadata (a.metadata.map spellEntry)
    ++ Mention.ofList .field (a.fields.map spellEntry)
    ++ Mention.ofOption .server a.server
    ++ Mention.ofOption .timeout (a.timeoutSecs.map fun n => Numeral.decimalText n.toNat)
    ++ Mention.ofSwitch .dryRun a.dryRun
    ++ Mention.ofOption .format (a.format.map Format.name)
    ++ Mention.ofOption .config a.config
    ++ Mention.ofOption .completions (a.completions.map Shell.name)

def words (a : Arguments) : List String :=
  a.title.toList ++ a.eventType.toList ++ a.priority.toList

def spell (a : Arguments) : List String := a.mentions.map Mention.spell ++ "--" :: a.words

end Arguments

end EventPost.CommandLine
