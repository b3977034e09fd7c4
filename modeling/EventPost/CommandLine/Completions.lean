import EventPost.CommandLine.Arguments

/-!
Scripts that teach a shell to complete the program's flags. They stand in for longer ones: each names
every flag, and says nothing of what the flags mean or of the values they take.
-/

namespace EventPost.CommandLine.Completions

def program : String := "breakpoint-notify"

def names : List String := (Flag.all.map Flag.name).mergeSort (· ≤ ·)

def dashed : List String := names.map ("--" ++ ·)

def script : Shell → String
  | .bash => "complete -W '" ++ " ".intercalate dashed ++ "' " ++ program ++ "\n"
  | .elvish =>
    "set edit:completion:arg-completer[" ++ program ++ "] = \x7b|@words| put "
      ++ " ".intercalate dashed ++ " \x7d\n"
  | .fish =>
    String.join (names.map fun s => "complete -c " ++ program ++ " -l " ++ s ++ "\n")
  | .powershell =>
    "Register-ArgumentCompleter -Native -CommandName '" ++ program ++ "' -ScriptBlock \x7b "
      ++ ", ".intercalate (dashed.map fun s => "'" ++ s ++ "'") ++ " \x7d\n"
  | .zsh =>
    "#compdef " ++ program ++ "\n_arguments "
      ++ " ".intercalate (dashed.map fun s => "'" ++ s ++ "'") ++ "\n"

end EventPost.CommandLine.Completions
