import ApiDoc.Command.Basic

/-!
# What a run reaches

The paths that a run with given words may look at, so that a caller can lay them out before the run
and carry the changes over after it.
-/

namespace ApiDoc.Command

open Files

/-- The words themselves and the values behind their equals signs. -/
def namedByWords (args : List String) : List String :=
  args ++ args.filterMap fun w => (splitValue w).2

/-- The output folder and the log file of the settings that the words name. -/
def namedBySettings (place : Place) (args : List String) (t : Tree) : List String :=
  match programGrammar.read args with
  | .error _ => []
  | .ok a =>
    match (loadSettings place (a.value? "--config") { sink := { tree := t } }).2 with
    | .error _ => []
    | .ok settings =>
      (settings.outputFolder none).toOption.toList ++ settings.logPath.toOption.toList

/-- The paths that a run may look at, as far as the files tell. -/
def reached (place : Place) (args : List String) (t : Tree) : List String :=
  (namedByWords args ++ namedBySettings place args t).filter (!·.isEmpty)

/-- The entries of a tree that are not in another one, the folders first. -/
def changes (before after : Tree) : List (List String × Entry) :=
  let changed := after.entries.filter fun x => before.entry? x.1 ≠ some x.2
  let (folders, files) := changed.partition fun x => decide (x.2 = .folder)
  folders ++ files

end ApiDoc.Command
