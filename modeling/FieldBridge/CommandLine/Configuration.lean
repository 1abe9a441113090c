import FieldBridge.CommandLine.Command
import FieldBridge.CommandLine.Desk

/-!
# Configurations on the command line

A file with the standard configuration is written, or the configuration in use is
shown.
-/

namespace FieldBridge.CommandLine

def showConfiguration (c : Configuration) (format : FileFormat) : Work Unit := do
  Style.block (← orFail .configuration (c.text format))

/-- The file to write: the one that is named, that of the user, or that of the working directory. -/
def configurationPath (e : Environment) (path : Option String) (forUser : Bool) : Except CommandError String :=
  if forUser then (Configuration.userPath? e).elim (.error .noUserDirectory) .ok
  else .ok (path.getD ".fieldmap.toml")

def writeConfiguration (e : Environment) (s : Style) (path : Option String) (forUser force : Bool) : Work Unit := do
  let path ← orFail id (configurationPath e path forUser)
  let d ← get
  if d.files.contains path && !force then fail (.alreadyThere path)
  let text ← orFail .configuration (({} : Configuration).text (FileFormat.ofPath path))
  match d.files.save? path text with
  | some files => set { d with files := files }
  | none => fail (.file (.inaccessible path))
  s.remark ("✓ Created config at " ++ path)
  s.info "Edit it to customize cache, benchmark and logging settings."

end FieldBridge.CommandLine
