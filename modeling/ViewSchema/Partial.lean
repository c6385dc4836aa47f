import ViewSchema.Path
import ViewSchema.Settings
import ViewSchema.Text.Capitalized
import ViewSchema.Text.Letter

/-!
Names of partial templates. A bare name lies beside the template that includes it; a name with a
directory is taken from the nearest directory of views above the template, or from the template's
own directory when there is none. The file name carries a leading underscore and the template
extension. The same name, split into words, gives the name of the schema component.
-/

namespace ViewSchema.Partial

open Text

/-- The nearest directory of views above a file. -/
def viewsRoot? (current : Path) (settings : Settings) : Option Path :=
  current.ancestors.find? fun directory => directory.name == settings.viewsDirectory

def fileName (name : String) (settings : Settings) : String :=
  let marked := if name.toList.head? == some '_' then name else "_" ++ name
  if endsWith marked.toList settings.extension.toList then marked else marked ++ settings.extension

def isSlash (c : Char) : Bool := c == '\\' || c == '/'

/-- The file that a partial's name stands for inside a template. -/
def path (name : String) (current : Path) (settings : Settings) : Path :=
  let written := Path.ofString name
  if written.isAbsolute then written
  else
    let parts := (fields isSlash name.toList).map String.ofList
    match parts.getLast? with
    | none => current.parent.join (Path.ofString (fileName name settings))
    | some last =>
      let file := Path.ofString (fileName last settings)
      match parts.dropLast with
      | [] => current.parent.join file
      | directories =>
        let base := (viewsRoot? current settings).getD current.parent
        (directories.foldl (fun p d => p.join (Path.ofString d)) base).join file

/-- A character between the words of a partial's name. -/
def isWordBreak (c : Char) : Bool :=
  isSlash c || c == '_' || c == '-' || c == '.' || isBlank c

/-- The component name of a partial: its words, each with a capital. -/
def componentName (name : String) : String :=
  String.ofList ((fields isWordBreak name.toList).flatMap capitalized)

end ViewSchema.Partial
