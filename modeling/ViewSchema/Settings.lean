/-!
What an installation may change: the name of the document builder inside templates, the directory
that holds all views, the ending of template files and their encoding. Each setting can be given
by an environment variable; an empty variable counts as absent.
-/

namespace ViewSchema

/-- Settings shared by reading, walking and path resolution. -/
structure Settings where
  builder : String := "json"
  viewsDirectory : String := "views"
  extension : String := ".json.jbuilder"
  encoding : String := "utf-8"
  deriving Repr, DecidableEq, Inhabited

/-- The value of a variable, or the default when it is absent or empty. -/
def nonEmptyVariable (environment : List (String × String)) (name default : String) : String :=
  match environment.lookup name with
  | some value => if value == "" then default else value
  | none => default

def Settings.variables : List String :=
  ["JBUILDER_OPENAPI_BUILDER", "JBUILDER_OPENAPI_VIEWS_DIRNAME",
    "JBUILDER_OPENAPI_TEMPLATE_EXTENSION", "JBUILDER_OPENAPI_ENCODING"]

def Settings.ofEnvironment (environment : List (String × String)) : Settings :=
  let standard : Settings := {}
  { builder := nonEmptyVariable environment "JBUILDER_OPENAPI_BUILDER" standard.builder
    viewsDirectory :=
      nonEmptyVariable environment "JBUILDER_OPENAPI_VIEWS_DIRNAME" standard.viewsDirectory
    extension :=
      nonEmptyVariable environment "JBUILDER_OPENAPI_TEMPLATE_EXTENSION" standard.extension
    encoding := nonEmptyVariable environment "JBUILDER_OPENAPI_ENCODING" standard.encoding }

end ViewSchema
