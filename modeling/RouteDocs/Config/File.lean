import RouteDocs.Config.Reader
import RouteDocs.Text.Line
import RouteDocs.Text.Utf8
import RouteDocs.Yaml.Setting

/-!
# Configuration files

A configuration file is a YAML text. A file that says nothing, or only a value
that is not set, stands for the default configuration; any other is a mapping.
-/
namespace RouteDocs.Config

def ofText (s : List Char) : Except Fault WideConfig :=
  match Yaml.settingOfText (Text.plainLineFeeds s) with
  | .error p => .error (.yaml p)
  | .ok s =>
    if !s.isSet then ofMembers []
    else
      match s.members? with
      | some members => ofMembers members
      | none => .error .configNotMapping

/-- The configuration of a file, given what the file holds if it exists. Mirrors
`load_viewer_config`. -/
def ofFile (path : String) (content : Option (List Text.Symbol)) : Except Fault WideConfig :=
  match content with
  | none => .error (.configMissing path)
  | some symbols =>
    match Text.textOfSymbols? symbols with
    | none => .error .invalidUtf8
    | some s => ofText s

end RouteDocs.Config
