import RouteDocs.Setting

/-!
# What can go wrong

Every failure is one of these causes. A cause that a user can mend by changing
the documents or the configuration is reported by its message (`isReported`);
the others end the program. One of these is a number of too many digits, met
where a value is to be shown (`toText`).
-/
namespace RouteDocs

inductive ListKind where
  | input
  | output
  deriving DecidableEq

namespace ListKind

/-- The text of the heading over a list of this kind. -/
def label : ListKind → String
  | input => "Input"
  | output => "Output"

/-- The kind as a directive names it. -/
def word : ListKind → String
  | input => "input"
  | output => "output"

end ListKind

/-- Why a JSON text does not hold a tree. A `place` is empty at the top. -/
inductive ShapeProblem where
  /-- A value of another type stands where `expected` should. -/
  | mismatch (expected found place : String)
  /-- A number too great for a double. -/
  | realTooGreat (place : String)
  /-- An integer with too many digits. -/
  | intTooLong (place : String)
  | missingTree
  | unknownField (name : String)

/-- Why a configuration is refused. -/
inductive ConfigProblem where
  | sectionNotMapping (key : String)
  | notText (key : String) (found : Setting)
  | notSwitch (key : String) (found : Setting)
  | notMapping (key : String)
  | notTextList (key : String)
  | noPlaceholder
  | badFallback (text : Text.WideText)

/-- Why a text is no configuration file. -/
inductive YamlProblem where
  /-- A character that no file may hold. -/
  | character
  /-- A place where no token can start or end as it does. -/
  | token
  /-- A token where the grammar has no room for it. -/
  | grammar
  /-- A version of the format that is not known. -/
  | version
  /-- An alias without its anchor, or a second document. -/
  | composition
  | duplicateKey
  /-- A key that can change, or a node that does not fit its tag. -/
  | construction
  /-- A key with a part that can change. -/
  | changingKey
  /-- A key that an ordered mapping has already. -/
  | repeatedEntry
  /-- A word that is no boolean but has the tag of one. -/
  | notABoolean
  /-- A number, a date or a code point that there is not, or a number of too many digits. -/
  | noSuchValue
  /-- A number without digits. -/
  | emptyNumber
  /-- A number beyond all that is looked at, or a moment after the last. -/
  | tooGreat
  /-- Nodes too deep within each other. -/
  | depth
  deriving DecidableEq

inductive UsageProblem where
  | missingArgument
  | unknownOption
  | unusedArgument
  | unknownCommand
  | repeatedOption
  | badValue

/-- Why a link template cannot be filled in. -/
inductive TemplateProblem where
  /-- A numbered placeholder, or an index beyond the end of a part. -/
  | position
  /-- A placeholder of another name. -/
  | name
  /-- A part of a name that there is not. -/
  | part
  /-- An index that is no number, or an index into a part without entries. -/
  | index
  /-- A format for a part that is no text. -/
  | unformatted
  /-- A field too wide to be filled. -/
  | width
  /-- Unbalanced braces, a malformed format or a number that is too great. -/
  | form

/-- A cause of failure. -/
inductive Fault where
  | notANode (found : Value) (trail : List String)
  | rootIsText
  | unrenderable (element : String) (trail : List String) (routeSection : Option String)
  | wrongShape (path : String) (problem : ShapeProblem)
  | notJson (path : String)
  | outsideSection (kind : ListKind) (reference : String)
  | sourceMissing (kind : ListKind) (reference intoSection : String)
  | config (problem : ConfigProblem)
  | configMissing (path : String)
  | configNotMapping
  | configNotSections
  | yaml (problem : YamlProblem)
  | notAnElement
  /-- HTML attributes that are no mapping, or an anchor that can be no key. -/
  | wrongType
  | positionOutOfRange
  | linkTemplate (problem : TemplateProblem)
  | replacementTemplate
  | replacementGroup
  | unknownStyle
  | invalidUtf8
  /-- A half of a character where only characters can be written. -/
  | loneHalf
  | fileMissing (path : String)
  /-- A folder where a file is needed. -/
  | isFolder (path : String)
  /-- A path that goes on behind a file. -/
  | behindFile (path : String)
  | nameTooLong
  | zeroInName
  | usage (problem : UsageProblem)

namespace ShapeProblem

/-- Where a problem is, after what is said about it. -/
def located (place : String) : String :=
  if place = "" then "" else " - at `" ++ place ++ "`"

/-- What is said about the problem. -/
def message : ShapeProblem → String
  | mismatch expected found place =>
    "Expected `" ++ expected ++ "`, got `" ++ found ++ "`" ++ located place
  | realTooGreat place => "Number out of range" ++ located place
  | intTooLong place => "Integer value out of range" ++ located place
  | missingTree => "Object missing required field `tree`"
  | unknownField name => "Object contains unknown field `" ++ name ++ "`"

end ShapeProblem

namespace ConfigProblem

/-- What is said about the problem. -/
def message : ConfigProblem → String
  | sectionNotMapping key => "Configuration section '" ++ key ++ "' must be a mapping."
  | notText key found => "'" ++ key ++ "' must be a string, got " ++ found.typeName ++ "."
  | notSwitch key found => "'" ++ key ++ "' must be true or false, got " ++ found.written ++ "."
  | notMapping key => "'" ++ key ++ "' must be a mapping."
  | notTextList key => "'" ++ key ++ "' must be a list of strings."
  | noPlaceholder =>
    "rendering.pod_link_template must contain a '\x7btarget\x7d' placeholder."
  | badFallback text =>
    "fallback_prefix must start with an ASCII letter, got " ++ Text.quotedWide text ++ "."

end ConfigProblem

namespace Fault

/-- A message about a tree: where in the tree, and in which section, if these are known. -/
def located (message : String) (trail : List String) (routeSection : Option String) : String :=
  let place := if trail.isEmpty then "" else " at " ++ " > ".intercalate trail
  let within := match routeSection with
    | none => ""
    | some s => if s = "" then "" else " in section " ++ Text.quoted s
  message ++ place ++ within

/-- What is said about the failure. -/
def message : Fault → String
  | notANode found trail =>
    located ("Cannot build a tree node from " ++ found.typeName ++ " value " ++ found.written)
      trail none
  | rootIsText => "The root of a documentation tree must be an element, not text."
  | unrenderable element trail routeSection =>
    located ("No idea how to render element " ++ Text.quoted element) trail routeSection
  | wrongShape path problem => path ++ " does not contain a doc tree: " ++ problem.message
  | notJson path => path ++ " is not valid JSON:"
  | outsideSection kind reference =>
    kind.word ++ "-from " ++ Text.quoted reference ++
      " appears before any route heading, so there is no section to merge into."
  | sourceMissing kind reference intoSection =>
    kind.word ++ "-from directive in section " ++ Text.quoted intoSection ++ " refers to " ++
      Text.quoted reference ++ ", which has no " ++ kind.label ++ " definition list."
  | config problem => problem.message
  | configMissing path => "Configuration file '" ++ path ++ "' not found."
  | configNotMapping => "Top-level YAML structure must be a mapping."
  | _ => ""

/-- A number has more digits than a text may give it. The writing of one fails as the reading of one
in a configuration file does. -/
def tooManyDigits : Fault := yaml .noSuchValue

/-- A failure that is reported by its message and not by ending the program. -/
def isReported : Fault → Bool
  | notANode .. | rootIsText | unrenderable .. | wrongShape .. | notJson _ | outsideSection ..
  | sourceMissing .. | config _ => true
  | _ => false

/-- The failure of a rendering, known to have happened within a section. -/
def within (routeSection : String) : Fault → Fault
  | unrenderable element trail none => unrenderable element trail (some routeSection)
  | unrenderable element trail (some "") => unrenderable element trail (some routeSection)
  | f => f

end Fault

/-! ## Texts of values -/

/-- A setting as it is shown on its own, if it can be written. -/
def Setting.toText (s : Setting) : Except Fault Text.WideText :=
  if s.isWritable then .ok s.shown else .error .tooManyDigits

/-- A value as it is shown on its own, if it can be written. -/
def Value.toText (v : Value) : Except Fault String :=
  if v.isWritable then .ok v.shown else .error .tooManyDigits

theorem Setting.toText_ok_iff {s : Setting} {t : Text.WideText} :
    s.toText = .ok t ↔ s.isWritable = true ∧ t = s.shown := by
  rw [toText, eq_comm (a := t)]
  cases s.isWritable <;> simp

theorem Value.toText_ok_iff {v : Value} {t : String} :
    v.toText = .ok t ↔ v.isWritable = true ∧ t = v.shown := by
  rw [toText, eq_comm (a := t)]
  cases v.isWritable <;> simp

end RouteDocs
