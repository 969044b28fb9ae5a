import AccessPolicy.Settings.Value

/-!
# Environment variables

Variables are a source of settings: those whose names start with `WARDEN__`, in any case, are taken without that
start, in lower case, and two underscores stand for the point between the names of a path.
-/

namespace AccessPolicy

/-- Names with values; the first value of a name counts. -/
abbrev Variables := List (String × String)

namespace Variables

def get? (vars : Variables) (name : String) : Option String := vars.lookup name

/-- The variables with one more, unless there is one of that name. -/
def addNew (vars : Variables) (name value : String) : Variables :=
  if (vars.get? name).isSome then vars else vars ++ [(name, value)]

private def marker : List Char := "warden__".toList

/-- Two underscores become a point, from the left. -/
private def points : List Char → List Char
  | '_' :: '_' :: cs => '.' :: points cs
  | c :: cs => c :: points cs
  | [] => []

/-- The key of the setting that a variable holds. -/
def settingKey? (name : String) : Option String :=
  let lowered := (Text.lower name).toList
  if marker.isPrefixOf lowered then some (String.ofList (points (lowered.drop marker.length))) else none

/-- The settings that the variables hold. -/
def settings (vars : Variables) : List (String × Setting) :=
  vars.filterMap fun (name, value) => (settingKey? name).map fun key => (key, Setting.ofText value)

end Variables

end AccessPolicy
