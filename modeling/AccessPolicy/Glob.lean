import AccessPolicy.Regex
import AccessPolicy.Text.Split

/-!
# Globs

In a glob an asterisk stands for a run of characters without a line feed, and any other character for itself.  A glob
is written as a regular expression: its pieces are escaped and joined by a dot and a star.
-/

namespace AccessPolicy.Glob

/-- The expression for the whole of a text. -/
def source (glob : String) : String :=
  "^" ++ ".*".intercalate ((Text.splitText '*' glob).map Regex.escape) ++ "$"

end AccessPolicy.Glob
