import Wiretap.Context.Basic
import Wiretap.Text.Quoted

/-!
# Texts of a context

The full text lists every entry with the kind of its value. The two outlines show the keys alone,
on one line or one key a line.
-/

namespace Wiretap.Context

variable {K : Kinds}

/-- One entry: the key, an equals sign and the value with its kind. -/
def entryText (e : String × Value) : String := e.1 ++ "=" ++ e.2.text

/-- All entries between braces. -/
def text (c : Context) : String :=
  "\x7b" ++ String.intercalate ", " (c.entries.map entryText) ++ "\x7d"

/-- The keys on one line. -/
def outline (c : Context) : String :=
  "Context \x7b keys: " ++ Text.quotedList c.keys ++ " \x7d"

/-- The keys one a line, indented. -/
def tallOutline (c : Context) : String :=
  let keys :=
    if c.isEmpty then "[]"
    else
      let lines := c.keys.map fun key => "        " ++ Text.quoted key ++ ",\n"
      "[\n" ++ String.join lines ++ "    ]"
  "Context \x7b\n    keys: " ++ keys ++ ",\n\x7d"

end Wiretap.Context
