import ClientGen.Failure
import ClientGen.Text.Blank
import ClientGen.Text.Split

/-!
# The layout of generated files

Generated text is put together from lines, comment blocks and bracketed parts. The last step of
every file drops the blanks at the end of each line.
-/
namespace ClientGen.Client

/-- Lines, each with its line break. -/
def unlines (lines : List String) : String :=
  String.join (lines.map (· ++ "\n"))

def braced (text : String) : String := "\x7b" ++ text ++ "\x7d"

/-- Names between braces, as imports and exports have them. -/
def nameList (names : String) : String := braced (" " ++ names ++ " ")

def importLine (names file : String) : String :=
  "import " ++ nameList names ++ " from '" ++ file ++ "';"

def exportLine (name file : String) : String :=
  "export " ++ nameList name ++ " from '" ++ file ++ "';"

def indentation (level : Nat) : String :=
  String.ofList (List.replicate (2 * level) ' ')

def commentLine (indent line : String) : String :=
  indent ++ " *" ++ (if line = "" then "" else " " ++ line) ++ "\n"

def commentBlock (text : String) (level : Nat) : String :=
  let indent := indentation level
  "\n" ++ indent ++ "/**\n" ++
    String.join ((Text.lines (Text.trim text)).map (commentLine indent)) ++ indent ++ " */\n" ++
    indent

/-- A description as a comment block, with the indentation of the line after it; a description
that is not set leaves the indentation only. -/
def comment (description : Value) (level : Nat) : Outcome String :=
  if description.isSet then do return commentBlock (← description.asText) level
  else .ok (indentation level)

/-- The text without the blanks at the ends of its lines. -/
def trimLines (text : String) : String :=
  "\n".intercalate ((Text.lines text).map Text.trimEnd)

end ClientGen.Client
