/-!
# Line breaks

Lines end with a line feed, a carriage return, or both, as different systems have it. A text is
read with line feeds only.
-/
namespace ClientGen.Text

def unifyLineBreaks : List Char → List Char
  | '\r' :: '\n' :: rest => '\n' :: unifyLineBreaks rest
  | '\r' :: rest => '\n' :: unifyLineBreaks rest
  | c :: rest => c :: unifyLineBreaks rest
  | [] => []

end ClientGen.Text
