import Galdr.Text

/-!
# The text of a program

A program is a text. It is cut into lines as the standard library does it, and it
goes over the wire in UTF-8, one byte or up to four for every character.
-/

namespace Text

/-- The bytes of a text in UTF-8. -/
def utf8 (text : List Char) : List UInt8 := text.flatMap String.utf8EncodeChar

/-- `str::strip_suffix`, of a carriage return, where there is one. -/
def stripCr (line : List Char) : List Char :=
  if line.getLast? = some '\r' then line.dropLast else line

/-- The lines of a text, the first of which begins with `line`. -/
def linesFrom (line : List Char) : List Char → List (List Char)
  | [] => if line = [] then [] else [line]
  | c :: rest =>
    if c = '\n' then stripCr line :: linesFrom [] rest else linesFrom (line ++ [c]) rest

/-- `str::lines`: a line ends at a line feed, with the carriage return before it; the last
one may end with the text. -/
def lines (text : List Char) : List (List Char) := linesFrom [] text

theorem utf8_append (text text' : List Char) : utf8 (text ++ text') = utf8 text ++ utf8 text' :=
  List.flatMap_append

end Text
