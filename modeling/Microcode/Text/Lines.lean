namespace Microcode.Text

def unlines (lines : List String) : String :=
  String.join (lines.map (· ++ "\n"))

def dropReturn (line : List Char) : List Char :=
  if line.getLast? = some '\r' then line.dropLast else line

-- What follows the last line feed is a line of its own, unless it is empty.
def lines (text : String) : List String :=
  match (text.splitOn "\n").reverse with
  | [] => []
  | last :: ended =>
    (ended.map fun line => String.ofList (dropReturn line.toList)).reverse ++
      if last.isEmpty then [] else [last]

end Microcode.Text
