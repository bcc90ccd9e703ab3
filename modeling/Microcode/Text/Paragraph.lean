namespace Microcode.Paragraph

-- Puts as many words on each line as it holds. A word that is longer than a line
-- has one to itself.
def fill (width : Nat) (indent : String) (line : String) : List String → List String
  | [] => [line]
  | word :: rest =>
    if line.length + 1 + word.length ≤ width then
      fill width indent (line ++ " " ++ word) rest
    else line :: fill width indent (indent ++ word) rest

def lines (width : Nat) (label text : String) : List String :=
  match text.splitOn " " with
  | [] => [label]
  | word :: rest => fill width ("".pushn ' ' label.length) (label ++ word) rest

end Microcode.Paragraph
