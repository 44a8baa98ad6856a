/-!
# Texts cut at a separator
-/

namespace RemoteCall.Text

/-- The parts between separators: one more part than there are separators. -/
def splitChars (sep : Char) : List Char → List (List Char)
  | [] => [[]]
  | c :: cs =>
    match splitChars sep cs with
    | [] => [[]]
    | part :: parts => if c = sep then [] :: part :: parts else (c :: part) :: parts

def split (sep : Char) (s : String) : List String :=
  (splitChars sep s.toList).map String.ofList

/-- What stands before and after the first separator, if there is one. -/
def splitFirst? (sep : Char) (s : String) : Option (String × String) :=
  match s.toList.span (· ≠ sep) with
  | (_, []) => none
  | (before, _ :: after) => some (String.ofList before, String.ofList after)

/-- What stands before and after the last separator, if there is one. -/
def splitLast? (sep : Char) (s : String) : Option (String × String) :=
  match s.toList.reverse.span (· ≠ sep) with
  | (_, []) => none
  | (after, _ :: before) => some (String.ofList before.reverse, String.ofList after.reverse)

/-- The first line, without the end of line behind it. -/
def firstLine (s : String) : String :=
  match s.toList.span (· ≠ '\n') with
  | (line, []) => String.ofList line
  | (line, _ :: _) => String.ofList (if line.getLast? = some '\r' then line.dropLast else line)

/-- The texts in a row with a separator between each two. -/
def join (sep : String) : List String → String
  | [] => ""
  | [s] => s
  | s :: t :: rest => s ++ sep ++ join sep (t :: rest)

end RemoteCall.Text
