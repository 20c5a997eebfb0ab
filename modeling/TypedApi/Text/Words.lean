import TypedApi.Text.Blank
import TypedApi.Text.Case

/-!
Identifiers over ASCII, and the three ways to put the words of a text together into one.
-/
namespace TypedApi.Text

/-- The parts of a text between separators, empty ones included. -/
def pieces (isSeparator : Char → Bool) : List Char → List (List Char)
  | [] => [[]]
  | c :: rest =>
    if isSeparator c then [] :: pieces isSeparator rest
    else match pieces isSeparator rest with
      | [] => [[c]]
      | word :: words => (c :: word) :: words

def isIdentChar (c : Char) : Bool := c.isAlphanum || c == '_' || c == '$'

/-- One or more identifier characters, the first of them not a digit. -/
def isIdentifier : List Char → Bool
  | [] => false
  | c :: rest => isIdentChar c && !c.isDigit && rest.all isIdentChar

/-- `bill_file-task` becomes `BillFileTask`; humps inside a word are kept. -/
def pascalCase (s : List Char) : List Char :=
  (pieces (fun c => c == '-' || c == '_' || !isIdentChar c) s).flatMap capitalizeFirst

/-- As `pascalCase`, but an underscore belongs to its word. -/
def capitalizeWords (s : List Char) : List Char :=
  (pieces (fun c => !isIdentChar c) s).flatMap capitalizeFirst

/-- `bill-file.task` becomes `billFileTask`. -/
def camelCase (s : List Char) : List Char :=
  match (pieces (fun c => !c.isAlphanum) s).filter (!·.isEmpty) with
  | [] => []
  | word :: words => lowercaseFirst word ++ words.flatMap capitalizeFirst

/-- A name may not begin with a digit; one that would gets an underscore in front. -/
def guardDigit : List Char → List Char
  | [] => []
  | c :: rest => if c.isDigit then '_' :: c :: rest else c :: rest

end TypedApi.Text
