import TreeLisp.Double.Text
import TreeLisp.Value

/-!
# Printed values

Every value has a printed form. Forms that come from the reader print as source text that reads
back; in a string only the line feed is escaped. Shown to a person, a string is its plain text.
-/
namespace TreeLisp.Value

def escapeLines (text : List Char) : List Char :=
  text.flatMap fun c => if c = '\n' then ['\\', 'n'] else [c]

def stringText (text : String) : String :=
  String.ofList ('"' :: escapeLines text.toList ++ ['"'])

def functionText (name : String) : String :=
  "#<function " ++ name ++ ">"

def expanderText (name : String) : String :=
  "#<macro " ++ name ++ ">"

mutual

def text : Value → String
  | .nil => "nil"
  | .bool true => "true"
  | .bool false => "false"
  | .int n => Text.intText n
  | .float x => Double.text x
  | .string s => stringText s
  | .atom token => token.text
  | .list items => "(" ++ itemsText items ++ ")"
  | .native n => functionText n.name
  | .sugar s => expanderText s.name
  | .function _ name _ => functionText name
  | .expander _ name _ => expanderText name
  | .error message => "error: " ++ message

def itemsText : List Value → String
  | [] => ""
  | [v] => v.text
  | v :: rest => v.text ++ " " ++ itemsText rest

end

def display : Value → String
  | .string s => s
  | v => v.text

end TreeLisp.Value
