import Statechart.Text.Quoted

namespace Statechart.Text

def inspectRecord (name : String) (fields : List (String × String)) : String :=
  name ++ " \x7b " ++ ", ".intercalate (fields.map fun field => field.1 ++ ": " ++ field.2) ++
    " \x7d"

def inspectOpenRecord (name : String) (fields : List (String × String)) : String :=
  name ++ " \x7b " ++ String.join (fields.map fun field => field.1 ++ ": " ++ field.2 ++ ", ") ++
    ".. \x7d"

def inspectWrapped (name content : String) : String :=
  name ++ "(" ++ content ++ ")"

def inspectList (items : List String) : String :=
  "[" ++ ", ".intercalate items ++ "]"

def inspectPair (first second : String) : String :=
  "(" ++ first ++ ", " ++ second ++ ")"

def inspectOption (content : Option String) : String :=
  match content with
  | none => "None"
  | some content => inspectWrapped "Some" content

def inspectBool (flag : Bool) : String :=
  if flag then "true" else "false"

def inspectNat (n : Nat) : String :=
  showInt n

def inspectWord (n : Int32) : String :=
  showInt n.toInt

end Statechart.Text
