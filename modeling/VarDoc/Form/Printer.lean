import VarDoc.Form

/-! Printing a form as Clojure source. Metadata is left out, and quotes,
derefs and var quotes are written as the calls that they stand for. -/

set_option autoImplicit false

namespace VarDoc

def escapeCharacter : Char → String
  | '"' => "\\\""
  | '\\' => "\\\\"
  | '\n' => "\\n"
  | '\t' => "\\t"
  | '\r' => "\\r"
  | c => c.toString

def Atom.render : Atom → String
  | .nil => "nil"
  | .bool true => "true"
  | .bool false => "false"
  | .number text => text
  | .string text => "\"" ++ String.join (text.toList.map escapeCharacter) ++ "\""
  | .character name => "\\" ++ name
  | .keyword name => ":" ++ name
  | .symbol name => name
  | .regex text => "#\"" ++ text ++ "\""
  | .symbolicValue name => "##" ++ name

def Mark.around : Mark → String × String
  | .sigil .quote => ("(quote ", ")")
  | .sigil .syntaxQuote => ("\x60", "")
  | .sigil .unquote => ("~", "")
  | .sigil .unquoteSplicing => ("~@", "")
  | .sigil .deref => ("(clojure.core/deref ", ")")
  | .sigil .var => ("(var ", ")")
  | .tag name => ("#" ++ name ++ " ", "")

namespace Form

mutual

def render : Form → String
  | .atom leaf _ _ => leaf.render
  | .group shape items _ _ =>
    shape.openText ++ " ".intercalate (renderAll items) ++ shape.delimiter.closeText
  | .map entries _ _ => "\x7b" ++ ", ".intercalate (renderPairs entries) ++ "\x7d"
  | .marked mark inner _ _ => mark.around.1 ++ inner.render ++ mark.around.2

def renderAll : List Form → List String
  | [] => []
  | form :: rest => form.render :: renderAll rest

def renderPairs : List (Form × Form) → List String
  | [] => []
  | (key, value) :: rest => (key.render ++ " " ++ value.render) :: renderPairs rest

end

end Form

end VarDoc
