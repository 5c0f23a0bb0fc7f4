import VarDoc.Document

/-! A document in a few lines: its name, its description, and how many vars
each namespace has. -/

set_option autoImplicit false

namespace VarDoc.Document

def namespaceLine (name : String) (records : List Record) : String :=
  "  " ++ name ++ ": " ++ toString records.length ++ " vars, " ++
    toString (documentedCount records) ++ " documented\n"

def summary (document : Document) : String :=
  document.name.getD "<unnamed>" ++ " " ++ document.version.getD "<unversioned>" ++ "\n" ++
    document.description.elim "" (· ++ "\n") ++
    toString document.namespaces.size ++ " namespaces, " ++ toString document.symbolCount ++
    " vars\n" ++
    String.join (document.namespaces.entries.map fun (name, records) => namespaceLine name records)

end VarDoc.Document
