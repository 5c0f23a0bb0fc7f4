import VarDoc.Document

/-! Clojure itself as a project. Its sources have no project file, so all but
the version is fixed. -/

set_option autoImplicit false

namespace VarDoc.Clojure

/-- Files that continue the core namespace and declare none of their own. Their
vars come with the file that loads them. -/
def excludedFiles : List String :=
  ["core_deftype.clj", "core_print.clj", "core_proxy.clj", "genclass.clj", "gvec.clj", "uuid.clj",
    "core_instant18.clj"]

def named (name url : String) : Json := .object [("name", .string name), ("url", .string url)]

def descriptor (version : String) : Descriptor where
  name := some "clojure"
  group := some "org.clojure"
  url := some "http://clojure.org"
  description := some "Clojure core environment and runtime library."
  version := some version
  scm := some (named "git" "https://github.com/clojure/clojure")
  license := some
    (named "Eclipse Public License 1.0" "http://opensource.org/licenses/eclipse-1.0.php")

end VarDoc.Clojure
