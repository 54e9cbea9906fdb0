/-!
# Problems of a page

What can be wrong with the structure of a page, one problem for each place where it is wrong.
-/

namespace PageBuilder

/-- A violated rule of structure. -/
inductive Problem
  | rootless
  | rootMissing (root : String)
  | rootHasParent (root parent : String)
  | repeated (id : String)
  | unknownKind (id kind : String)
  | closedParent (id kind : String)
  | unknownStyle (id category : String)
  | missingChild (id child : String)
  | wrongParent (child : String) (parent : Option String) (id : String)
  | unreachable (id : String)
deriving DecidableEq, Repr

def Problem.message : Problem → String
  | .rootless => "elements exist but there is no root"
  | .rootMissing root => "root '" ++ root ++ "' does not exist"
  | .rootHasParent root parent => "root '" ++ root ++ "' has parent '" ++ parent ++ "'"
  | .repeated id => "'" ++ id ++ "' is reachable more than once"
  | .unknownKind id kind => "'" ++ id ++ "' has unknown kind '" ++ kind ++ "'"
  | .closedParent id kind =>
    "'" ++ id ++ "' (" ++ kind ++ ") has children but is not a container"
  | .unknownStyle id category =>
    "'" ++ id ++ "' has unknown style category '" ++ category ++ "'"
  | .missingChild id child => "'" ++ id ++ "' lists missing child '" ++ child ++ "'"
  | .wrongParent child parent id =>
    "'" ++ child ++ "' points at parent '" ++ parent.getD "None" ++ "', listed under '" ++ id ++
      "'"
  | .unreachable id => "'" ++ id ++ "' is not reachable from the root"

end PageBuilder
