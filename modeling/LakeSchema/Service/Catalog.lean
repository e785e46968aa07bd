import LakeSchema.Service.Repository
import LakeSchema.Session.Command

/-!
# Catalogs

A catalog offers tables and the relationships between them. Tables are asked for by name, and every
name has to be that of a table; those that are found join the project of a session.
-/

namespace LakeSchema

structure Catalog where
  tables : List Table
  relationships : List Relationship

namespace Catalog

/-- The tables of the given names in any case, with all relationships. Each name has to be there as
it is written. -/
def fetch (c : Catalog) (names : List String) : Except ServiceError Import :=
  match names.find? fun name => !c.tables.any (·.name == name) with
  | some name => .error (.notFound ("table '" ++ name ++ "'"))
  | none =>
    .ok
      { tables := c.tables.filter fun t => names.any (Text.sameIgnoringCase t.name)
        relationships := c.relationships }

end Catalog

/-- Tables without those that repeat a name in another case; `seen` are names in lower case. -/
def distinctTables (seen : List String) : List Table → List Table
  | [] => []
  | t :: rest =>
    let name := Text.lowered t.name
    if seen.contains name then distinctTables seen rest
    else t :: distinctTables (name :: seen) rest

namespace Session

/-- Brings fetched tables into the session, each name once. -/
def bring (s : Session) (fetched : Except ServiceError Import) (now : Timestamp) :
    Except ServiceError (Outcome × Session) := do
  let incoming ← fetched
  (s.run now (.merge { incoming with tables := distinctTables [] incoming.tables })).mapError
    .refused

end Session
end LakeSchema
