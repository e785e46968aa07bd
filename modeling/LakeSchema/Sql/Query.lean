import LakeSchema.Schema.Project
import LakeSchema.Sql.Identifier
import LakeSchema.Sql.Scan

/-!
# View queries

Checks that the query of a view is one read-only statement, finds the tables that it reads, and
qualifies the project tables among them. `Query.segments` cuts a query at its table references;
references and qualification both come from it.
-/

namespace LakeSchema

inductive QueryError where
  | empty
  | severalStatements
  | notAQuery
  | prohibited (keyword : String)
deriving DecidableEq

def QueryError.message : QueryError → String
  | empty => "view query cannot be empty"
  | severalStatements => "view query must be a single statement"
  | notAQuery => "view query must start with SELECT or WITH"
  | prohibited keyword => "view query contains prohibited keyword " ++ keyword

namespace Query

/-! ### Comments -/

/-- Each block comment becomes a space. An opening mark without a closing one is no comment. -/
def withoutBlocks : (inside : Bool) → List Char → List Char
  | _, [] => []
  | true, '*' :: '/' :: rest => ' ' :: withoutBlocks false rest
  | true, _ :: rest => withoutBlocks true rest
  | false, '/' :: '*' :: rest =>
    if Text.occursIn ['*', '/'] rest then withoutBlocks true rest else '/' :: '*' :: rest
  | false, c :: rest => c :: withoutBlocks false rest

/-- Each comment to the end of its line becomes a space. -/
def withoutLines : (inside : Bool) → List Char → List Char
  | _, [] => []
  | true, c :: rest => if c == '\n' then c :: withoutLines false rest else withoutLines true rest
  | false, '-' :: '-' :: rest => ' ' :: withoutLines true rest
  | false, c :: rest => c :: withoutLines false rest

/-- The text without comments, with single spaces between words. -/
def clean (cs : List Char) : List Char :=
  Text.trim (Text.collapseSpaces (withoutLines false (withoutBlocks false cs)))

/-! ### The check -/

def prohibitedKeywords : List String :=
  [ "INSERT", "UPDATE", "DELETE", "MERGE", "TRUNCATE", "DROP", "ALTER", "CREATE", "GRANT",
    "REVOKE", "CALL", "EXEC", "EXECUTE", "COPY", "OPTIMIZE", "VACUUM" ]

def startsAsQuery (cs : List Char) : Bool :=
  let body := Text.trimStart ((Text.after? ['('] cs).getD cs)
  (Sql.wholeKeyword? "SELECT" body).isSome || (Sql.wholeKeyword? "WITH" body).isSome

/-- A cleaned query without the semicolons at its end. -/
def body (cs : List Char) : List Char :=
  Text.trimEnd (cs.reverse.dropWhile (· == ';')).reverse

def problem? (sql : String) : Option QueryError :=
  let cleaned := clean sql.toList
  let body := body cleaned
  if cleaned.isEmpty then some .empty
  else if body.contains ';' then some .severalStatements
  else if !startsAsQuery body then some .notAQuery
  else
    (Sql.findKeyword? prohibitedKeywords none body).map fun found =>
      .prohibited (String.ofList (Text.upper found))

/-! ### Table references -/

/-- A name, quoted or not, that a text begins with. -/
def name? : List Char → Option (List Char × List Char)
  | [] => none
  | c :: rest =>
    if c == Sql.backtick then
      let inner := rest.takeWhile (· != Sql.backtick)
      match rest.dropWhile (· != Sql.backtick) with
      | close :: after => if inner.isEmpty then none else some (c :: inner ++ [close], after)
      | [] => none
    else if Sql.isQueryNameStart c then
      some (c :: rest.takeWhile Sql.isQueryNamePart, rest.dropWhile Sql.isQueryNamePart)
    else none

/-- Up to `more` further names, each after a dot. -/
def dottedNames : (more : Nat) → List Char → List Char × List Char
  | more + 1, '.' :: rest =>
    match name? rest with
    | some (name, rest) =>
      let (names, rest) := dottedNames more rest
      ('.' :: name ++ names, rest)
    | none => ([], '.' :: rest)
  | _, cs => ([], cs)

/-- A name of up to three parts. -/
def reference? (cs : List Char) : Option (List Char × List Char) :=
  (name? cs).map fun (name, rest) =>
    let (names, rest) := dottedNames 2 rest
    (name ++ names, rest)

/-- A piece of a query: a character, or the words that introduce a table with its reference. -/
inductive Segment where
  | other (c : Char)
  | table (lead reference : List Char)
deriving DecidableEq

/-- `FROM` or `JOIN`, white space, and a reference. -/
def tableClause? (cs : List Char) : Option (Segment × List Char) := do
  let (word, rest) ← (Sql.keyword? "FROM".toList cs).or (Sql.keyword? "JOIN".toList cs)
  let spaces := rest.takeWhile Text.isSpace
  if spaces.isEmpty then none
  else
    let (reference, rest) ← reference? (rest.dropWhile Text.isSpace)
    some (.table (word ++ spaces) reference, rest)

/-- The pieces of a text behind a character. Every round takes at least one character. -/
def segmentsFrom : (rounds : Nat) → (before : Option Char) → List Char → List Segment
  | 0, _, _ => []
  | _, _, [] => []
  | rounds + 1, before, c :: rest =>
    match if Sql.wordEndsAt before then tableClause? (c :: rest) else none with
    | some (.table lead reference, after) =>
      .table lead reference :: segmentsFrom rounds reference.getLast? after
    | _ => .other c :: segmentsFrom rounds (some c) rest

def segments (cs : List Char) : List Segment :=
  segmentsFrom cs.length none cs

/-- The table references of a query outside comments, each once. -/
def references (sql : String) : List String :=
  ((segments (clean sql.toList)).filterMap fun
    | .table _ reference => some (String.ofList reference)
    | .other _ => none).eraseDups

/-- A name without the backticks around it. -/
def unquoted (cs : List Char) : String :=
  String.ofList ((cs.dropWhile (· == Sql.backtick)).reverse.dropWhile (· == Sql.backtick)).reverse

/-- The parts between the dots outside backticks. `current` is the part being read, last character
first. -/
def partsFrom (quoted : Bool) (current : List Char) : List Char → List String
  | [] => [unquoted current.reverse]
  | c :: rest =>
    if c == '.' && !quoted then unquoted current.reverse :: partsFrom false [] rest
    else partsFrom (quoted != (c == Sql.backtick)) (c :: current) rest

def parts (reference : String) : List String :=
  partsFrom false [] reference.toList

/-- The table name at the end of a reference. -/
def tableName (reference : String) : String :=
  (parts reference).getLast?.getD reference

/-- The identifiers of the project tables that a query reads, in the order of first mention. -/
def tables (p : Project) (sql : String) : List String :=
  ((references sql).filterMap fun reference =>
    (p.tableNamed? (tableName reference)).map (·.id)).eraseDups

def reads (sql table : String) : Bool :=
  (references sql).any fun reference => Text.sameIgnoringCase (tableName reference) table

/-- The project table that a reference means. A reference with a catalog has to name the target of
the project. -/
def projectTable? (p : Project) (reference : String) : Option Table :=
  match (parts reference).reverse with
  | table :: schema :: catalog :: [] =>
    if Text.sameIgnoringCase catalog p.catalogName && Text.sameIgnoringCase schema p.schemaName then
      p.tableNamed? table
    else none
  | table :: _ => p.tableNamed? table
  | [] => none

/-- The text of a piece with project tables in qualified form. -/
def Segment.qualified (p : Project) (qualify : String → String) : Segment → List Char
  | .other c => [c]
  | .table lead reference =>
    lead ++ match projectTable? p (String.ofList reference) with
      | some t => (qualify t.name).toList
      | none => reference

/-- The query with every reference to a project table replaced by its qualified name. -/
def qualify (p : Project) (sql : String) (qualify : String → String) : String :=
  String.ofList ((segments sql.toList).flatMap (Segment.qualified p qualify))

end Query
end LakeSchema
