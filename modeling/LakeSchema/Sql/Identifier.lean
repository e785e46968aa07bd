import LakeSchema.Text.Case
import LakeSchema.Text.Words

/-!
# SQL identifiers and literals

Plain names stand as they are; all others, and reserved words, stand between backticks with the
backticks inside doubled. Text literals stand between single quotes with a backslash in front of
quotes and backslashes.
-/

namespace LakeSchema.Sql

def reservedWords : List String :=
  [ "all", "alter", "and", "any", "array", "as", "asc", "between", "both", "by", "case",
    "cast", "check", "collate", "column", "constraint", "create", "cross", "current",
    "current_date", "current_timestamp", "current_user", "date", "default", "delete",
    "desc", "distinct", "drop", "else", "end", "except", "exists", "false", "fetch",
    "for", "foreign", "from", "full", "grant", "group", "having", "in", "inner",
    "insert", "intersect", "interval", "into", "is", "join", "key", "lateral", "leading",
    "left", "like", "limit", "map", "natural", "not", "null", "of", "offset", "on", "or",
    "order", "outer", "overlaps", "primary", "references", "revoke", "right", "rollback",
    "select", "set", "some", "struct", "table", "then", "time", "timestamp", "to",
    "trailing", "true", "union", "unique", "update", "user", "using", "values", "view",
    "when", "where", "window", "with" ]

/-- Whether a word is reserved, in any case. -/
def isReserved (word : String) : Bool :=
  reservedWords.contains (Text.lowered word)

/-- An ASCII letter or underscore, then letters, digits and underscores. -/
def isPlainName : List Char → Bool
  | [] => false
  | c :: rest => Text.isIdentifierStart c && rest.all Text.isIdentifierPart

def backtick : Char :=
  '\x60'

def inBackticks (cs : List Char) : List Char :=
  backtick :: Text.replaceChar backtick [backtick, backtick] cs ++ [backtick]

/-- The form in which a name stands in a statement. -/
def quoteIdentifier (name : String) : String :=
  if isPlainName name.toList && !isReserved name then name
  else String.ofList (inBackticks name.toList)

/-- The form of a dotted name, each part on its own. -/
def quoteQualified (parts : List String) : String :=
  ".".intercalate (parts.map quoteIdentifier)

/-- The text without control characters other than line breaks and tabs. -/
def withoutControls (text : String) : String :=
  String.ofList (text.toList.filter fun c =>
    !Text.isControl c || c == '\n' || c == '\t' || c == '\r')

def escapeLiteral (cs : List Char) : List Char :=
  cs.flatMap fun c => if c == '\\' || c == '\'' then ['\\', c] else [c]

/-- The literal of a text without its control characters. -/
def stringLiteral (text : String) : String :=
  String.ofList ('\'' :: escapeLiteral (withoutControls text).toList ++ ['\''])

end LakeSchema.Sql
