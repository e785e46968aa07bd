import LakeSchema.Schema.TagMap
import LakeSchema.Text.Words

/-!
# Tags in one text

Older documents list tags as texts: a keyword, `key:value`, or `key:[first, second]`. What fits
neither of the last two forms is a keyword as it stands, so only a blank text is no tag.
-/

namespace LakeSchema

inductive LegacyTag where
  | keyword (text : String)
  | pair (key value : String)
  | list (key : String) (values : List String)
deriving DecidableEq

namespace LegacyTag

/-- The values between the brackets of a list, blank ones left out. -/
def values (inner : List Char) : List String :=
  ((inner.splitOn ',').map fun piece => String.ofList (Text.trim piece)).filter (· != "")

/-- A tag whose text has a colon with `key` and `rest` on its sides. -/
def ofParts? (key rest : List Char) : Option LegacyTag :=
  match Text.between? ['['] [']'] rest with
  | some inner =>
    if key.isEmpty || (values inner).isEmpty then none
    else some (.list (String.ofList key) (values inner))
  | none =>
    if rest.contains ':' || key.isEmpty || rest.isEmpty then none
    else some (.pair (String.ofList key) (String.ofList rest))

def read? (text : String) : Option LegacyTag :=
  let cs := Text.trim text.toList
  if cs.isEmpty then none
  else
    ((Text.cutAt? ':' cs).bind fun (key, rest) => ofParts? (Text.trim key) (Text.trim rest)).or
      (some (.keyword (String.ofList cs)))

def text : LegacyTag → String
  | keyword s => s
  | pair key value => key ++ ":" ++ value
  | list key values => key ++ ":[" ++ ", ".intercalate values ++ "]"

def entry : LegacyTag → String × String
  | keyword key => (key, "")
  | pair key value => (key, value)
  | list key values => (key, ",".intercalate values)

/-- The map of a list of texts; later entries replace earlier ones. -/
def mapOf (texts : List String) : TagMap :=
  TagMap.ofList ((texts.filterMap read?).map entry)

end LegacyTag
end LakeSchema
