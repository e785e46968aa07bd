import LakeSchema.Text.CharClass

/-!
# Trimming, cutting and quoting

Small operations on texts as lists of characters, their size in bytes, and their forms on `String`. In
messages a text is quoted so that every character can be told apart on a terminal: quotes, backslashes
and the usual controls by a short escape, any other invisible character by its code point in braces.
-/

namespace LakeSchema.Text

/-- The bytes of UTF-8 that characters take. -/
def byteSize : List Char → Nat
  | [] => 0
  | c :: rest => c.utf8Size + byteSize rest

def trimStart (cs : List Char) : List Char :=
  cs.dropWhile isSpace

def trimEnd (cs : List Char) : List Char :=
  (cs.reverse.dropWhile isSpace).reverse

def trim (cs : List Char) : List Char :=
  trimEnd (trimStart cs)

def trimmed (s : String) : String :=
  String.ofList (trim s.toList)

def isBlank (s : String) : Bool :=
  s.toList.all isSpace

/-- Cuts at the first occurrence of a character, which belongs to neither side. -/
def cutAt? (mark : Char) : List Char → Option (List Char × List Char)
  | [] => none
  | c :: rest =>
    if c == mark then some ([], rest)
    else (cutAt? mark rest).map fun (left, right) => (c :: left, right)

/-- The rest of the text after `lead`, when the text begins with it. -/
def after? : (lead cs : List Char) → Option (List Char)
  | [], cs => some cs
  | _ :: _, [] => none
  | l :: ls, c :: cs => if l == c then after? ls cs else none

/-- The text in front of `tail`, when the text ends with it. -/
def before? (tail cs : List Char) : Option (List Char) :=
  (after? tail.reverse cs.reverse).map List.reverse

/-- What stands between an opening and a closing text. -/
def between? (opening closing cs : List Char) : Option (List Char) :=
  (after? opening cs).bind (before? closing)

def occursIn (part : List Char) : List Char → Bool
  | [] => part.isEmpty
  | c :: rest => part.isPrefixOf (c :: rest) || occursIn part rest

/-- Every run of white space becomes one space. -/
def collapseSpaces : List Char → List Char
  | [] => []
  | c :: rest =>
    if isSpace c then
      if rest.head?.any isSpace then collapseSpaces rest else ' ' :: collapseSpaces rest
    else c :: collapseSpaces rest

/-- Each character replaced by a text of its own. -/
def replaceChar (mark : Char) (text : List Char) (cs : List Char) : List Char :=
  cs.flatMap fun c => if c == mark then text else [c]

/-- The pieces between the occurrences of a character, none of them dropped. -/
def pieces (mark : Char) (s : String) : List String :=
  (s.toList.splitOn mark).map String.ofList

/-! ### Quoting -/

/-- The escaped form of a character inside the quotation mark `quote`. -/
def escapeChar (quote c : Char) : List Char :=
  if c == '\x00' then ['\\', '0']
  else if c == '\t' then ['\\', 't']
  else if c == '\r' then ['\\', 'r']
  else if c == '\n' then ['\\', 'n']
  else if c == '\\' || c == quote then ['\\', c]
  else if isVisible c then [c]
  else ['\\', 'u', '\x7b'] ++ hexDigits c.toNat ++ ['\x7d']

def quoted (s : String) : String :=
  String.ofList ('"' :: s.toList.flatMap (escapeChar '"') ++ ['"'])

def quotedChar (c : Char) : String :=
  String.ofList ('\'' :: escapeChar '\'' c ++ ['\''])

end LakeSchema.Text
