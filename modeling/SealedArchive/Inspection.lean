import SealedArchive.Secret

/-!
# Values as text for inspection

A value is shown as a tree of named fields, lists and single words, written
either on one line or with one entry a line.  A secret shows its length and a
fixed mark in the place of its bytes, so no text can tell them.
-/

namespace SealedArchive

/-- What is shown of a value. -/
inductive Shown where
  /-- A number, or any other text without parts. -/
  | word (text : String)
  /-- Some values in order. -/
  | list (items : List Shown)
  /-- A value with a name in front. -/
  | wrapped (name : String) (inner : Shown)
  /-- Named parts under a name. -/
  | record (name : String) (fields : List (String × Shown))

namespace Shown

/-- The mark in the place of secret bytes. -/
def redacted : Shown := word "\"[REDACTED]\""

/-- A number in decimal. -/
def number (n : Nat) : Shown := word (toString n)

/-- Some bytes as a list of numbers. -/
def ofBytes (bytes : Bytes) : Shown := list (bytes.map fun b => number b.toNat)

mutual

/-- The text on one line. -/
def compact : Shown → String
  | word text => text
  | list items => "[" ++ ", ".intercalate (compactItems items) ++ "]"
  | wrapped name inner => name ++ "(" ++ compact inner ++ ")"
  | record name fields =>
    name ++ " \x7b " ++ ", ".intercalate (compactFields fields) ++ " \x7d"

/-- The texts of some values, each on one line. -/
def compactItems : List Shown → List String
  | [] => []
  | item :: items => compact item :: compactItems items

/-- The texts of some named values, each on one line. -/
def compactFields : List (String × Shown) → List String
  | [] => []
  | (name, value) :: fields => (name ++ ": " ++ compact value) :: compactFields fields

end

/-- A line break and the indentation of some depth, four blanks a level. -/
def lineBreak (depth : Nat) : String := "\n" ++ "".pushn ' ' (4 * depth)

/-- Some entries between two brackets, each on a line of its own with a comma
after it. -/
def enclose (opening closing : String) (depth : Nat) (entries : List String) : String :=
  opening ++ String.join (entries.map fun entry => lineBreak (depth + 1) ++ entry ++ ",") ++
    lineBreak depth ++ closing

mutual

/-- The text with one entry a line, the brackets being at some depth. -/
def indented (depth : Nat) : Shown → String
  | word text => text
  | list [] => "[]"
  | list (item :: items) =>
    enclose "[" "]" depth (indented (depth + 1) item :: indentedItems (depth + 1) items)
  | wrapped name inner => enclose (name ++ "(") ")" depth [indented (depth + 1) inner]
  | record name fields =>
    enclose (name ++ " \x7b") "\x7d" depth (indentedFields (depth + 1) fields)

/-- The texts of some values, each with one entry a line. -/
def indentedItems (depth : Nat) : List Shown → List String
  | [] => []
  | item :: items => indented depth item :: indentedItems depth items

/-- The texts of some named values, each with one entry a line. -/
def indentedFields (depth : Nat) : List (String × Shown) → List String
  | [] => []
  | (name, value) :: fields =>
    (name ++ ": " ++ indented depth value) :: indentedFields depth fields

end

/-- The text with one entry a line. -/
def pretty (shown : Shown) : String := indented 0 shown

end Shown

/-- What is shown of a secret buffer: its width. -/
def SecretBuffer.shown {n : Nat} (_ : SecretBuffer n) : Shown :=
  .record "SecureBuffer" [("len", .number n), ("bytes", .redacted)]

/-- What is shown of a secret byte string: its length. -/
def SecretBytes.shown (s : SecretBytes) : Shown :=
  .record "SecureBytes" [("len", .number s.length), ("bytes", .redacted)]

end SealedArchive
