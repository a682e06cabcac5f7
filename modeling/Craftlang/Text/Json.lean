import Craftlang.Text.Utf8

/-!
# JSON documents

Documents with integer numbers, written on one line or indented. Text is written so that it can
stand inside markup: the characters `<`, `>` and `&` and the two Unicode line separators are escaped.
-/

namespace Craftlang

inductive Json where
  | null
  | bool (b : Bool)
  | int (n : Int)
  | text (s : Bytes)
  | list (items : List Json)
  | object (fields : List (Bytes × Json))

namespace Json

/-- How one rune is written inside a JSON string. -/
def escape (rune : Utf8.Rune) (spelling : Bytes) : Bytes :=
  match rune with
  | .stray _ => Utf8.encode Utf8.replacement
  | .point code _ =>
    if code = 0x22 then "\\\""
    else if code = 0x5C then "\\\\"
    else if code = 8 then "\\b"
    else if code = 9 then "\\t"
    else if code = 10 then "\\n"
    else if code = 12 then "\\f"
    else if code = 13 then "\\r"
    else if code < 0x20 || code = 0x3C || code = 0x3E || code = 0x26 || code = 0x2028
        || code = 0x2029 then
      "\\u" ++ Bytes.inBasePadded 16 4 code
    else spelling

/-- A text as a JSON string. -/
def quote (s : Bytes) : Bytes :=
  [byte '"'] ++ (Utf8.runes s).flatMap (fun (rune, spelling) => escape rune spelling) ++ [byte '"']

mutual

/-- The document on one line. -/
def compact : Json → Bytes
  | null => "null"
  | bool true => "true"
  | bool false => "false"
  | int n => Bytes.signedDecimal n
  | text s => quote s
  | list items => "[" ++ Bytes.join "," (compactItems items) ++ "]"
  | object fields => "\x7b" ++ Bytes.join "," (compactFields fields) ++ "\x7d"

def compactItems : List Json → List Bytes
  | [] => []
  | item :: items => compact item :: compactItems items

def compactFields : List (Bytes × Json) → List Bytes
  | [] => []
  | (key, value) :: fields => (quote key ++ ":" ++ compact value) :: compactFields fields

end

/-- A new line at a depth of nesting. -/
def newLine (level : Bytes) (depth : Nat) : Bytes :=
  lineFeed :: (List.replicate depth level).flatten

mutual

/-- The document over several lines, indented by `level` once for each level of nesting. -/
def indented (level : Bytes) (depth : Nat) : Json → Bytes
  | null => "null"
  | bool true => "true"
  | bool false => "false"
  | int n => Bytes.signedDecimal n
  | text s => quote s
  | list [] => "[]"
  | list (item :: items) =>
    "[" ++ newLine level (depth + 1)
      ++ Bytes.join ("," ++ newLine level (depth + 1)) (indentedItems level (depth + 1) (item :: items))
      ++ newLine level depth ++ "]"
  | object [] => "\x7b\x7d"
  | object (field :: fields) =>
    "\x7b" ++ newLine level (depth + 1)
      ++ Bytes.join ("," ++ newLine level (depth + 1)) (indentedFields level (depth + 1) (field :: fields))
      ++ newLine level depth ++ "\x7d"

def indentedItems (level : Bytes) (depth : Nat) : List Json → List Bytes
  | [] => []
  | item :: items => indented level depth item :: indentedItems level depth items

def indentedFields (level : Bytes) (depth : Nat) : List (Bytes × Json) → List Bytes
  | [] => []
  | (key, value) :: fields =>
    (quote key ++ ": " ++ indented level depth value) :: indentedFields level depth fields

end

/-- A field on its own. -/
def field (key : Bytes) (value : Json) : List (Bytes × Json) := [(key, value)]

/-- A field that is written only if a condition holds. -/
def fieldIf (condition : Bool) (key : Bytes) (value : Json) : List (Bytes × Json) :=
  if condition then [(key, value)] else []

/-- The document over several lines, with two spaces for each level of nesting. -/
def pretty (doc : Json) : Bytes := indented "  " 0 doc

end Json

end Craftlang
