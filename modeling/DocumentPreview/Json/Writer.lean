import DocumentPreview.Json.Basic
import DocumentPreview.Text.Numeral

namespace DocumentPreview.Json

def escapeChar (c : Char) : List Char :=
  if c = '"' then ['\\', '"']
  else if c = '\\' then ['\\', '\\']
  else if c = '\n' then ['\\', 'n']
  else if c = '\r' then ['\\', 'r']
  else if c = '\t' then ['\\', 't']
  else if c = '\x08' then ['\\', 'b']
  else if c = '\x0C' then ['\\', 'f']
  else if c.toNat < 0x20 then ['\\', 'u'] ++ Text.fixedDigits 16 4 c.toNat
  else [c]

def quoted (s : List Char) : List Char :=
  '"' :: s.flatMap escapeChar ++ ['"']

def renderString : Option String → List Char
  | some s => quoted s.toList
  | none => '"' :: '\\' :: 'u' :: 'd' :: '8' :: '0' :: '0' :: ['"']

def renderNumber (n : JsonNumber) : List Char :=
  (if n.negative then ['-'] else []) ++ Text.decimal n.whole
    ++ (if n.fraction.isEmpty then [] else '.' :: n.fraction.map Text.digitChar)
    ++ (match n.exponent with
        | none => []
        | some e => 'e' :: Text.integer e)

mutual

def render : Json → List Char
  | .null => "null".toList
  | .bool true => "true".toList
  | .bool false => "false".toList
  | .number n => renderNumber n
  | .string s => renderString s
  | .array items => '[' :: renderItems items ++ [']']
  | .object members => '{' :: renderMembers members ++ ['}']

def renderItems : List Json → List Char
  | [] => []
  | [j] => render j
  | j :: k :: r => render j ++ ',' :: renderItems (k :: r)

def renderMembers : List (Option String × Json) → List Char
  | [] => []
  | [(n, j)] => renderString n ++ ':' :: render j
  | (n, j) :: m :: r => renderString n ++ ':' :: (render j ++ ',' :: renderMembers (m :: r))

end

def toText (j : Json) : String :=
  String.ofList j.render

def toBytes (j : Json) : Bytes :=
  Utf8.encode j.render

end DocumentPreview.Json
