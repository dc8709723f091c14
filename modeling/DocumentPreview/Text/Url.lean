import DocumentPreview.Text.Integer
import DocumentPreview.Text.Split

namespace DocumentPreview

structure Url where
  scheme : String
  username : List Char
  password : Option (List Char)
  host : List Char
  port : Option Nat
  path : List Char
  query : Option (List Char)
  deriving DecidableEq, Repr

namespace Url

inductive ParseError where
  | relative
  | emptyHost
  | invalidHost
  | invalidAddress
  | invalidPort
  deriving DecidableEq, Repr

def ParseError.message : ParseError → String
  | .relative => "relative URL without a base"
  | .emptyHost => "empty host"
  | .invalidHost => "invalid domain character"
  | .invalidAddress => "invalid IPv6 address"
  | .invalidPort => "invalid port number"

def isSpecial (scheme : String) : Bool :=
  ["http", "https", "ws", "wss", "ftp"].contains scheme

def isSchemeChar (c : Char) : Bool :=
  c.isAlphanum || c = '+' || c = '-' || c = '.'

def readScheme? (cs : List Char) : Option (String × List Char) := do
  let (name, rest) ← Text.splitFirst? ':' cs
  let first ← name.head?
  if first.isAlpha ∧ name.all isSchemeChar then some (String.ofList (Text.lower name), rest) else none

def endsAuthority (c : Char) : Bool :=
  c = '/' || c = '?' || c = '#'

def isForbiddenInHost (c : Char) : Bool :=
  c.toNat ≤ 0x20 || [':', '<', '>', '@', '[', '\\', ']', '^', '|'].contains c

def splitHost (cs : List Char) : List Char × List Char :=
  match cs with
  | '[' :: r =>
    match Text.splitFirst? ']' r with
    | some (inner, rest) => ('[' :: inner ++ [']'], rest)
    | none => (cs, [])
  | _ => (cs.takeWhile (· ≠ ':'), cs.dropWhile (· ≠ ':'))

def isDottedAddress (cs : List Char) : Bool :=
  let parts := Text.splitOn '.' cs
  parts.length = 4 && parts.all fun p =>
    match Text.natural? p with
    | some n => n ≤ 255 && (p.length = 1 || p.head? ≠ some '0')
    | none => false

def isGroup (cs : List Char) : Bool :=
  1 ≤ cs.length && cs.length ≤ 4 && cs.all fun c => (Text.hexDigit? c).isSome

def groupCount? : List (List Char) → Option Nat
  | [] => some 0
  | [last] => if isGroup last then some 1 else if isDottedAddress last then some 2 else none
  | g :: rest => if isGroup g then (groupCount? rest).map (· + 1) else none

def splitGap? : List Char → Option (List Char × List Char)
  | ':' :: ':' :: r => some ([], r)
  | c :: r => (splitGap? r).map fun (a, b) => (c :: a, b)
  | [] => none

def groupsOf (cs : List Char) : List (List Char) :=
  if cs.isEmpty then [] else Text.splitOn ':' cs

def isLongAddress (cs : List Char) : Bool :=
  match splitGap? cs with
  | none => groupCount? (groupsOf cs) = some 8
  | some (a, b) =>
    match groupCount? (groupsOf a), groupCount? (groupsOf b) with
    | some m, some n => (groupsOf a).all isGroup && m + n ≤ 7
    | _, _ => false

def checkHost (cs : List Char) : Except ParseError Unit :=
  match cs with
  | '[' :: r =>
    if r.getLast? = some ']' ∧ isLongAddress r.dropLast then .ok () else .error .invalidAddress
  | _ => if cs.any isForbiddenInHost then .error .invalidHost else .ok ()

def readPort (cs : List Char) : Except ParseError (Option Nat) :=
  match cs with
  | [] => .ok none
  | ':' :: [] => .ok none
  | ':' :: digits =>
    match Text.readMagnitude 65535 .tooLarge 0 digits with
    | .ok n => .ok (some n)
    | .error _ => .error .invalidPort
  | _ => .error .invalidHost

structure Authority where
  username : List Char
  password : Option (List Char)
  host : List Char
  port : Option Nat

def readAuthority (special : Bool) (cs : List Char) : Except ParseError Authority := do
  let (userinfo, rest) := match Text.splitLast? '@' cs with
    | some (u, r) => (some u, r)
    | none => (none, cs)
  let (username, password) := match userinfo with
    | none => ([], none)
    | some u => match Text.splitFirst? ':' u with
      | some (n, p) => (n, some p)
      | none => (u, none)
  let (host, after) := splitHost rest
  checkHost host
  if host.isEmpty && (special || !after.isEmpty || userinfo.any (!·.isEmpty)) then throw .emptyHost
  let port ← readPort after
  return ⟨username, password, host, port⟩

def splitPath (cs : List Char) : List Char × Option (List Char) :=
  let cs := cs.takeWhile (· ≠ '#')
  match Text.splitFirst? '?' cs with
  | some (p, q) => (p, some q)
  | none => (cs, none)

def parse (text : String) : Except ParseError Url := do
  let cs := text.toList.filter fun c => c ≠ '\t' && c ≠ '\n' && c ≠ '\r'
  let cs := cs.dropWhile (·.toNat ≤ 0x20)
  let cs := (cs.reverse.dropWhile (·.toNat ≤ 0x20)).reverse
  match readScheme? cs with
  | none => throw .relative
  | some (scheme, rest) =>
    let body := if isSpecial scheme then some (rest.dropWhile fun c => c = '/' || c = '\\')
      else Text.after? ['/', '/'] rest
    match body with
    | none =>
      let (path, query) := splitPath rest
      return ⟨scheme, [], none, [], none, path, query⟩
    | some body =>
      let a ← readAuthority (isSpecial scheme) (body.takeWhile fun c => !endsAuthority c)
      let (path, query) := splitPath (body.dropWhile fun c => !endsAuthority c)
      return ⟨scheme, a.username, a.password, a.host, a.port, path, query⟩

end Url

end DocumentPreview
