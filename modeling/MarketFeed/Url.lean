import MarketFeed.Url.Host
import MarketFeed.Url.Path

/-!
# URLs

A URL has a scheme, perhaps a host with a user and a number, a path, and perhaps a query and
a fragment. The schemes of the web are special: they need a host, they have a number that is
left out, and a backslash separates segments under them as a slash does.
-/

namespace MarketFeed

/-- A URL. The parts are escaped. -/
structure Url where
  scheme : List Char
  user : List Char
  password : List Char
  host : Option Host
  number : Option Nat
  path : List (List Char)
  query : Option (List Char)
  fragment : Option (List Char)

namespace Url

/-- The kinds of schemes. -/
inductive SchemeKind
  | web
  | file
  | other
  deriving DecidableEq, Repr

/-- The schemes of the web with the numbers that are left out. -/
def webSchemes : List (String × Nat) :=
  [("http", 80), ("https", 443), ("ws", 80), ("wss", 443), ("ftp", 21)]

/-- The number that is left out under a scheme. -/
def standardNumber? (scheme : List Char) : Option Nat :=
  (webSchemes.find? fun entry => entry.1.toList = scheme).map (·.2)

/-- The kind of a scheme. -/
def schemeKind (scheme : List Char) : SchemeKind :=
  if (standardNumber? scheme).isSome then .web
  else if scheme = "file".toList then .file
  else .other

/-- A scheme is special if it is one of the web or that of files. -/
def SchemeKind.isSpecial : SchemeKind → Bool
  | web | file => true
  | other => false

/-- The user of a URL, if it names one. -/
def userChars (url : Url) : List Char :=
  if url.user.isEmpty && url.password.isEmpty then []
  else if url.password.isEmpty then url.user ++ ['@']
  else url.user ++ ':' :: url.password ++ ['@']

/-- The part of a URL between its scheme and its path. Without a host, a path that begins
with an empty segment is set apart from one. -/
def authorityChars (url : Url) : List Char :=
  match url.host with
  | some host =>
    '/' :: '/' :: url.userChars ++ host.chars ++
      (match url.number with
        | some n => ':' :: Number.natChars n
        | none => [])
  | none =>
    if schemeKind url.scheme = .file then ['/', '/']
    else
      match url.path with
      | [] :: _ :: _ => ['/', '.']
      | _ => []

/-- What stands behind the path of a URL. -/
def tailChars (mark : Char) : Option (List Char) → List Char
  | some s => mark :: s
  | none => []

/-- The text of a URL. -/
def chars (url : Url) : List Char :=
  url.scheme ++ ':' :: url.authorityChars ++ pathChars url.path ++ tailChars '?' url.query ++
    tailChars '#' url.fragment

/-- The text of a URL. -/
def text (url : Url) : String := String.ofList url.chars

/-- What a server is asked for: the path and the query. -/
def target (url : Url) : String :=
  String.ofList (pathChars url.path ++ tailChars '?' url.query)

/-- Extend the path of a URL by texts as one segment each, in place of the empty segment it
ends with. -/
def extend (url : Url) (texts : List (List Char)) : Url :=
  let special := (schemeKind url.scheme).isSpecial
  { url with path := texts.foldl (extendPath special) (withoutEmptyEnd url.path) }

end Url

end MarketFeed
