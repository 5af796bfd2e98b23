import MarketFeed.Url

/-!
# Reading URLs

Only URLs with a path of segments are read; these can be built on. White space and controls
at the ends of a text are no part of the URL, nor are tabs and line ends anywhere in it.
-/

namespace MarketFeed.Url

open Text Number

/-- Characters that are no part of a URL at its ends. -/
def isTrimmed (c : Char) : Bool := c.toNat ≤ 0x20

/-- The characters of a text that are part of the URL. -/
def significant (s : List Char) : List Char :=
  let s := (s.dropWhile isTrimmed).reverse.dropWhile isTrimmed
  s.reverse.filter fun c => !isDropped c

/-- Read a scheme: a letter, then letters, digits and a few marks up to a colon. -/
def readScheme? (s : List Char) : Option (List Char × List Char) := do
  let (scheme, rest) ← cutAt? (· = ':') s
  match scheme with
  | [] => none
  | first :: others =>
    if first.isAlpha && others.all fun c => c.isAlphanum || ['+', '-', '.'].contains c then
      some (scheme.map Char.toLower, rest)
    else none

/-- A character ends the part of a URL that names its host. -/
def endsAuthority (special : Bool) (c : Char) : Bool :=
  separates special c || c == '?' || c == '#'

/-- Split the text after a path off: what stands before a query or a fragment, and these. -/
def splitTail (special : Bool) (s : List Char) :
    List Char × Option (List Char) × Option (List Char) :=
  let (s, fragment) := match cutAt? (· = '#') s with
    | some (before, after) => (before, some (escape escapedInFragment after))
    | none => (s, none)
  match cutAt? (· = '?') s with
  | some (before, after) => (before, some (escape (escapedInQuery special) after), fragment)
  | none => (s, none, fragment)

/-- Read the user in front of a host, up to the last at sign. -/
def readUser (s : List Char) : List Char × List Char :=
  match cutAt? (· = ':') s with
  | some (user, password) => (escape escapedInUser user, escape escapedInUser password)
  | none => (escape escapedInUser s, [])

/-- Cut a text at its last mark, which is in neither part. -/
def cutAtLast? (isMark : Char → Bool) (s : List Char) : Option (List Char × List Char) :=
  (cutAt? isMark s.reverse).map fun (after, before) => (before.reverse, after.reverse)

/-- Split a host from the number after it. Colons in brackets belong to the host. -/
def splitHost : Bool → List Char → List Char × Option (List Char)
  | _, [] => ([], none)
  | false, ':' :: rest => ([], some rest)
  | inside, c :: rest =>
    let inside := if c = '[' then true else if c = ']' then false else inside
    let (host, number) := splitHost inside rest
    (c :: host, number)

/-- Read a number behind a host. There may be no digits. -/
def readNumber (s : List Char) : Except UrlError (Option Nat) :=
  if s.isEmpty then .ok none
  else if s.all Char.isDigit then
    match Host.readToBase? 10 0 s with
    | some n => if n < UInt16.size then .ok (some n) else .error .badNumber
    | none => .error .badNumber
  else .error .badNumber

/-- Read the path of a URL. Special URLs have one segment at least. -/
def readPath (special : Bool) (s : List Char) : List (List Char) :=
  match s with
  | [] => if special then [[]] else []
  | c :: rest => if separates special c then readSegments special rest else readSegments special s

/-- Read what follows the two slashes after a scheme. -/
def readAuthority (scheme s : List Char) : Except UrlError Url := do
  let kind := schemeKind scheme
  let special := kind.isSpecial
  let authority := s.takeWhile fun c => !endsAuthority special c
  let (path, query, fragment) := splitTail special (s.drop authority.length)
  let (userText, hostText) ← match cutAtLast? (· = '@') authority with
    | none => pure ([], authority)
    | some ([], rest) =>
      if rest.isEmpty && s.length ≠ authority.length then throw .emptyHost else pure ([], rest)
    | some (user, rest) => pure (user, rest)
  let (user, password) := readUser userText
  let (hostName, numberText) := splitHost false hostText
  if hostName.isEmpty && (special || numberText.isSome) then throw .emptyHost
  let host ← if special then Host.read hostName else Host.readPlain hostName
  let named := !(user.isEmpty && password.isEmpty)
  if hostName.isEmpty && named then throw .emptyHost
  let number ← match numberText with
    | some text => readNumber text
    | none => pure none
  pure
    { scheme := scheme
      user := user
      password := password
      host := some host
      number := if number = standardNumber? scheme then none else number
      path := readPath special path
      query := query
      fragment := fragment }

/-! ## URLs of files -/

/-- A drive is written with a colon. -/
def drive (s : List Char) : List Char := s.take 1 ++ [':']

/-- The path of a file: it begins with no empty segment that others follow, and the drive it
may begin with is written with a colon. -/
def filePath (special : Bool) (s : List Char) : List (List Char) :=
  match (readPath special s).dropWhile (·.isEmpty) with
  | [] => [[]]
  | first :: rest => (if isDrive first then drive first else first) :: rest

/-- The URL of a file. A path that begins with a drive is on no host. -/
def ofFile (host : Option Host) (s : List Char) : Url :=
  let (pathText, query, fragment) := splitTail true s
  let path := filePath true pathText
  let onDrive := (path.head?.map isDrive).getD false
  { scheme := "file".toList
    user := []
    password := []
    host := if onDrive then none else host
    number := none
    path := path
    query := query
    fragment := fragment }

/-- Read what follows the two slashes of the URL of a file. -/
def readFileAuthority (s : List Char) : Except UrlError Url := do
  let hostText := s.takeWhile fun c => !endsAuthority true c
  if isDrive hostText then pure (ofFile none s)
  else
    let rest := s.drop hostText.length
    if hostText.isEmpty then pure (ofFile none rest)
    else
      let host ← Host.read hostText
      pure (ofFile (if host = .name "localhost".toList then none else some host) rest)

/-- Read the URL of a file behind its scheme. -/
def readFile (s : List Char) : Except UrlError Url :=
  match s with
  | a :: b :: rest =>
    if separates true a && separates true b then readFileAuthority rest else .ok (ofFile none s)
  | s => .ok (ofFile none s)

/-! ## All URLs -/

/-- Read a URL under a scheme that is not special. -/
def readOther (scheme s : List Char) : Except UrlError Url :=
  match s with
  | '/' :: '/' :: rest => readAuthority scheme rest
  | '/' :: _ =>
    let (path, query, fragment) := splitTail false s
    .ok
      { scheme := scheme
        user := []
        password := []
        host := none
        number := none
        path := readPath false path
        query := query
        fragment := fragment }
  | _ => .error .rootless

/-- Read a URL that others can be built on. -/
def read (s : String) : Except UrlError Url :=
  match readScheme? (significant s.toList) with
  | none => .error .relative
  | some (scheme, rest) =>
    match schemeKind scheme with
    | .web => readAuthority scheme (rest.dropWhile (separates true))
    | .file => readFile rest
    | .other => readOther scheme rest

end MarketFeed.Url
