import Coalesce.Url.Host

/-!
# Reading addresses

`Url.parse` reads a text by the living standard for addresses, without a base: blanks and controls
around it and line breaks inside it do not count, a special scheme needs a host, and every part is
percent-encoded by its own set.
-/

namespace Coalesce.Url

/-- the text without blanks and controls around it, and without tabs and line breaks -/
def cleaned (s : String) : List Char :=
  let outer (c : Char) : Bool := c.toNat ≤ 0x20
  let inner := ((s.toList.dropWhile outer).reverse.dropWhile outer).reverse
  inner.filter fun c => c ≠ '\t' && c ≠ '\n' && c ≠ '\r'

/-- The scheme in lower case, and what is behind its colon. -/
def scheme? (s : List Char) : Option (String × List Char) :=
  let part (c : Char) : Bool := c.isAlphanum || c = '+' || c = '-' || c = '.'
  let name := s.takeWhile part
  match name, s.dropWhile part with
  | c :: _, ':' :: rest =>
    if c.isAlpha then some (String.ofList (name.map Char.toLower), rest) else none
  | _, _ => none

/-- where the authority ends -/
def endsAuthority (special : Bool) (c : Char) : Bool :=
  c = '/' || c = '?' || c = '#' || (special && c = '\\')

/-- User name, password, and the rest, which begins behind the last `@` of the authority. -/
def userInfo (special : Bool) (s : List Char) :
    Except UrlError (String × String × Bool × List Char) :=
  let authority := s.takeWhile fun c => !endsAuthority special c
  let behind := authority.reverse.takeWhile (· ≠ '@')
  if behind.length = authority.length then .ok ("", "", false, s)
  else
    let info := authority.take (authority.length - behind.length - 1)
    let rest := s.drop (info.length + 1)
    if info.isEmpty ∧ (rest.head?.map (endsAuthority special)).getD false then .error .emptyHost
    else
      let user := info.takeWhile (· ≠ ':')
      let password := info.drop (user.length + 1)
      let shown := !(user.isEmpty && password.isEmpty)
      .ok (Percent.encode Percent.userInfo user, Percent.encode Percent.userInfo password,
        shown, rest)

/-- Where a host ends; inside brackets a colon belongs to it. -/
def hostLength (special : Bool) : Bool → List Char → Nat
  | _, [] => 0
  | bracket, c :: rest =>
    if (c = ':' && !bracket) || endsAuthority special c then 0
    else hostLength special (if c = '[' then true else if c = ']' then false else bracket) rest + 1

/-- A port behind its colon: none when it is left out. -/
def portNumber : Nat → Bool → List Char → Except UrlError (Option Nat × List Char)
  | n, seen, [] => .ok (if seen then some n else none, [])
  | n, seen, c :: rest =>
    if c.isDigit then
      let n := n * 10 + (c.toNat - 48)
      if 65535 < n then .error .badPort else portNumber n true rest
    else if c = '/' || c = '\\' || c = '?' || c = '#' then
      .ok (if seen then some n else none, c :: rest)
    else .error .badPort

/-! ## paths -/

def lowerText (s : String) : String := String.ofList (s.toList.map Char.toLower)

def isSingleDot (s : String) : Bool := ["." , "%2e"].contains (lowerText s)

def isDoubleDot (s : String) : Bool :=
  ["..", "%2e%2e", "%2e.", ".%2e"].contains (lowerText s)

/-- a letter and a colon or a bar -/
def isDriveLetter (s : String) : Bool :=
  match s.toList with
  | [c, d] => c.isAlpha && (d = ':' || d = '|')
  | _ => false

/-- Drops the last segment, but never the drive of a file. -/
def shorten (file : Bool) (done : List String) : List String :=
  match done with
  | [] => []
  | [drive] => if file && isDriveLetter drive then [drive] else []
  | _ :: rest => rest

/-- One segment; those before it are kept last first. -/
def pushSegment (file : Bool) (done : List String) (segment : String) (more : Bool) :
    List String :=
  if isDoubleDot segment then
    let done := shorten file done
    if more then done else "" :: done
  else if isSingleDot segment then if more then done else "" :: done
  else if file && done.isEmpty && isDriveLetter segment then
    String.ofList (segment.toList.take 1 ++ [':']) :: done
  else segment :: done

/-- The segments of a path, from the text behind its first slash. -/
def segments (special file : Bool) (done : List String) (current : List Char) :
    List Char → List String
  | [] => (pushSegment file done (Percent.encode Percent.path current.reverse) false).reverse
  | c :: rest =>
    if c = '/' || (special && c = '\\') then
      segments special file
        (pushSegment file done (Percent.encode Percent.path current.reverse) true) [] rest
    else segments special file done (c :: current) rest

/-- a path behind an authority, with or without its first slash -/
def pathOf (special file : Bool) (s : List Char) : UrlPath :=
  match s with
  | [] => .segments (if special then [""] else [])
  | c :: rest =>
    if c = '/' || (special && c = '\\') then .segments (segments special file [] [] rest)
    else .segments (segments special file [] [] s)

/-- Path text, query and fragment. -/
def tails (s : List Char) : List Char × Option (List Char) × Option (List Char) :=
  let front := s.takeWhile (· ≠ '#')
  let fragment := if front.length < s.length then some (s.drop (front.length + 1)) else none
  let path := front.takeWhile (· ≠ '?')
  let query := if path.length < front.length then some (front.drop (path.length + 1)) else none
  (path, query, fragment)

/-- Adds query and fragment. -/
def withTails (u : Url) (query fragment : Option (List Char)) : Url :=
  let set := if isSpecial u.scheme then Percent.specialQuery else Percent.query
  { u with
    query := query.map (Percent.encode set)
    fragment := fragment.map (Percent.encode Percent.fragment) }

/-! ## the whole address -/

/-- An address with an authority, from the text behind its two slashes. -/
def afterSlashes (scheme : String) (s : List Char) : Except UrlError Url := do
  let special := isSpecial scheme
  let (username, password, shown, rest) ← userInfo special s
  let n := hostLength special false rest
  let hostText := rest.take n
  let rest := rest.drop n
  if special ∧ hostText.isEmpty then .error .emptyHost
  else
    let host ← if special then Host.ofDomain hostText else Host.ofOpaque hostText
    if host = .name "" ∧ (rest.head? = some ':' ∨ special ∨ shown) then .error .emptyHost
    else
      let (number, rest) ← match rest with
        | ':' :: rest => portNumber 0 false rest
        | rest => .ok (none, rest)
      let number := if number = defaultPort scheme then none else number
      let (path, query, fragment) := tails rest
      return withTails
        { scheme, username, password, host := some host, port := number,
          path := pathOf special false path } query fragment

/-- The host of a file, and the rest; a drive letter is no host. -/
def fileHost (s : List Char) : Except UrlError (Host × List Char) := do
  let text := s.takeWhile fun c => !endsAuthority true c
  if isDriveLetter (String.ofList text) ∨ text.isEmpty then return (.name "", s)
  else
    let host ← Host.ofDomain text
    return (if host = .name "localhost" then .name "" else host, s.drop text.length)

/-- The address of a file. -/
def ofFile (s : List Char) : Except UrlError Url := do
  let slash (c : Char) : Bool := c = '/' || c = '\\'
  let (host, rest) ← match s with
    | a :: b :: rest =>
      if slash a && slash b then fileHost rest else .ok (.name "", s)
    | s => .ok (.name "", s)
  let (path, query, fragment) := tails rest
  return withTails { scheme := "file", host := some host, path := pathOf true true path }
    query fragment

/-- Reads an address. -/
def parse (text : String) : Except UrlError Url :=
  match scheme? (cleaned text) with
  | none => .error .noScheme
  | some (scheme, rest) =>
    if scheme = "file" then ofFile rest
    else if isSpecial scheme then
      afterSlashes scheme (rest.dropWhile fun c => c = '/' || c = '\\')
    else
      match rest with
      | '/' :: '/' :: rest => afterSlashes scheme rest
      | rest =>
        let (path, query, fragment) := tails rest
        let path : UrlPath := match path with
          | '/' :: path => .segments (segments false false [] [] path)
          | path => .opaqueText (Percent.encode Percent.control path)
        .ok (withTails { scheme, path } query fragment)

/-- why a text is no address, in words -/
def fault? (text : String) : Option String :=
  match parse text with
  | .ok _ => none
  | .error e => some e.text

end Coalesce.Url
