import CardDavMcp.Library.Utf8Text

namespace CardDavMcp.Urls

open Library.Utf8Text

/-- A parsed URL: its serialization and what the accessors read from it. The
port is the effective one, with the default of a known scheme filled in. -/
structure Url where
  serialization : Text
  scheme : Text
  username : Text := []
  password : Option Text := none
  hostStr : Option Text := none
  portOrKnownDefault : Option Nat := none
  path : Text := []
  query : Option Text := none
  fragment : Option Text := none
deriving DecidableEq, Repr

abbrev Pairs := List (Text × Text)

/-- The functions of the `url` crate that the program calls. -/
structure UrlCrate where
  parse : Text → Option Url
  join : Url → Text → Option Url
  setPath : Url → Text → Url
  clearQuery : Url → Url
  clearFragment : Url → Url
  /-- Pop an empty last path segment and push one segment. -/
  pushSegment : Url → Text → Option Url
  /-- Append pairs through `query_pairs_mut`. -/
  appendPairs : Url → Pairs → Url
  formParse : Text → Pairs
  formSerialize : Pairs → Text

/-- The value of the first pair with a key. -/
def firstValue (pairs : Pairs) (key : Text) : Option Text :=
  (pairs.find? (fun p => p.1 = key)).map Prod.snd

/-- The value that a map collected from the pairs holds for a key. -/
def lastValue (pairs : Pairs) (key : Text) : Option Text := firstValue pairs.reverse key

/-- The form encoding of a byte below 128. -/
def encodeChar (c : Char) : Text :=
  let hex (n : Nat) := "0123456789ABCDEF".toList.getD n '0'
  if c.isAlphanum || c = '*' || c = '-' || c = '.' || c = '_' then [c]
  else if c = ' ' then ['+']
  else ['%', hex (c.toNat / 16), hex (c.toNat % 16)]

def encodePairs (pairs : Pairs) : Text :=
  ['&'].intercalate (pairs.map (fun p => p.1.flatMap encodeChar ++ '=' :: p.2.flatMap encodeChar))

def parsePlain (s : Text) : Option Url :=
  match splitOnce ':' s with
  | some (scheme, '/' :: '/' :: rest) =>
    some { serialization := s, scheme := scheme, hostStr := some (rest.takeWhile (· ≠ '/')),
           portOrKnownDefault := some (if scheme = "http".toList then 80 else 443),
           path := rest.dropWhile (· ≠ '/') }
  | _ => none

def withPath (u : Url) (path : Text) : Url :=
  { u with
    serialization := u.scheme ++ "://".toList ++ u.hostStr.getD [] ++ path
    path := path }

/-- The crate on plain inputs: `http` and `https` URLs in normal form with a
path and nothing after it, absolute and relative paths, forms without escapes. -/
def plainUrls : UrlCrate where
  parse := parsePlain
  join u s :=
    let u := { u with query := none, fragment := none }
    if s.head? = some '/' then some (withPath u s)
    else if ':' ∈ s then parsePlain s
    else some (withPath u (u.path.rdropWhile (· ≠ '/') ++ s))
  setPath := withPath
  clearQuery u := { u with query := none }
  clearFragment u := { u with fragment := none }
  pushSegment u s := some (withPath u (u.path.rdropWhile (· = '/') ++ '/' :: s))
  appendPairs u pairs :=
    { u with
      serialization := u.serialization ++ '?' :: encodePairs pairs
      query := some (encodePairs pairs) }
  formParse s := (s.splitOn '&').filterMap (splitOnce '=')
  formSerialize := encodePairs

end CardDavMcp.Urls
