import HireAndTech.Text.Urls

/-!
# Relative references

{lit}`urllib.parse.urljoin`: a reference is resolved against a base URL.  It fails where splitting
one of the two fails.

Main results:

- Definition {lit}`urljoin`.
- Theorem {lit}`urljoin_isSome_iff`: which references can be resolved.
-/

namespace Text

/-- `uses_relative`. -/
def usesRelative : List (List Char) :=
  ["", "ftp", "http", "gopher", "nntp", "imap", "wais", "file", "https", "shttp", "mms",
    "prospero", "rtsp", "rtsps", "rtspu", "sftp", "svn", "svn+ssh", "ws", "wss"].map String.toList

/-- `uses_params`. -/
def usesParams : List (List Char) :=
  ["", "ftp", "hdl", "prospero", "http", "imap", "https", "shttp", "rtsp", "rtsps", "rtspu", "sip",
    "sips", "mms", "sftp", "tel"].map String.toList

/-- `ParseResult`: the parts of a URL, with the parameters of its last segment apart. -/
structure ParseResult extends SplitResult where
  params : List Char
deriving DecidableEq, Repr

/-- `_splitparams`. -/
def splitParams (path : List Char) : List Char × List Char :=
  let (segment, params) := partition ';' (path.rtakeWhile (· ≠ '/'))
  (path.rdropWhile (· ≠ '/') ++ segment, params)

/-- `urlparse`, with a scheme for URLs that have none. -/
def urlparse (u : Unicode) (url scheme : List Char) : Option ParseResult :=
  (urlsplit u url).map fun parts =>
    let scheme := if parts.scheme = [] then scheme else parts.scheme
    let (path, params) :=
      if usesParams.contains scheme then splitParams parts.path else (parts.path, [])
    { parts with scheme, path, params }

/-- `urlunparse`. -/
def urlunparse (parts : ParseResult) : List Char :=
  urlunsplit { parts.toSplitResult with
    path := if parts.params = [] then parts.path else parts.path ++ ';' :: parts.params }

/-- The segments of a reference after those of the base, without the empty ones in between. -/
def joinSegments (base path : List Char) : List (List Char) :=
  let parts := base.splitOn '/'
  let kept := if parts.getLast? = some [] then parts else parts.dropLast
  match kept ++ path.splitOn '/' with
  | [] => []
  | first :: rest => first :: (rest.dropLast.filter (· ≠ []) ++ rest.getLast?.toList)

/-- The segments without dots. -/
def resolveSegments (segments : List (List Char)) : List (List Char) :=
  let resolved := segments.foldl (fun resolved segment =>
    if segment = ['.', '.'] then resolved.dropLast
    else if segment = ['.'] then resolved
    else resolved ++ [segment]) []
  if segments.getLast? = some ['.'] ∨ segments.getLast? = some ['.', '.'] then resolved ++ [[]]
  else resolved

/-- The path of a reference that is resolved against the path of the base. -/
def resolvePath (base path : List Char) : List Char :=
  let segments := if path.head? = some '/' then path.splitOn '/' else joinSegments base path
  let resolved := ['/'].intercalate (resolveSegments segments)
  if resolved = [] then ['/'] else resolved

/-- A reference that has been parsed, resolved against a base. -/
def joinParts (base parts : ParseResult) (url : List Char) : List Char :=
  if parts.scheme ≠ base.scheme ∨ ¬usesRelative.contains parts.scheme then url
  else if usesNetloc.contains parts.scheme ∧ parts.netloc ≠ [] then urlunparse parts
  else
    let netloc := if usesNetloc.contains parts.scheme then base.netloc else parts.netloc
    if parts.path = [] ∧ parts.params = [] then
      urlunparse { parts with
        netloc, path := base.path, params := base.params
        query := if parts.query = [] then base.query else parts.query }
    else urlunparse { parts with netloc, path := resolvePath base.path parts.path }

/-- `urljoin`; a `ValueError` is `none`. -/
def urljoin (u : Unicode) (base url : List Char) : Option (List Char) :=
  if base = [] then some url
  else if url = [] then some base
  else do
    let baseParts ← urlparse u base []
    let parts ← urlparse u url baseParts.scheme
    return joinParts baseParts parts url

/-- A reference can be resolved against a base that can be split if it can be split itself. -/
theorem urljoin_isSome_iff {u : Unicode} {base url : List Char} (hbase : base ≠ [])
    (hsplit : (urlsplit u base).isSome = true) :
    (urljoin u base url).isSome = true ↔ url = [] ∨ (urlsplit u url).isSome = true := by
  obtain ⟨parts, hparts⟩ := Option.isSome_iff_exists.mp hsplit
  by_cases hurl : url = []
  · simp [urljoin, hbase, hurl]
  · cases hreference : urlsplit u url with
    | none => simp [urljoin, urlparse, hbase, hurl, hparts, hreference]
    | some reference => simp [urljoin, urlparse, hbase, hurl, hparts, hreference]

end Text
