import Freepod.Base.Assoc
import Freepod.Base.PercentEncoding
import Freepod.Values.Text
import Mathlib.Data.Char
import Mathlib.Data.List.Lex

/-!
# Addressing and signing a request to the object store

`s3.py` of the command line client: how a key becomes a URL (`url`), the path the store
canonicalizes it to (`canonicalPath`), the query string, and the canonical request a signature is
made over.  A `str` of valid Unicode is the list of its characters.
-/

namespace Freepod.Signing

open Base

structure Credentials where
  endpoint : List Char
  region : List Char
  bucket : List Char
  accessKeyId : List Char
  secretAccessKey : List Char

/-! ## encodings -/

/-- `_uri_encode`: `quote` never escapes `-_.~` -/
def uriEncode (value : List Char) (keepSlash : Bool) : List Char :=
  quote (if keepSlash then ['/'] else []) value

/-- a segment of a key; a dot segment is escaped whole -/
def encodeSegment (segment : List Char) : List Char :=
  if segment = ['.'] ∨ segment = ['.', '.'] then segment.flatMap fun _ => ['%', '2', 'E']
  else uriEncode segment false

/-- `_encode_key` -/
def encodeKey (key : List Char) : List Char :=
  ['/'].intercalate ((key.splitOn '/').map encodeSegment)

/-- the order of two pairs of texts, by code points -/
def pairLe (p q : List Char × List Char) : Bool :=
  decide (p.1 < q.1 ∨ (p.1 = q.1 ∧ p.2 ≤ q.2))

/-- `k=v` -/
def assignment (p : List Char × List Char) : List Char := p.1 ++ '=' :: p.2

/-- `_canonical_query` -/
def canonicalQuery (params : List (List Char × List Char)) : List Char :=
  ['&'].intercalate (((params.map fun p => (uriEncode p.1 false, uriEncode p.2 false)).mergeSort
    pairLe).map assignment)

/-! ## `urlsplit` -/

/-- what `urlsplit` takes off the front and out of a URL -/
def cleaned (url : List Char) : List Char :=
  (url.dropWhile fun c => decide (c.toNat ≤ 32)).filter fun c => c ∉ ['\t', '\r', '\n']

def isSchemeChar (c : Char) : Bool := c.isAlphanum || c == '+' || c == '-' || c == '.'

/-- the URL after its scheme, if it has one -/
def afterScheme (url : List Char) : List Char :=
  let scheme := url.takeWhile (· ≠ ':')
  if scheme.length < url.length ∧ (scheme.head?.any Char.isAlpha) = true ∧
      scheme.all isSchemeChar = true then
    url.drop (scheme.length + 1)
  else url

def endsNetloc (c : Char) : Bool := c == '/' || c == '?' || c == '#'

/-- the network location and the path of a URL -/
def urlsplit (url : List Char) : List Char × List Char :=
  let rest := afterScheme (cleaned url)
  let (netloc, rest) := match rest with
    | '/' :: '/' :: rest =>
      (rest.takeWhile fun c => !endsNetloc c, rest.dropWhile fun c => !endsNetloc c)
    | rest => ([], rest)
  (netloc, (rest.takeWhile (· ≠ '#')).takeWhile (· ≠ '?'))

/-- `rstrip("/")` -/
def rstripSlash (l : List Char) : List Char := l.rdropWhile (· = '/')

namespace Credentials

variable (c : Credentials)

/-- the part of a path that names the bucket and the key, with the key's own encoding -/
def target (encode : List Char → List Char) (key : List Char) : List Char :=
  '/' :: uriEncode c.bucket false ++ if key = [] then [] else '/' :: encode key

/-- `Bucket.url` -/
def url (key : List Char) : List Char := rstripSlash c.endpoint ++ c.target encodeKey key

/-- `Bucket.canonical_path` -/
def canonicalPath (key : List Char) : List Char :=
  rstripSlash (urlsplit c.endpoint).2 ++ c.target (fun key => uriEncode key true) key

/-- the URL `_request` sends -/
def sentUrl (key : List Char) (query : List (List Char × List Char)) : List Char :=
  if query = [] then c.url key else c.url key ++ '?' :: canonicalQuery query

end Credentials

/-! ## the canonical request -/

/-- `' '.join(value.strip().split())` -/
def normalized (value : List Char) : List Char :=
  [' '].intercalate ((value.splitOnP isWhitespace).filter (· ≠ []))

/-- `_canonical_request`, without the names of the headers it also returns -/
def canonicalRequest (method path : List Char) (query headers : List (List Char × List Char))
    (payloadHash : List Char) : List Char :=
  let sorted := headers.mergeSort fun a b => decide (a.1 ≤ b.1)
  let canonicalHeaders := sorted.flatMap fun h => h.1 ++ ':' :: normalized h.2 ++ ['\n']
  let signed := [';'].intercalate (sorted.map Prod.fst)
  ['\n'].intercalate [method, path, canonicalQuery query, canonicalHeaders, signed, payloadHash]

/-- the headers `sign_headers` signs -/
def signedHeaders (url : List Char) (headers : List (List Char × List Char))
    (amzDate payloadHash : List Char) : List (List Char × List Char) :=
  let lowered := headers.foldl (fun d h => setKey (h.1.map Char.toLower) h.2 d) []
  setKey "x-amz-content-sha256".toList payloadHash
    (setKey "x-amz-date".toList amzDate (setKey "host".toList (urlsplit url).1 lowered))

/-- what `_request` has signed -/
def signedRequest (c : Credentials) (method key : List Char)
    (query headers : List (List Char × List Char)) (amzDate payloadHash : List Char) : List Char :=
  canonicalRequest method (c.canonicalPath key) query
    (signedHeaders (c.url key) headers amzDate payloadHash) payloadHash

/-! ## what the other side reads -/

/-- the pairs of a query string, decoded -/
def decodeQuery (query : List Char) : List (List UInt8 × List UInt8) :=
  if query = [] then []
  else (query.splitOn '&').map fun part =>
    (unquote (part.takeWhile (· ≠ '=')), unquote ((part.dropWhile (· ≠ '=')).drop 1))

/-- the canonical form of decoded pairs -/
def canonicalForm (pairs : List (List UInt8 × List UInt8)) : List Char :=
  ['&'].intercalate (((pairs.map fun p => (quoteBytes [] p.1, quoteBytes [] p.2)).mergeSort
    pairLe).map assignment)

end Freepod.Signing
