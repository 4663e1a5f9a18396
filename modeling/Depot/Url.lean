import Depot.Url.Address

/-!
Addresses on the web, as far as registries use them: those of `http` and `https`. A text is read
against a base, which completes what it leaves out. Texts of other schemes are recognised, but there
is nothing that they could be used for here. A fragment is never sent, so it is not kept.
-/
namespace Depot

structure Url where
  secure : Bool
  /-- A user name and perhaps a password, still encoded. -/
  credentials : Option (List Char × Option (List Char))
  host : String
  /-- The number behind the colon of the host, unless it is the one of the scheme. -/
  portNumber : Option Nat
  /-- The encoded path between its slashes. -/
  path : List (List Char)
  /-- The encoded query. -/
  query : Option (List Char)
  deriving DecidableEq

namespace Url

/-! ### Writing -/

def scheme (u : Url) : String :=
  if u.secure then "https" else "http"

/-- The address as it is asked for: without credentials, which are sent in a header. -/
def render (u : Url) : String :=
  u.scheme ++ "://" ++ u.host ++ (match u.portNumber with | some p => ":" ++ toString p | none => "") ++
    String.ofList ((u.path.map ('/' :: ·)).flatten ++
      (match u.query with | some q => '?' :: q | none => []))

/-- The address with a further field at the end of its query. -/
def withField (u : Url) (name value : String) : Url :=
  let field := Percent.encodeForm name.toList ++ '=' :: Percent.encodeForm value.toList
  match u.query with
  | none | some [] => { u with query := some field }
  | some q => { u with query := some (q ++ '&' :: field) }

/-! ### Reading -/

/-- Nothing of these at either end of a text belongs to the address. -/
def isEdge (c : Char) : Bool := c.toNat ≤ 0x20

/-- Tabs and line ends are passed over. -/
def isSkipped (c : Char) : Bool := c = '\t' || c = '\n' || c = '\r'

/-- A text without what does not belong to the address. -/
def tidy (cs : List Char) : List Char :=
  (((cs.dropWhile isEdge).reverse.dropWhile isEdge).reverse).filter (!isSkipped ·)

/-- The scheme of a text in lower case, and what follows its colon. -/
def splitScheme (cs : List Char) : Option (List Char × List Char) :=
  match Text.cutFirst ':' cs with
  | none => none
  | some (scheme, rest) =>
    match scheme with
    | [] => none
    | c :: _ =>
      if c.isAlpha ∧ scheme.all fun c => c.isAlphanum || c = '+' || c = '-' || c = '.' then
        some (scheme.map Char.toLower, rest)
      else none

/-- A part of a path that stands for the folder itself. -/
def isHere (piece : List Char) : Bool :=
  piece.map Char.toLower ∈ [['.'], ['%', '2', 'e']]

/-- A part of a path that stands for the folder above. -/
def isAbove (piece : List Char) : Bool :=
  piece.map Char.toLower ∈
    [['.', '.'], ['.', '%', '2', 'e'], ['%', '2', 'e', '.'], ['%', '2', 'e', '%', '2', 'e']]

/-- The path that continues `path` by some pieces. -/
def pathFrom (path : List (List Char)) : List (List Char) → List (List Char)
  | [] => path
  -- at the end a dot or two leave an empty piece behind, which is a slash
  | [last] =>
    if isAbove last then path.dropLast ++ [[]]
    else if isHere last then path ++ [[]]
    else path ++ [Percent.encode Percent.inPath last]
  | piece :: pieces =>
    if isAbove piece then pathFrom path.dropLast pieces
    else if isHere piece then pathFrom path pieces
    else pathFrom (path ++ [Percent.encode Percent.inPath piece]) pieces

/-- The credentials before the last `@` of an authority, and what follows. -/
def splitCredentials (cs : List Char) : Option (List Char × Option (List Char)) × List Char :=
  match Text.cutLast '@' cs with
  | none => (none, cs)
  | some (credentials, rest) =>
    let encode := Percent.encode Percent.inCredentials
    match Text.cutFirst ':' credentials with
    | none => (if credentials = [] then none else some (encode credentials, none), rest)
    | some (user, []) => (if user = [] then none else some (encode user, none), rest)
    | some (user, password) => (some (encode user, some (encode password)), rest)

/-- The host of an authority and what follows its colon. A colon in brackets belongs to the host. -/
def splitPort (cs : List Char) : List Char × Option (List Char) :=
  match cs with
  | '[' :: _ =>
    match Text.cutLast ']' cs with
    | some (inner, []) => (inner ++ [']'], none)
    | some (inner, ':' :: digits) => (inner ++ [']'], some digits)
    | _ => (cs, none)
  | _ =>
    match Text.cutFirst ':' cs with
    | some (host, digits) => (host, some digits)
    | none => (cs, none)

/-- The number that the digits behind a host denote; none for the one of the scheme. -/
def portNumber? (secure : Bool) (digits : List Char) : Except Malformation (Option Nat) :=
  if digits = [] then .ok none
  else
    match number? 10 digits with
    | none => .error .invalidPort
    | some n =>
      if n > 65535 then .error .invalidPort
      else .ok (if n = (if secure then 443 else 80) then none else some n)

/-- The address of an authority with a path and a query. -/
def ofAuthority (secure : Bool) (authority : List Char) (path : List (List Char))
    (query : Option (List Char)) : Except Malformation Url :=
  let (credentials, rest) := splitCredentials authority
  let (name, digits) := splitPort rest
  match parseHost name, portNumber? secure (digits.getD []) with
  | .error e, _ => .error e
  | .ok _, .error e => .error e
  | .ok host, .ok portNumber => .ok { secure, credentials, host, portNumber, path, query }

def parseAuthority (secure : Bool) (cs : List Char) (query : Option (List Char)) :
    Except Malformation Url :=
  match Text.cutFirst '/' cs with
  | none => ofAuthority secure cs [[]] query
  | some (authority, path) =>
    ofAuthority secure authority (pathFrom [] (Text.pieces '/' path)) query

/-- The address that a text without a scheme of its own has in the place of `base`. -/
def parseRelative (base : Url) (cs : List Char) (query : Option (List Char)) :
    Except Malformation Url :=
  match cs with
  | [] => .ok { base with query := query.or base.query }
  | '/' :: '/' :: rest => parseAuthority base.secure (rest.dropWhile (· = '/')) query
  | '/' :: rest => .ok { base with path := pathFrom [] (Text.pieces '/' rest), query }
  | cs => .ok { base with path := pathFrom base.path.dropLast (Text.pieces '/' cs), query }

/-- The address that a text has, read against a base; `none` when its scheme is another one. -/
def parseFrom (base : Option Url) (text : String) : Except Malformation (Option Url) :=
  let cs := tidy text.toList
  let cs := (Text.cutFirst '#' cs).elim cs Prod.fst
  let (cs, query) := (Text.cutFirst '?' cs).elim (cs, none) fun p => (p.1, some p.2)
  let query := query.map (Percent.encode Percent.inQuery)
  let slashed := fun cs : List Char => cs.map fun c => if c = '\\' then '/' else c
  match splitScheme cs with
  | none =>
    match base with
    | none => .error .noBase
    | some base => (parseRelative base (slashed cs) query).map some
  | some (scheme, rest) =>
    if scheme = "http".toList ∨ scheme = "https".toList then
      let secure := scheme = "https".toList
      let rest := slashed rest
      -- the scheme of the base without two slashes behind it says nothing new
      match base.filter fun b => b.secure = secure ∧ !(['/', '/'].isPrefixOf rest) with
      | some base => (parseRelative base rest query).map some
      | none => (parseAuthority secure (rest.dropWhile (· = '/')) query).map some
    else .ok none

/-- The address that a text has by itself. -/
def parse? (text : String) : Option Url :=
  match parseFrom none text with
  | .ok u => u
  | .error _ => none

end Url
end Depot
