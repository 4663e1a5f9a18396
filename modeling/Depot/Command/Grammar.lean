import Depot.Destination
import Depot.Text.Split

/-!
Reading a command line by a grammar of switches and operands. A switch is written `--name`, and some
also `-n`; it may take a value, in the same word or in the next. After a word `--` all words are
operands. A word that names a subcommand ends the reading of the words before it.

The values of a switch are checked when the next switch or operand begins, or at the end; so the
first fault is not always the first faulty word.
-/
namespace Depot.Command

/-- Why a command line is not carried out. -/
inductive Refusal where
  | unknownArgument
  /-- A value is missing, or empty where it must not be. -/
  | emptyValue
  /-- A value is not one of those that are possible. -/
  | impossibleValue
  | repeated
  /-- A value is given to a switch that takes none. -/
  | needlessValue
  | missingOperand
  | unknownSubcommand
  | missingSubcommand
  | help
  /-- Help is given because nothing is asked for. -/
  | helpForNothing
  | version
  deriving DecidableEq

inductive ValueKind where
  | text
  | path
  | transport
  deriving DecidableEq

/-- What is wrong with a value. -/
def ValueKind.fault? : ValueKind → String → Option Refusal
  | .text, _ => none
  | .path, v => if v = "" then some .emptyValue else none
  | .transport, v => if (Transport.named? v).isNone then some .impossibleValue else none

/-- What a switch does. -/
inductive Effect where
  /-- It is noted. -/
  | flag
  /-- Its value is noted. -/
  | value (kind : ValueKind)
  | help
  | version
  deriving DecidableEq

structure Switch where
  name : String
  letter : Option Char
  effect : Effect

def Switch.takesValue (s : Switch) : Bool :=
  match s.effect with
  | .value _ => true
  | _ => false

/-- A word, or as many words as there are, with a meaning by position. -/
structure Operand where
  name : String
  required : Bool
  many : Bool

/-- What may stand on a command line. -/
structure Grammar where
  switches : List Switch
  operands : List Operand
  subcommands : List String

namespace Grammar

def named? (g : Grammar) (name : String) : Option Switch :=
  g.switches.find? fun s => s.name = name

def lettered? (g : Grammar) (letter : Char) : Option Switch :=
  g.switches.find? fun s => s.letter = some letter

end Grammar

/-- What has been read: the values noted under each name, and those still to be checked, with the
switch that they are of unless they are operands. -/
structure Reading where
  noted : List (String × List String)
  pending : Option (String × Option Switch × List String)

namespace Reading

def nothing : Reading := ⟨[], none⟩

def values (r : Reading) (name : String) : List String :=
  (r.noted.filter fun n => n.1 = name).flatMap Prod.snd

def has (r : Reading) (name : String) : Bool :=
  r.noted.any fun n => n.1 = name

/-- Notes a switch with the values that were given to it. -/
def note (r : Reading) (s : Switch) (values : List String) : Except Refusal Reading :=
  match s.effect, values with
  | .help, _ => .error .help
  | .version, _ => .error .version
  | .flag, _ =>
    if r.has s.name then .error .repeated else .ok { r with noted := r.noted ++ [(s.name, [])] }
  | .value _, [] => .error .emptyValue
  | .value kind, v :: _ =>
    if r.has s.name then .error .repeated
    else
      match kind.fault? v with
      | some fault => .error fault
      | none => .ok { r with noted := r.noted ++ [(s.name, [v])] }

/-- Checks and notes what is pending. -/
def settle (r : Reading) : Except Refusal Reading :=
  match r.pending with
  | none => .ok r
  | some (name, none, values) => .ok { noted := r.noted ++ [(name, values)], pending := none }
  | some (_, some s, values) => { r with pending := none }.note s values

/-- Settles what is pending, then notes a switch. -/
def noteNext (r : Reading) (s : Switch) (values : List String) : Except Refusal Reading :=
  r.settle.bind (·.note s values)

/-- Settles what is pending, then waits for the value of a switch. -/
def await (r : Reading) (s : Switch) : Except Refusal Reading :=
  r.settle.map fun r => { r with pending := some (s.name, some s, []) }

/-- Adds a word to what is pending. -/
def addValue (r : Reading) (word : String) : Reading :=
  { r with pending := r.pending.map fun p => (p.1, p.2.1, p.2.2 ++ [word]) }

/-- Adds an operand. -/
def addOperand (r : Reading) (o : Operand) (word : String) : Except Refusal Reading :=
  -- a word goes on a list of operands until something else is read
  if o.many ∧ r.pending.any (fun p => p.1 = o.name ∧ p.2.1.isNone) then .ok (r.addValue word)
  else r.settle.map fun r => { r with pending := some (o.name, none, [word]) }

end Reading

/-! ### Words -/

inductive Shape where
  /-- Two hyphens and a name, perhaps with a value behind an equals sign. -/
  | long (name : String) (value : Option String)
  /-- A hyphen and letters. -/
  | short (letters : List Char)
  | plain

/-- How a word looks. A lone hyphen is a plain word. -/
def shapeOf (word : String) : Shape :=
  match word.toList with
  | '-' :: '-' :: rest =>
    match Text.cutFirst '=' rest with
    | some (name, value) => .long (String.ofList name) (some (String.ofList value))
    | none => .long (String.ofList rest) none
  | '-' :: c :: rest => .short (c :: rest)
  | _ => .plain

/-- Reads a word with a long switch: what has been read then, and whether a value is awaited. -/
def readLong (g : Grammar) (r : Reading) (name : String) (value : Option String) :
    Except Refusal (Reading × Bool) :=
  match g.named? name with
  | none => .error .unknownArgument
  | some s =>
    if s.takesValue then
      match value with
      | some v => (r.noteNext s [v]).map (·, false)
      | none => (r.await s).map (·, true)
    else
      match value with
      | some _ => .error .needlessValue
      | none => (r.noteNext s []).map (·, false)

/-- Reads the letters of a word. The letter of a switch that takes a value takes what follows it in
the word, less an equals sign. -/
def readLetters (g : Grammar) (r : Reading) : List Char → Except Refusal (Reading × Bool)
  | [] => .ok (r, false)
  | c :: rest =>
    match g.lettered? c with
    | none => .error .unknownArgument
    | some s =>
      if s.takesValue then
        match rest with
        | [] => (r.await s).map (·, true)
        | '=' :: value => (r.noteNext s [String.ofList value]).map (·, false)
        | value => (r.noteNext s [String.ofList value]).map (·, false)
      else (r.noteNext s []).bind fun r => readLetters g r rest

/-- The fault of a word for which there is no operand. -/
def surplus (g : Grammar) (onlyOperands : Bool) (word : String) : Refusal :=
  if g.subcommands = [] then .unknownArgument
  else if onlyOperands ∧ word ∈ g.subcommands then .unknownArgument
  else .unknownSubcommand

/-- Reads words up to the end or to the name of a subcommand, which is given back with the words after
it. `onlyOperands` says that a word `--` was seen, `awaiting` that a switch waits for its value. -/
def readWords (g : Grammar) (onlyOperands awaiting : Bool) (operands : List Operand) (r : Reading) :
    List String → Except Refusal (Reading × Option (String × List String))
  | [] => .ok (r, none)
  | word :: words =>
    if !onlyOperands && !awaiting && g.subcommands.contains word then .ok (r, some (word, words))
    else if !onlyOperands && word == "--" then readWords g true awaiting operands r words
    else
      match if onlyOperands then Shape.plain else shapeOf word with
      | .long name value =>
        match readLong g r name value with
        | .error e => .error e
        | .ok (r, awaiting) => readWords g false awaiting operands r words
      | .short letters =>
        match readLetters g r letters with
        | .error e => .error e
        | .ok (r, awaiting) => readWords g false awaiting operands r words
      | .plain =>
        -- behind `--` a switch that still waits for its value gets none
        if awaiting && !onlyOperands then readWords g false false operands (r.addValue word) words
        else
          match operands with
          | [] => .error (surplus g onlyOperands word)
          | o :: later =>
            match r.addOperand o word with
            | .error e => .error e
            | .ok r =>
              readWords g onlyOperands false (if o.many then operands else later) r words

/-- The first operand that has to be there and is not. -/
def missing? (g : Grammar) (r : Reading) : Option Operand :=
  g.operands.find? fun o => o.required && !r.has o.name

end Depot.Command
