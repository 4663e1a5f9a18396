import Depot.Reference
import Depot.Reference.Error
import Depot.Reference.Lexical
import Depot.Text.Blank

/-!
Reading references. `parse` accepts the grammar of references and nothing else; `takeApart` splits
any text that is not blank without looking at the characters of the parts. Both complete the name:
a name without a domain belongs to the default registry.
-/
namespace Depot.Reference

/-- A name and the tag behind its last colon. A colon with a slash after it belongs to the domain. -/
def splitTag (cs : List Char) : List Char × Option (List Char) :=
  match Text.cutLast ':' cs with
  | some (name, tag) => if '/' ∈ tag then (cs, none) else (name, some tag)
  | none => (cs, none)

/-- What stands before and behind the first `@`. -/
def splitDigest (cs : List Char) : List Char × Option (List Char) :=
  match Text.cutFirst '@' cs with
  | some (name, digest) => (name, some digest)
  | none => (cs, none)

/-- The domain and the path of a name. Only a first component that looks like one is a domain. -/
def splitDomain (cs : List Char) : Option (List Char) × List Char :=
  match Text.cutFirst '/' cs with
  | some (first, rest) => if looksLikeDomain first then (some first, rest) else (none, cs)
  | none => (none, cs)

/-! ### The grammar -/

/-- The first thing wrong with the parts of a reference. -/
def check (name : List Char) (tag digest : Option (List Char)) :
    Except Bytes.Fault (Option Malformation) :=
  -- the digest and the tag are looked at before the name that they follow
  if digest.any fun d => !isDigest d then return some .digest
  else do
    if !(← tag.toList.allM fun t => scanTag (Bytes.ofChars t)) then return some .tag
    else if byteLength name > 255 then return some .tooLong
    else if (splitDomain name).1.any fun d => !isDomain d then return some .domain
    else if !(← (Text.pieces '/' (splitDomain name).2).allM fun c => scanComponent (Bytes.ofChars c)) then
      return some .format
    else return none

/-- The repository of a path: one word in the default registry is an official image. -/
def repositoryOf (registry path : List Char) : List Char :=
  if registry = defaultRegistry.toList ∧ '/' ∉ path then officialFolder.toList ++ path else path

def ofParts (name : List Char) (tag digest : Option (List Char)) : Reference :=
  let registry := (splitDomain name).1.getD defaultRegistry.toList
  { registry := String.ofList registry
    repository := String.ofList (repositoryOf registry (splitDomain name).2)
    tag := tag.map String.ofList
    digest := digest.map String.ofList }

/-- The reference that a text spells, every part checked. -/
def parse (text : String) : Except ReferenceError Reference :=
  if text.toList = [] then .error (.malformed text .empty)
  else
    let outer := splitDigest text.toList
    let inner := splitTag outer.1
    match check inner.1 inner.2 outer.2 with
    | .error fault => .error (.stopped text fault)
    | .ok (some why) => .error (.malformed text why)
    | .ok none => .ok (ofParts inner.1 inner.2 outer.2)

/-! ### Any text -/

/-- Registry and repository of a name, nothing checked. A one-word name is an official image. -/
def splitRegistry (name : List Char) : List Char × List Char :=
  match Text.cutFirst '/' name with
  | some (first, rest) =>
    if looksLikeDomain first then (first, rest) else (defaultRegistry.toList, name)
  | none => (defaultRegistry.toList, officialFolder.toList ++ name)

/-- The reference that a text is taken for, whatever the characters of its parts. -/
def takeApart (text : String) : Except ReferenceError Reference :=
  let cs := Text.trim text.toList
  if cs = [] then .error .blank
  else
    let outer := splitDigest cs
    let inner := splitTag outer.1
    let place := splitRegistry inner.1
    .ok
      { registry := String.ofList place.1
        repository := String.ofList place.2
        tag := inner.2.map String.ofList
        digest := outer.2.map String.ofList }

end Depot.Reference
