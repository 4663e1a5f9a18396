import Depot.Store.Metadata
import Depot.Text.Amount
import Depot.Text.Split

/-!
The listing of images: a row for each name that an image holds, or one row for an image that holds
none, under the headings of five columns.
-/
namespace Depot.Listing

/-- What stands for a name or a tag that is missing. -/
def missing : String := "<none>"

/-- A row: an image under one of its names. -/
structure Row where
  repository : String
  tag : String
  image : Metadata

/-- The row of a name; its tag is behind the last colon. -/
def rowOf (image : Metadata) (name : String) : Row :=
  match Text.cutLast ':' name.toList with
  | some (repository, tag) => ⟨String.ofList repository, String.ofList tag, image⟩
  | none => ⟨name, missing, image⟩

def rowsFor (image : Metadata) : List Row :=
  if image.repoTags = [] then [⟨missing, missing, image⟩]
  else image.repoTags.map (rowOf image)

/-- The rows of some images, for one repository if it is given. -/
def rows (images : List Metadata) (repository : Option String) : List Row :=
  (images.flatMap rowsFor).filter fun r => repository.all (r.repository = ·)

/-- How many characters of an id are shown. -/
def shownCharacters : Nat := 12

/-- An id as it is shown. -/
def shortId (id : String) (whole : Bool) : String :=
  if whole then id else String.ofList (id.toList.take shownCharacters)

/-- The texts of a list, each at its first place. -/
def distinct : List String → List String
  | [] => []
  | s :: l => s :: (distinct l).filter (· ≠ s)

/-! ### Ages and sizes -/

/-- Nanoseconds in a minute, an hour and a day. -/
def minute : Int := 60000000000
def hour : Int := 60 * minute
def day : Int := 24 * hour

/-- How long ago something was, in the largest unit that is not too large. -/
def age (nanos : Int) : String :=
  let days := nanos.tdiv day
  let hours := nanos.tdiv hour
  let minutes := nanos.tdiv minute
  if days > 365 then toString (days / 365) ++ " years ago"
  else if days > 30 then toString (days / 30) ++ " months ago"
  else if days > 7 then toString (days / 7) ++ " weeks ago"
  else if days > 0 then toString days ++ " days ago"
  else if hours > 0 then toString hours ++ " hours ago"
  else if minutes > 0 then toString minutes ++ " minutes ago"
  else "Less than a minute ago"

/-- A number of bytes in the largest unit of which it is at least one. -/
def size (bytes : Nat) : String :=
  let unit := fun exponent => Text.hundredths (Text.significant bytes) (Nat.pow 1024 exponent)
  if bytes ≥ Nat.pow 1024 3 then unit 3 ++ "GB"
  else if bytes ≥ Nat.pow 1024 2 then unit 2 ++ "MB"
  else if bytes ≥ 1024 then unit 1 ++ "KB"
  else toString bytes ++ "B"

/-! ### Lines -/

/-- A text filled up with blanks. -/
def pad (width : Nat) (s : String) : String :=
  s ++ String.ofList (List.replicate (width - s.length) ' ')

def line (repository tag id created size : String) : String :=
  " ".intercalate [pad 40 repository, pad 20 tag, pad 20 id, pad 20 created, pad 10 size]

def heading : String :=
  line "REPOSITORY" "TAG" "IMAGE ID" "CREATED" "SIZE"

/-- The line of a row at a given time. -/
def rowLine (whole : Bool) (now : Instant) (r : Row) : String :=
  line r.repository r.tag (shortId r.image.id whole)
    (age (Instant.nanosBetween r.image.created now)) (size r.image.size.toNat)

end Depot.Listing
