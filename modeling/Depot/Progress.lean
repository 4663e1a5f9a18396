import Depot.Host
import Depot.Manifest

/-!
Progress lines: what is told of a copy while it goes on. A copy that is asked to be quiet tells
nothing.
-/
namespace Depot.Progress

/-- Tells a line unless the copy is to be quiet. -/
def tell (quiet : Bool) (line : String) : Act Host Unit :=
  if quiet then pure () else Host.report line

/-- How many digits of a digest are told. -/
def shownDigits : Nat := 12

/-- A digest as it is told. -/
def shortName (b : Blob) : String :=
  String.ofList (b.fileName.toList.take shownDigits)

/-- The copy begins. -/
def begun (quiet : Bool) : Act Host Unit :=
  tell quiet "Getting image source signatures"

/-- A blob has been copied, or was there already. -/
def copied (quiet : Bool) (b : Blob) (wasThere : Bool) : Act Host Unit :=
  tell quiet ("Copying blob " ++ shortName b ++
    (if wasThere then " skipped: already exists" else " done"))

/-- The manifest is about to be written. -/
def manifest (quiet : Bool) : Act Host Unit :=
  tell quiet "Writing manifest to image destination"

end Depot.Progress
