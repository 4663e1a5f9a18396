import Depot.Json.Document

/-!
The manifest of an archive lists its images: for each the name of the config member, the names that
the image is known by, and the names of the layer members, bottom first.
-/
namespace Depot

/-- One image of an archive. -/
structure ArchiveEntry where
  config : String
  repoTags : List String
  layers : List String
  deriving DecidableEq

instance : Document ArchiveEntry where
  toJson e := Json.ofFields [
    ("Config", some (Json.ofText e.config)),
    ("RepoTags", some (Json.ofTexts e.repoTags)),
    ("Layers", some (Json.ofTexts e.layers))]
  ofJson? j := do
    let r ← j.record? ["Config", "RepoTags", "Layers"]
    let config ← r.required "Config" Json.text?
    let repoTags ← r.withDefault "RepoTags" [] Json.texts?
    let layers ← r.required "Layers" Json.texts?
    some { config, repoTags, layers }

end Depot
