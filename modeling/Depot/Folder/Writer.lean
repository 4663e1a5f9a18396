import Depot.Progress

/-!
Writing an image into a folder: a file for each blob, named by its digest, and a manifest. A blob
whose file is there already is not written again; the manifest is written last.
-/
namespace Depot.Folder

/-- The file that tells the layout of the folder. -/
def versionName : String := "version"

def versionText : String := "Directory Transport Version: 1.1\n"

/-- The file of the manifest. -/
def manifestName : String := "manifest.json"

/-- Writes blobs, each unless it is there. -/
def writeBlobs (path : String) (quiet : Bool) : List Blob → Act Host Unit
  | [] => pure ()
  | b :: bs => do
    let h ← Act.state
    let file := Path.join path b.fileName
    let wasThere := h.disk.exists? file
    if wasThere then pure () else Host.write file b.data
    Progress.copied quiet b wasThere
    writeBlobs path quiet bs

/-- Writes an image into a folder. -/
def write (path : String) (config : Blob) (layers : List Blob) (manifest : Bytes) (quiet : Bool) :
    Act Host Unit := do
  Host.makeFolders path
  Host.write (Path.join path versionName) (Bytes.ofText versionText)
  writeBlobs path quiet (layers ++ [config])
  Progress.manifest quiet
  Host.write (Path.join path manifestName) manifest

end Depot.Folder
