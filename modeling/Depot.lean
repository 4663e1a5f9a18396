import Depot.Main
import Depot.Proofs.Push.Attempts
import Depot.Proofs.Registry.Publication
import Depot.Proofs.Json.Reading
import Depot.Proofs.Time.Rfc3339
import Depot.Proofs.Json.Documents
import Depot.Proofs.Disk.Changes
import Depot.Proofs.Store.Contents
import Depot.Proofs.Store.Operations
import Depot.Proofs.Store.Agreement
import Depot.Proofs.Archive.Loading
import Depot.Proofs.Destination.Resolution
import Depot.Proofs.Reference.Readings
import Depot.Proofs.Store.Finding
import Depot.Proofs.Push.ArchiveNames
import Depot.Proofs.Push.EveryTag
import Depot.Proofs.Archive.Completeness
import Depot.Proofs.Archive.Meaning
import Depot.Proofs.Store.History
import Depot.Proofs.Store.EventLog
import Depot.Proofs.Archive.ShortNames
import Depot.Proofs.Push.DefaultArchive
import Depot.Proofs.Store.Failing
import Depot.Proofs.Disk.Making
import Depot.Proofs.Folder.Writing
import Depot.Proofs.Folder.Copies
import Depot.Proofs.Reference.Lengths
import Depot.Proofs.Archive.LongNames
import Depot.Proofs.Store.ShownIds
import Depot.Proofs.Archive.Again
import Depot.Proofs.Reference.Unchecked
import Depot.Proofs.Archive.Wholeness
import Depot.Proofs.Copy.Incomplete
import Depot.Proofs.Reference.Loopback
import Depot.Proofs.Listing
import Depot.Proofs.Store.Listing
import Depot.Proofs.Reference.Scanning
