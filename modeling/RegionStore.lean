import RegionStore.Preferences.Config
import RegionStore.Proofs.Disk.Device
import RegionStore.Proofs.Extent
import RegionStore.World.Basic
import RegionStore.Proofs.FreeSpace.Sound
import RegionStore.Proofs.FreeSpace.Allocate
import RegionStore.Proofs.FreeSpace.Release
import RegionStore.Proofs.Placement
import RegionStore.Proofs.Region.Partition
import RegionStore.Proofs.Region.Survey
import RegionStore.Proofs.Region.Changes
import RegionStore.Proofs.Region.Load
import RegionStore.Proofs.Region.Fragmentation
import RegionStore.Proofs.Region.Intact
import RegionStore.Proofs.Region.Run
import RegionStore.Proofs.Bytes
import RegionStore.Proofs.Region.Stored
import RegionStore.Proofs.Region.Faithful
import RegionStore.Proofs.Region.Reopen
import RegionStore.Proofs.Deflate.Reading
import RegionStore.Proofs.Deflate.Plain
import RegionStore.Proofs.Deflate.Container
import RegionStore.Proofs.Compression
import RegionStore.Proofs.Coordinates
import RegionStore.Proofs.Region.Record
import RegionStore.Proofs.Region.Chunks
import RegionStore.Proofs.Region.Listing
import RegionStore.Proofs.Region.Requests
import RegionStore.Proofs.Disk.Tree
import RegionStore.Proofs.Host.Basic
import RegionStore.Proofs.Host.Opening
import RegionStore.Proofs.Host.Service
import RegionStore.Proofs.Host.Holding
import RegionStore.Proofs.World.OpenTable
import RegionStore.Proofs.World.Tracked
import RegionStore.Proofs.World.Upkeep
import RegionStore.Proofs.World.Obtaining
import RegionStore.Proofs.World.Session
import RegionStore.Proofs.Region.History
import RegionStore.Proofs.Disk.Turns
import RegionStore.Proofs.Region.Course
import RegionStore.Proofs.Region.Frame
import RegionStore.Proofs.Region.Filled
import RegionStore.Proofs.Region.Recovery
import RegionStore.Proofs.Region.Lookup
import RegionStore.Proofs.Region.TornEntry
import RegionStore.Proofs.Region.Overwriting
import RegionStore.Proofs.Region.Appending
import RegionStore.Proofs.Region.Addressing
import RegionStore.Proofs.Disk.Log
import RegionStore.Proofs.Region.Touching
import RegionStore.Proofs.Region.Isolation
import RegionStore.Proofs.Host.Creation
import RegionStore.Proofs.Disk.Survival
import RegionStore.Proofs.Region.Surviving
import RegionStore.Proofs.Region.Durability
import RegionStore.Proofs.Region.Crash
import RegionStore.Proofs.FileName
import RegionStore.Proofs.Disk.Path
import RegionStore.Proofs.Host.Resting
import RegionStore.Proofs.Host.Stock
import RegionStore.Proofs.World.Resting
import RegionStore.Proofs.World.Shelves
import RegionStore.Proofs.World.Calls
import RegionStore.Proofs.Disk.Reports
import RegionStore.Proofs.Disk.Transfers
import RegionStore.Proofs.Region.Growth
import RegionStore.Proofs.FreeSpace.Ledger
import RegionStore.Proofs.World.Recency
import RegionStore.Proofs.Region.Warnings
import RegionStore.Proofs.Host.Admission
import RegionStore.Proofs.Preferences.Line
import RegionStore.Proofs.Preferences.Values
import RegionStore.Proofs.Preferences.Saving
import RegionStore.Proofs.Preferences.Edits
import RegionStore.Proofs.Deflate.Beginning
import RegionStore.Proofs.Deflate.Stream
import RegionStore.Proofs.Framing
import RegionStore.Proofs.Lockstep
import RegionStore.Proofs.Disk.Retries
import RegionStore.Proofs.Region.Lockstep
import RegionStore.Proofs.Host.Lockstep
import RegionStore.Proofs.World.Lockstep
import RegionStore.Proofs.World.Retries
import RegionStore.Proofs.FreeSpace.Wrapping
import RegionStore.Proofs.Placement.Choice
import RegionStore.Proofs.Disk.Order
import RegionStore.Proofs.Placement.Undoing
import RegionStore.Proofs.Region.Phases
import RegionStore.Proofs.Region.Ordering
import RegionStore.Proofs.Region.Retrieval
import RegionStore.Proofs.Region.Rejection
import RegionStore.Proofs.Region.Resaving
import RegionStore.Proofs.Host.Abreast
import RegionStore.Proofs.World.Flushing
import RegionStore.Proofs.World.Containment
import RegionStore.Proofs.Coordinates.Checked
import RegionStore.Proofs.Decimal
import RegionStore.Proofs.Preferences.Integers
import RegionStore.Proofs.Preferences.Configuration
import RegionStore.Proofs.Region.Enumeration
