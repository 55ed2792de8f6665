import HeapStore.FileName
import HeapStore.Lock.Call
import HeapStore.Scan
import HeapStore.Store.Complete
import HeapStore.Store.Rows
import HeapStore.Store.Call
import HeapStore.Store.Stops
import HeapStore.Store.Trial
import HeapStore.Proofs.Bytes
import HeapStore.Proofs.Fallible
import HeapStore.Proofs.Row
import HeapStore.Proofs.Page.Image
import HeapStore.Proofs.Page.Edit
import HeapStore.Proofs.HeapFile
import HeapStore.Proofs.Lock.Table
import HeapStore.Proofs.Lock.Safety
import HeapStore.Proofs.Cache
import HeapStore.Proofs.Store.Basic
import HeapStore.Proofs.Store.Fetch
import HeapStore.Proofs.Store.Rows
import HeapStore.Proofs.Store.Pages
import HeapStore.Proofs.Store.Complete
import HeapStore.Proofs.Store.Step
import HeapStore.Proofs.Store.View
import HeapStore.Proofs.Store.Ledger
import HeapStore.Proofs.Store.Committed
import HeapStore.Proofs.Scan
import HeapStore.Proofs.Store.Abort
import HeapStore.Proofs.Store.Transparent
import HeapStore.Proofs.Store.Trial
import HeapStore.Proofs.Store.Readback
import HeapStore.Proofs.Store.Durable
import HeapStore.Proofs.Store.Hindered
import HeapStore.Proofs.Lock.Grants
import HeapStore.Act
import HeapStore.Proofs.Store.Search
import HeapStore.Proofs.Store.TwoPhase
import HeapStore.Proofs.Store.Tidy
import HeapStore.Store.Occasion
import HeapStore.Proofs.Store.Ownership
import HeapStore.Proofs.Scan.Sight
import HeapStore.Proofs.Scan.Repeat
import HeapStore.Moment
import HeapStore.Store.Request
import HeapStore.Proofs.Store.Queue
import HeapStore.Proofs.Recency
import HeapStore.Proofs.Store.Passage
import HeapStore.Proofs.Store.LeastRecent
import HeapStore.Page.Edit
import HeapStore.Proofs.Page.RoundTrip
import HeapStore.Page.Offsets
import HeapStore.Proofs.Page.Offsets
import HeapStore.Proofs.Page.Canonical
import HeapStore.Proofs.Growth
import HeapStore.Proofs.Store.Spare
import HeapStore.Proofs.Store.Climb
import HeapStore.Proofs.Store.Insert
import HeapStore.Proofs.Store.Reachable
import HeapStore.Proofs.Store.Placement
import HeapStore.Proofs.Store.Unharmed
import HeapStore.Proofs.Store.Misfit
import HeapStore.Proofs.Store.Untouched
import HeapStore.Proofs.Store.Arising
import HeapStore.Proofs.Store.Getting
import HeapStore.Proofs.Store.Touching
import HeapStore.Proofs.Store.Rounds
import HeapStore.Proofs.Store.Piecewise
import HeapStore.Proofs.Store.Flushing
import HeapStore.Scan.Turn
import HeapStore.Proofs.Page.Slots
import HeapStore.Proofs.Page.Rollback
import HeapStore.Proofs.Store.Delete
import HeapStore.Proofs.Scan.Turns
import HeapStore.Proofs.Scan.Complete
import HeapStore.Catalog.Call
import HeapStore.Proofs.Catalog
import HeapStore.Proofs.Page.OneSlot
import HeapStore.Store.Lap
import HeapStore.Proofs.Store.Laps
import HeapStore.Proofs.Paging
import HeapStore.Proofs.Text.Boundary
import HeapStore.Text.Boundary
import HeapStore.Draft
import HeapStore.Proofs.Draft
import HeapStore.Page.Sheet
import HeapStore.Proofs.Page.Sheet
import HeapStore.Store.Shared
import HeapStore.Proofs.Store.Shared
