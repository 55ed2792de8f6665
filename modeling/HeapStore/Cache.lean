import HeapStore.Page.Basic

/-!
The page cache: the cached pages under their ids, and beside them a queue of ids in order of their
last use, the least recent first. To make room it drops the least recent page that is clean and not
being written; a page that is dirty stays.
-/

namespace HeapStore
open Std

/-- A cached page. While it is latched somebody is writing to it. -/
structure Frame where
  page : HeapPage
  latched : Bool := false
  deriving DecidableEq

namespace Frame

def evictable (f : Frame) : Bool :=
  !f.latched && !f.page.isDirty

end Frame

/-- `ids` is the queue: the ids of the cached pages, least recently used first. -/
structure Cache where
  capacity : Nat
  capacity_pos : 0 < capacity
  table : ExtTreeMap PageId Frame := ∅
  ids : List PageId := []
  deriving DecidableEq

namespace Cache

/-- The cached pages, least recently used first. -/
def frames (c : Cache) : List Frame :=
  c.ids.filterMap fun id => c.table[id]?

def size (c : Cache) : Nat :=
  c.table.size

def find? (c : Cache) (id : PageId) : Option HeapPage :=
  c.table[id]?.map Frame.page

def contains (c : Cache) (id : PageId) : Bool :=
  (c.find? id).isSome

/-- Moves an id to the end of the queue, or puts it there. -/
def touch (c : Cache) (id : PageId) : Cache :=
  { c with ids := c.ids.erase id ++ [id] }

/-- Makes a page the most recently used, if it is cached. -/
def use (c : Cache) (id : PageId) : Cache :=
  if c.contains id then c.touch id else c

def drop (c : Cache) (id : PageId) : Cache :=
  { c with table := c.table.erase id, ids := c.ids.erase id }

def remove (c : Cache) (id : PageId) : Cache :=
  if c.contains id then c.drop id else c

/-- Puts `p` in place of the cached page of its id, which keeps its rank. -/
def update (c : Cache) (p : HeapPage) : Cache :=
  { c with table := c.table.modify p.id fun f => { f with page := p } }

def setLatch (c : Cache) (id : PageId) (latched : Bool) : Cache :=
  { c with table := c.table.modify id fun f => { f with latched } }

/-- Puts a page under an id and makes it the most recently used, with no regard for room. -/
def place (c : Cache) (id : PageId) (p : HeapPage) : Cache :=
  { c with table := c.table.insert id { page := p } }.touch id

/-- The page that has to go when room is needed. -/
def victim? (c : Cache) : Option PageId :=
  c.ids.find? fun id => c.table[id]?.any Frame.evictable

/-- Makes room: the page that has been dropped, and the cache afterwards. -/
def evict (c : Cache) : Except Error PageId × Cache :=
  match c.victim? with
  | some victim => (.ok victim, c.drop victim)
  | none => (.error .evictionImpossible, c)

/-- Caches a page under an id as the most recently used, in place of the page cached under it, or
else making room first if the cache is full: the page that had to go, and the cache afterwards. -/
def insert (c : Cache) (id : PageId) (p : HeapPage) : Except Error (Option PageId) × Cache :=
  if c.contains id ∨ c.size < c.capacity then (.ok none, c.place id p)
  else match c.evict with
    | (.ok victim, c) => (.ok (some victim), c.place id p)
    | (.error e, c) => (.error e, c)

end Cache
end HeapStore
