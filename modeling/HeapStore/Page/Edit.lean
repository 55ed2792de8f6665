import HeapStore.Page.Image

/-!
What may be done to a page in hand.
-/

namespace HeapStore

inductive PageEdit where
  | insert (t : Tuple)
  | erase (rid : Option RecordId)
  | mark (owner : Option TxId)
  | snapshot
  | restore

def PageEdit.perform (p : HeapPage) : PageEdit → Except Error HeapPage
  | insert t => (p.insert t).map Prod.fst
  | erase rid => p.erase rid
  | mark owner => .ok (p.mark owner)
  | snapshot => .ok p.snapshot
  | restore => p.restore

/-- One edit after the other. One that fails leaves the page as it was. -/
def HeapPage.edited (p : HeapPage) : List PageEdit → HeapPage
  | [] => p
  | e :: edits =>
    match e.perform p with
    | .ok q => q.edited edits
    | .error _ => p.edited edits

end HeapStore
