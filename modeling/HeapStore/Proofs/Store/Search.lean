import HeapStore.Proofs.Growth
import HeapStore.Proofs.Store.Fetch
import HeapStore.Proofs.Store.Keeping
import HeapStore.Store.Request

/-!
The way of a search through a file, page by page. It passes a page only if the page is full, and
makes the file grow only when it has passed the last one; it ends at the first page that cannot be
had or has room. Whatever is kept on the way is shown by induction on the way.
-/

namespace HeapStore.Store
variable {R : Store → Store → Prop} {s s' s₀ s₁ : Store} {f : HeapFile} {tx : TxId} {t : Tuple}
  {n m : Nat} {rs rs' : List PageRequest} {r : Except Error (HeapPage × RecordId)}

/-- From page `n` to page `m`, with the requests made on the way. -/
inductive Climbs (f : HeapFile) (tx : TxId) : Nat → Store → List PageRequest → Nat → Store → Prop
  | here (n : Nat) (s : Store) : Climbs f tx n s [] n s
  | full {n m : Nat} {s s₁ s' : Store} {rs : List PageRequest} {p : HeapPage}
      (inside : n < f.numPages s.disk)
      (got : fetch tx ⟨f.table, n⟩ .readWrite s = (.ok p, s₁)) (full : p.emptySlots = 0)
      (rest : Climbs f tx (n + 1)
        (letGo (s.pool.locks.holds tx ⟨f.table, n⟩) tx ⟨f.table, n⟩ s₁).2 rs m s') :
      Climbs f tx n s (⟨tx, ⟨f.table, n⟩, .readWrite, s⟩ :: rs) m s'
  | grown {n m : Nat} {s s₁ s' : Store} {rs : List PageRequest}
      (outside : f.numPages s.disk = n) (grows : append f s = (.ok (), s₁))
      (rest : Climbs f tx n s₁ rs m s') : Climbs f tx n s rs m s'

theorem Climbs.trans {k : Nat} (h : Climbs f tx n s rs m s₁) (h' : Climbs f tx m s₁ rs' k s') :
    Climbs f tx n s (rs ++ rs') k s' := by
  induction h with
  | here _ _ => exact h'
  | full inside got full _ ih => exact .full inside got full (ih h')
  | grown outside grows _ ih => exact .grown outside grows (ih h')

/-- The ways in which a search that sets out from page `n` ends. -/
inductive Seeks (f : HeapFile) (tx : TxId) (t : Tuple) (n : Nat) (s : Store) :
    List PageRequest → Except Error (HeapPage × RecordId) → Store → Prop
  | unfetched {m : Nat} {s₀ s' : Store} {rs : List PageRequest} {e : Error}
      (climbs : Climbs f tx n s rs m s₀) (inside : m < f.numPages s₀.disk)
      (failed : fetch tx ⟨f.table, m⟩ .readWrite s₀ = (.error e, s')) :
      Seeks f tx t n s (rs ++ [⟨tx, ⟨f.table, m⟩, .readWrite, s₀⟩]) (.error e) s'
  | unfit {m : Nat} {s₀ s' : Store} {rs : List PageRequest} {p : HeapPage} {e : Error}
      (climbs : Climbs f tx n s rs m s₀) (inside : m < f.numPages s₀.disk)
      (got : fetch tx ⟨f.table, m⟩ .readWrite s₀ = (.ok p, s')) (room : p.emptySlots ≠ 0)
      (unfit : p.insert t = .error e) :
      Seeks f tx t n s (rs ++ [⟨tx, ⟨f.table, m⟩, .readWrite, s₀⟩]) (.error e) s'
  | ungrown {m : Nat} {s' : Store} {rs : List PageRequest} {e : Error}
      (climbs : Climbs f tx n s rs m s') (failed : append f s' = (.error e, s')) :
      Seeks f tx t n s rs (.error e) s'
  | endless {m : Nat} {s' : Store} {rs : List PageRequest} {page : PageId}
      (climbs : Climbs f tx n s rs m s') : Seeks f tx t n s rs (.error (.pageFull page)) s'
  | placed {m : Nat} {s₀ s₁ : Store} {rs : List PageRequest} {p p' : HeapPage} {rid : RecordId}
      (climbs : Climbs f tx n s rs m s₀) (inside : m < f.numPages s₀.disk)
      (got : fetch tx ⟨f.table, m⟩ .readWrite s₀ = (.ok p, s₁))
      (fit : p.insert t = .ok (p', rid)) :
      Seeks f tx t n s (rs ++ [⟨tx, ⟨f.table, m⟩, .readWrite, s₀⟩])
        (.ok (p'.mark (some tx), rid)) (put (p'.mark (some tx)) s₁).2

theorem Climbs.seeks (h : Climbs f tx n s rs m s₀) (h' : Seeks f tx t m s₀ rs' r s') :
    Seeks f tx t n s (rs ++ rs') r s' := by
  cases h' with
  | unfetched climbs inside failed =>
      rw [← List.append_assoc]
      exact .unfetched (h.trans climbs) inside failed
  | unfit climbs inside got room unfit =>
      rw [← List.append_assoc]
      exact .unfit (h.trans climbs) inside got room unfit
  | ungrown climbs failed => exact .ungrown (h.trans climbs) failed
  | endless climbs => exact .endless (h.trans climbs)
  | placed climbs inside got fit =>
      rw [← List.append_assoc]
      exact .placed (h.trans climbs) inside got fit

/-- To ask for a page does nothing to the files, whatever hooks there are. -/
theorem lenient_disk : Lenient fun s s' => s'.disk = s.disk where
  refl _ := rfl
  trans h₁ h₂ := h₂.trans h₁
  catalog _ _ := rfl
  cache _ _ := rfl
  granted _ := rfl

theorem disk_letGo (held : Bool) (tx : TxId) (q : PageId) (s : Store) :
    (letGo held tx q s).2.disk = s.disk := by
  rw [letGo_apply]
  split <;> rfl

theorem tryPages_cons (f : HeapFile) (tx : TxId) (t : Tuple) (n : Nat) (numbers : List Nat)
    (s : Store) : tryPages f tx t (n :: numbers) s =
      match fetch tx ⟨f.table, n⟩ .readWrite s with
      | (.error e, s₁) => (.error e, s₁)
      | (.ok p, s₁) =>
        if p.emptySlots = 0 then
          tryPages f tx t numbers
            (letGo (s.pool.locks.holds tx ⟨f.table, n⟩) tx ⟨f.table, n⟩ s₁).2
        else match p.insert t with
          | .error e => (.error e, s₁)
          | .ok (p', rid) =>
            (.ok (some (p'.mark (some tx), rid)), (put (p'.mark (some tx)) s₁).2) := by
  rw [tryPages, bind_apply, get_apply]
  simp only [bind_apply]
  obtain ⟨e | p, s₁⟩ := fetch tx ⟨f.table, n⟩ .readWrite s
  case error => rfl
  case ok =>
    simp only
    split
    · rw [bind_apply, letGo_apply]
    · rw [bind_apply, ofExcept_apply]
      obtain e | ⟨p', rid⟩ := p.insert t <;> rfl

theorem search_succ (f : HeapFile) (tx : TxId) (t : Tuple) (passes first : Nat) (s : Store) :
    search f tx t (passes + 1) first s =
      match tryPages f tx t (List.range' first (f.numPages s.disk - first)) s with
      | (.error e, s₁) => (.error e, s₁)
      | (.ok (some placed), s₁) => (.ok placed, s₁)
      | (.ok none, s₁) =>
        match append f s₁ with
        | (.error e, s₂) => (.error e, s₂)
        | (.ok (), s₂) => search f tx t passes (max first (f.numPages s.disk)) s₂ := by
  rw [search, bind_apply, get_apply]
  simp only [bind_apply]
  obtain ⟨e | none | placed, s₁⟩ :=
    tryPages f tx t (List.range' first (f.numPages s.disk - first)) s
  case error => rfl
  case ok.some => rfl
  case ok.none =>
    simp only [bind_apply]
    obtain ⟨e | _, s₂⟩ := append f s₁ <;> rfl

/-- The pages from `n` on, `k` of them, are all full, or the search is over. -/
inductive Tries (f : HeapFile) (tx : TxId) (t : Tuple) (n k : Nat) (s : Store)
    (rs : List PageRequest) : Except Error (Option (HeapPage × RecordId)) → Store → Prop
  | full {s' : Store} (climbs : Climbs f tx n s rs (n + k) s') : Tries f tx t n k s rs (.ok none) s'
  | failed {e : Error} {s' : Store} (seeks : Seeks f tx t n s rs (.error e) s') :
      Tries f tx t n k s rs (.error e) s'
  | placed {placed : HeapPage × RecordId} {s' : Store}
      (seeks : Seeks f tx t n s rs (.ok placed) s') : Tries f tx t n k s rs (.ok (some placed)) s'

theorem Climbs.tries {k : Nat} {r : Except Error (Option (HeapPage × RecordId))}
    (h : Climbs f tx n s rs (n + 1) s₀) (h' : Tries f tx t (n + 1) k s₀ rs' r s') :
    Tries f tx t n (k + 1) s (rs ++ rs') r s' := by
  cases h' with
  | full climbs =>
      rw [Nat.add_assoc, Nat.add_comm 1] at climbs
      exact .full (h.trans climbs)
  | failed seeks => exact .failed (h.seeks seeks)
  | placed seeks => exact .placed (h.seeks seeks)

/-- While pages are tried the file does not grow. -/
theorem tries (f : HeapFile) (tx : TxId) (t : Tuple) (k n : Nat) (s : Store)
    (inside : n + k ≤ f.numPages s.disk) :
    (tryPages f tx t (List.range' n k) s).2.disk = s.disk ∧
      Tries f tx t n k s (tryRequests f tx (List.range' n k) s)
        (tryPages f tx t (List.range' n k) s).1 (tryPages f tx t (List.range' n k) s).2 := by
  induction k generalizing n s with
  | zero => exact ⟨rfl, .full (.here n s)⟩
  | succ k ih =>
      have below : n < f.numPages s.disk := by omega
      have fetched := lenient_disk.fetch tx ⟨f.table, n⟩ .readWrite s
      rw [List.range'_succ, tryPages_cons, tryRequests]
      simp only [PageRequest.answer, PageRequest.after]
      cases got : fetch tx ⟨f.table, n⟩ .readWrite s with
      | mk r s₁ =>
          rw [got] at fetched
          cases r with
          | error e => exact ⟨fetched, .failed (.unfetched (.here n s) below got)⟩
          | ok p =>
              simp only
              split
              next full =>
                have same := (disk_letGo (s.pool.locks.holds tx ⟨f.table, n⟩) tx ⟨f.table, n⟩
                  s₁).trans fetched
                obtain ⟨disk, rest⟩ := ih (n + 1) _ (by rw [same]; omega)
                exact ⟨disk.trans same, (Climbs.full below got full (.here _ _)).tries rest⟩
              next room =>
                cases fit : p.insert t with
                | error e => exact ⟨fetched, .failed (.unfit (.here n s) below got room fit)⟩
                | ok placed => exact ⟨fetched, .placed (.placed (.here n s) below got fit)⟩

theorem seeks_of_search (f : HeapFile) (tx : TxId) (t : Tuple) (passes n : Nat) (s : Store)
    (inside : n ≤ f.numPages s.disk) :
    Seeks f tx t n s (searchRequests f tx t passes n s) (search f tx t passes n s).1
      (search f tx t passes n s).2 := by
  induction passes generalizing n s with
  | zero => exact .endless (.here n s)
  | succ passes ih =>
      have upTo : n + (f.numPages s.disk - n) = f.numPages s.disk := by omega
      obtain ⟨disk, tries⟩ := tries f tx t (f.numPages s.disk - n) n s (by omega)
      rw [search_succ, searchRequests]
      generalize tryPages f tx t (List.range' n (f.numPages s.disk - n)) s = outcome
        at disk tries ⊢
      obtain ⟨r, s₁⟩ := outcome
      cases tries with
      | failed seeks | placed seeks =>
          rw [List.append_nil]
          exact seeks
      | full climbs =>
          rw [upTo] at climbs
          simp only
          cases appended : append f s₁ with
          | mk r s₂ =>
              cases r with
              | error e =>
                  obtain ⟨rfl, _⟩ := append_error appended
                  rw [List.append_nil]
                  exact .ungrown climbs appended
              | ok _ =>
                  have grown := HeapFile.numPages_appendPage (append_ok appended).2
                  have same := congrArg f.numPages disk
                  have further := climbs.trans (.grown same appended (.here _ _))
                  rw [List.append_nil] at further
                  rw [Nat.max_eq_right inside]
                  exact further.seeks (ih _ s₂ (by rw [grown, disk]; omega))

theorem seeks_of_insertInto (types : t.schema.types = f.schema.types) (tx : TxId) (s : Store) :
    Seeks f tx t 0 s (insertRequests f tx t s) (insertInto f tx t s).1 (insertInto f tx t s).2 := by
  rw [insertInto, insertRequests, ensure, if_pos types, if_pos types, pure_bind]
  exact seeks_of_search f tx t _ 0 s (Nat.zero_le _)

/-- A row of other types than the table's is turned away at once. -/
theorem insertInto_foreign (types : t.schema.types ≠ f.schema.types) :
    insertInto f tx t s = (.error (.schemaMismatch (.tableSchema t.schema f.schema)), s) := by
  rw [insertInto, ensure, if_neg types]
  rfl

theorem insertInto_cases (f : HeapFile) (tx : TxId) (t : Tuple) (s : Store) :
    t.schema.types ≠ f.schema.types ∧ insertRequests f tx t s = [] ∧
        insertInto f tx t s = (.error (.schemaMismatch (.tableSchema t.schema f.schema)), s) ∨
      Seeks f tx t 0 s (insertRequests f tx t s) (insertInto f tx t s).1
        (insertInto f tx t s).2 := by
  by_cases types : t.schema.types = f.schema.types
  · exact .inr (seeks_of_insertInto types tx s)
  · exact .inl ⟨types, if_neg types, insertInto_foreign types⟩

theorem insert_apply (tx : TxId) (table : TableId) (t : Tuple) (s : Store) :
    insert tx table t s =
      match (do insertInto (← lookup table).file tx t : StoreM (HeapPage × RecordId)) s with
      | (.error e, s') => ((.error e, t), s')
      | (.ok (p, rid), s') =>
        let (r, s') := (do afterMutate table; readmit tx p : StoreM Unit) s'
        ((r, t.located (some rid)), s') := by
  simp only [insert, bind_run, ExceptT.run, bind_pure_comp, id_map']
  generalize (lookup table >>= fun e => insertInto e.file tx t) s = outcome
  rcases outcome with ⟨_ | ⟨p, rid⟩, s'⟩
  · rfl
  · rfl

namespace Careful

theorem climbs (hR : Careful R) (grows : Keeping R (append f))
    (lets : ∀ {s s₁ tx q}, R s s₁ → R s (letGo (s.pool.locks.holds tx q) tx q s₁).2)
    (h : Climbs f tx n s rs m s') : R s s' := by
  induction h with
  | here _ s => exact hR.refl s
  | full _ got _ _ ih => exact hR.trans (lets (hR.of_fetch got)) ih
  | @grown _ _ s _ _ _ _ grown _ ih =>
      have first := grows s
      rw [grown] at first
      exact hR.trans first ih

theorem insertInto (hR : Careful R) (grows : Keeping R (append f))
    (lets : ∀ {s s₁ tx q}, R s s₁ → R s (letGo (s.pool.locks.holds tx q) tx q s₁).2) (tx : TxId)
    (t : Tuple) : Keeping R (Store.insertInto f tx t) := by
  intro s
  rcases insertInto_cases f tx t s with ⟨_, _, refused⟩ | seeks
  · rw [refused]
    exact hR.refl s
  · generalize insertRequests f tx t s = rs, Store.insertInto f tx t s = outcome at seeks ⊢
    obtain ⟨r, s'⟩ := outcome
    cases seeks with
    | unfetched climbs _ had | unfit climbs _ had =>
        exact hR.trans (hR.climbs grows lets climbs) (hR.of_fetch had)
    | ungrown climbs _ | endless climbs => exact hR.climbs grows lets climbs
    | placed climbs _ got _ =>
        have before := hR.trans (hR.climbs grows lets climbs) (hR.of_fetch got)
        exact hR.trans before (hR.put _ _)

theorem insert (hR : Careful R) {table : TableId} {t : Tuple}
    (h : ∀ e, s.catalog.find table = .ok e → Keeping R (Store.insertInto e.file tx t)) :
    R s (Store.insert tx table t s).2 := by
  have admits (p : HeapPage) : Keeping R _ :=
    hR.bind (hR.afterMutate table) fun _ => hR.keep (p := p.mark (some tx)) rfl
  rw [insert_apply, bind_apply, lookup_apply]
  cases he : s.catalog.find table with
  | error e => exact hR.refl s
  | ok e =>
      simp only
      have first := h e he s
      generalize Store.insertInto e.file tx t s = outcome at first ⊢
      obtain ⟨_ | ⟨p, rid⟩, s₁⟩ := outcome
      · exact first
      · exact hR.trans first (admits p s₁)

end Careful
end HeapStore.Store
