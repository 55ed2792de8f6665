import HeapStore.Proofs.Store.Search
import HeapStore.Proofs.Store.Spare

/-!
What a search leaves behind on its way through a file where no table has a hook: which pages it has
passed, how far the file has grown, and which locks are held at the end that were not held before.
-/

namespace HeapStore.Store
variable {s s' s₀ s₁ : Store} {f : HeapFile} {tx u : TxId} {t : Tuple} {n m : Nat} {q : PageId}
  {p : HeapPage} {rs rs' : List PageRequest} {r : Except Error (HeapPage × RecordId)}

theorem spares_passed (plain : s.catalog.Plain) (file : FileId TableId)
    (got : fetch tx q .readWrite s = (.ok p, s₁)) : Spares file [⟨tx, q, .readWrite, s⟩] s
      (letGo (s.pool.locks.holds tx q) tx q s₁).2 :=
  (spares_of_fetch plain file got).letGo _ tx q

theorem Climbs.spares (plain : s.catalog.Plain) (h : Climbs f tx n s rs m s') :
    Spares f.id rs s s' := by
  induction h with
  | here n s => exact .refl f.id s
  | @full n _ s s₁ _ _ _ inside got full rest ih =>
      have first := spares_passed plain f.id got
      exact first.trans (ih (first.catalog ▸ plain))
  | grown outside grows rest ih =>
      have first := spares_append grows
      exact first.trans (ih (first.catalog ▸ plain))

theorem Climbs.replied {a : Access} {r : Except Error HeapPage} (plain : s.catalog.Plain)
    (h : Climbs f tx n s rs m s₀) (had : fetch tx q a s₀ = (r, s')) : Replied tx q a s₀ r s' :=
  replied_of_eq ((h.spares plain).catalog ▸ plain) had

theorem Climbs.spares_fetch {a : Access} {r : Except Error HeapPage} (plain : s.catalog.Plain)
    (h : Climbs f tx n s rs m s₀) (had : fetch tx q a s₀ = (r, s')) :
    Spares f.id (rs ++ [⟨tx, q, a, s₀⟩]) s s' :=
  (h.spares plain).trans ((h.replied plain had).spares f.id (congrArg Prod.snd had))

/-- A search that has come to an end without a place for the row spares what there is. -/
theorem Seeks.spares {e : Error} (plain : s.catalog.Plain)
    (h : Seeks f tx t n s rs (.error e) s') : Spares f.id rs s s' := by
  cases h with
  | unfetched climbs inside failed => exact climbs.spares_fetch plain failed
  | unfit climbs inside got room unfit => exact climbs.spares_fetch plain got
  | ungrown climbs _ => exact climbs.spares plain
  | endless climbs => exact climbs.spares plain

theorem Climbs.le (h : Climbs f tx n s rs m s') : n ≤ m := by
  induction h with
  | here _ _ => exact Nat.le_refl _
  | full _ _ _ _ ih => omega
  | grown _ _ _ ih => exact ih

/-- Each page on the way was had and was full. -/
theorem Climbs.passed {k : Nat} (h : Climbs f tx n s rs m s') (from_ : n ≤ k) (below : k < m) :
    ∃ rs₀ s₀ s₁ p, (∀ r ∈ rs₀, r ∈ rs) ∧ Climbs f tx n s rs₀ k s₀ ∧
      fetch tx ⟨f.table, k⟩ .readWrite s₀ = (.ok p, s₁) ∧ p.emptySlots = 0 := by
  induction h with
  | here _ _ => omega
  | @full n _ s s₁ _ _ p inside got full rest ih =>
      by_cases here : k = n
      · subst here
        exact ⟨[], s, s₁, p, nofun, .here _ _, got, full⟩
      · obtain ⟨rs₀, s₀, s₂, p', sub, climbs, got', full'⟩ := ih (by omega) below
        refine ⟨_ :: rs₀, s₀, s₂, p', ?_, .full inside got full climbs, got', full'⟩
        intro r hr
        rcases List.mem_cons.mp hr with rfl | hr
        · exact List.mem_cons_self ..
        · exact List.mem_cons_of_mem _ (sub r hr)
  | grown outside grows rest ih =>
      obtain ⟨rs₀, s₀, s₂, p', sub, climbs, got', full'⟩ := ih from_ below
      exact ⟨rs₀, s₀, s₂, p', sub, .grown outside grows climbs, got', full'⟩

/-- The file has grown only if all its pages were passed. -/
theorem Climbs.numPages (h : Climbs f tx n s rs m s') (inside : n ≤ f.numPages s.disk) :
    m ≤ f.numPages s'.disk ∧
      (s'.disk = s.disk ∨
        f.numPages s.disk < f.numPages s'.disk ∧ f.numPages s'.disk ≤ m + 1) := by
  induction h with
  | here _ _ => exact ⟨inside, .inl rfl⟩
  | @full n _ s s₁ _ _ _ below got full rest ih =>
      have disk : s₁.disk = s.disk := lenient_disk.of_fetch got
      have ih := ih (by rw [disk_letGo, disk]; omega)
      rwa [disk_letGo, disk] at ih
  | @grown n m s s₁ s' rs outside grows rest ih =>
      have pages := HeapFile.numPages_appendPage (append_ok grows).2
      have le := rest.le
      obtain ⟨upTo, same | few⟩ := ih (by omega)
      · rw [same] at upTo ⊢
        exact ⟨upTo, .inr (by omega)⟩
      · exact ⟨upTo, .inr (by omega)⟩

/-- Pages from `n` up to `m` that `tx` had locked before are locked exclusively, and no other lock is
any different. -/
def Escalated (f : HeapFile) (tx : TxId) (n m : Nat) (s s' : Store) : Prop :=
  ∀ u q, s'.mode? u q =
    if u = tx ∧ q.table = f.table ∧ (n ≤ q.number ∧ q.number < m) ∧ (s.mode? tx q).isSome then
      some .exclusive
    else s.mode? u q

theorem mode?_letGo (held : Bool) (tx : TxId) (q : PageId) (s : Store) (u : TxId) (q' : PageId) :
    (letGo held tx q s).2.mode? u q' =
      if (u = tx ∧ q' = q) ∧ held = false then none else s.mode? u q' := by
  rw [letGo_apply]
  cases held with
  | true => simp
  | false =>
      simp only [Bool.false_eq_true, if_false, and_true]
      exact LockTable.mode?_release s.pool.locks tx q u q'

/-- A page that is passed is let go of unless it was held before. -/
theorem mode?_passed (plain : s.catalog.Plain) (got : fetch tx q .readWrite s = (.ok p, s₁))
    (u : TxId) (q' : PageId) :
    (letGo (s.pool.locks.holds tx q) tx q s₁).2.mode? u q' =
      if u = tx ∧ q' = q ∧ (s.mode? tx q').isSome then some .exclusive else s.mode? u q' := by
  have granted := (replied_of_eq plain got).mode?_of_ok
  have held : s.pool.locks.holds tx q = (s.mode? tx q).isSome := rfl
  rw [mode?_letGo, granted, held]
  by_cases here : u = tx ∧ q' = q
  · obtain ⟨rfl, rfl⟩ := here
    cases s.mode? u q' <;> simp
  · rw [if_neg fun h => here h.1, if_neg here, if_neg fun h => here ⟨h.1, h.2.1⟩]

theorem Climbs.escalated (plain : s.catalog.Plain) (h : Climbs f tx n s rs m s') :
    Escalated f tx n m s s' := by
  induction h with
  | here n s =>
      intro u q
      rw [if_neg]
      omega
  | @full n m s s₁ s' rs p inside got full rest ih =>
      have first := spares_passed plain f.id got
      have further := rest.le
      intro u q
      rw [ih (first.catalog ▸ plain), mode?_passed plain got, mode?_passed plain got]
      by_cases here : q = ⟨f.table, n⟩
      · subst here
        have past : ¬ n + 1 ≤ n := by omega
        have below : n < m := by omega
        simp [past, below]
      · have number : q.table = f.table → (n ≤ q.number ↔ n + 1 ≤ q.number) := by
          intro table
          have : q.number ≠ n := fun same => here (by rw [← table, ← same])
          omega
        simp only [here, false_and, and_false, if_false]
        by_cases table : q.table = f.table
        · simp only [number table]
        · simp only [table, false_and, and_false]
  | @grown n m s s₁ s' rs outside grows rest ih =>
      have first := spares_append grows
      have locks (u : TxId) (q : PageId) : s₁.mode? u q = s.mode? u q := by
        rw [(append_ok grows).1]
        rfl
      intro u q
      rw [ih (first.catalog ▸ plain), locks, locks]

/-- A search that finds no place for a row does nothing but climb, and lock the page that it has come
to unless the lock is refused. -/
theorem Seeks.climbed {e : Error} (plain : s.catalog.Plain)
    (h : Seeks f tx t n s rs (.error e) s') :
    ∃ rs₀ m s₀, Climbs f tx n s rs₀ m s₀ ∧ s'.disk = s₀.disk ∧
      ((∀ u q, s'.mode? u q = s₀.mode? u q) ∨
        rs = rs₀ ++ [⟨tx, ⟨f.table, m⟩, .readWrite, s₀⟩] ∧
          ∀ u q, s'.mode? u q =
            if u = tx ∧ q = ⟨f.table, m⟩ then some .exclusive else s₀.mode? u q) := by
  cases h with
  | @unfetched m s₀ _ rs₀ _ climbs inside failed =>
      have replied := climbs.replied plain failed
      refine ⟨rs₀, m, s₀, climbs, replied.frame.2, ?_⟩
      rcases replied.mode? with ⟨rfl, _⟩ | granted
      · exact .inl fun _ _ => rfl
      · exact .inr ⟨rfl, granted⟩
  | @unfit m s₀ _ rs₀ _ _ climbs inside got room unfit =>
      have replied := climbs.replied plain got
      exact ⟨rs₀, m, s₀, climbs, replied.frame.2, .inr ⟨rfl, replied.mode?_of_ok⟩⟩
  | ungrown climbs _ => exact ⟨_, _, _, climbs, rfl, .inl fun _ _ => rfl⟩
  | endless climbs => exact ⟨_, _, _, climbs, rfl, .inl fun _ _ => rfl⟩

end HeapStore.Store
