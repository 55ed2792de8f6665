import HeapStore.Proofs.Store.Touching

/-!
Cached pages that are seen to one after the other. A page that is due is written, and one that
cannot be written ends the round: what was before it has been seen to, and it and all behind it are
as they were, in the cache and byte by byte in the files. Nothing is asked of what the files hold
or of reading them, so what has been written is told by its bytes and not by the page it is read as.
-/

namespace HeapStore
open Std

namespace HeapFile

theorem lt_numPages_of_patched {f : HeapFile} {d d' : Disk TableId} {W : PageId → Prop} {n : Nat}
    (h : d.Patched W d') (hn : n < f.numPages d) : n < f.numPages d' := by
  rw [lt_numPages_iff] at hn ⊢
  have longer : d.length f.id ≤ d'.length f.id := by
    rcases h.length f.id with same | ⟨_, _, shorter, ends⟩
    · exact Nat.le_of_eq same.symm
    · rw [ends]
      exact Nat.le_of_lt shorter
  exact Nat.lt_of_lt_of_le hn longer

end HeapFile

namespace HeapPage

/-- A page as it is once it has been written if that was `due`. -/
def flushed (due : HeapPage → Prop) [DecidablePred due] (p : HeapPage) : HeapPage :=
  if due p then p.mark none else p

variable {due : HeapPage → Prop} [DecidablePred due] {p : HeapPage}

theorem flushed_of_due (h : due p) : p.flushed due = p.mark none :=
  if_pos h

theorem flushed_of_not_due (h : ¬ due p) : p.flushed due = p :=
  if_neg h

/-- Nothing but the mark is different. -/
theorem mark_flushed (p : HeapPage) : (p.flushed due).mark none = p.mark none := by
  unfold flushed
  split <;> rfl

end HeapPage

namespace Store
variable {α : Type} {s s' s₁ : Store} {q : PageId} {p : HeapPage} {bytes : List UInt8}
  {W : PageId → Prop} {due : HeapPage → Prop} {becomes : HeapPage → HeapPage}
  {done done' pages : List PageId} {visit : HeapPage → StoreM Unit}

theorem OnDisk.patched (on : OnDisk s q bytes) (keyed : s.catalog.Keyed)
    (catalog : s'.catalog = s.catalog) (disk : s.disk.Patched W s'.disk) (hq : ¬ W q) :
    OnDisk s' q bytes := by
  obtain ⟨e, found, inside, there⟩ := on
  have unwritten : ¬ W ⟨e.file.table, q.number⟩ := by
    rwa [keyed _ _ (Catalog.find_ok found)]
  refine ⟨e, by rw [catalog, found], HeapFile.lt_numPages_of_patched disk inside, ?_⟩
  rw [HeapFile.blockAt_of_patched disk e.file unwritten, there]

/-- The pages `done` have been seen to, as far as they are cached: each is now what it `becomes`,
those that were `due` have been written, and nothing else is different. -/
structure Round (due : HeapPage → Prop) (becomes : HeapPage → HeapPage) (done : List PageId)
    (s s' : Store) : Prop extends
    Touches (· ∈ done) (fun q => q ∈ done ∧ ∃ p, s.cached q = some p ∧ due p) s s' where
  free : ∀ q ∈ done, ∀ p, s.cached q = some p → due p → ¬ s.Refuses q
  seen : ∀ q ∈ done, s'.cached q = (s.cached q).map becomes
  written : ∀ q ∈ done, ∀ p, s.cached q = some p → due p → OnDisk s' q p.image

namespace Round

theorem nil : Round due becomes [] s s :=
  { Touches.refl _ _ s with free := nofun, seen := nofun, written := nofun }

/-- A page that is not cached is passed over, and so is one that is to stay as it is. -/
theorem pass (h : ∀ p, s.cached q = some p → becomes p = p ∧ ¬ due p) :
    Round due becomes [q] s s := by
  constructor
  case toTouches => exact .refl _ _ s
  case free =>
    intro _ hq' p hp ready
    obtain rfl := List.mem_singleton.mp hq'
    exact absurd ready (h p hp).2
  case seen =>
    intro q' hq'
    obtain rfl := List.mem_singleton.mp hq'
    cases hp : s.cached q' with
    | none => rfl
    | some p => rw [Option.map_some, (h p hp).1]
  case written =>
    intro _ hq' p hp ready
    obtain rfl := List.mem_singleton.mp hq'
    exact absurd ready (h p hp).2

/-- A page is put in place, and was written before if it was due. -/
theorem put {disk : Disk TableId} (hp : s.cached q = some p) (id : (becomes p).id = q)
    (free : due p → ¬ s.Refuses q) (patched : s.disk.Patched (fun q' => q' = q ∧ due p) disk)
    (there : due p → OnDisk { s with disk } q p.image) :
    Round due becomes [q] s (put (becomes p) { s with disk }).2 := by
  have only {q' : PageId} (hq' : q' ∈ [q]) {p' : HeapPage} (hp' : s.cached q' = some p') :
      q' = q ∧ p' = p := by
    obtain rfl := List.mem_singleton.mp hq'
    exact ⟨rfl, Option.some.inj (hp'.symm.trans hp)⟩
  have here : q ∈ [q] := List.mem_singleton_self q
  constructor
  case toTouches =>
    have wrote := touches_of_disk patched
    have touched := touches_put (becomes p) { s with disk }
    refine (wrote.mono nofun ?_).trans (touched.mono ?_ nofun)
    · rintro _ ⟨rfl, ready⟩
      exact ⟨here, p, hp, ready⟩
    · rintro _ rfl
      exact id.symm ▸ here
  case free =>
    intro _ hq' _ hp' ready
    obtain ⟨rfl, rfl⟩ := only hq' hp'
    exact free ready
  case seen =>
    intro q' hq'
    obtain rfl := List.mem_singleton.mp hq'
    show (s.pool.cache.update (becomes p)).find? q' = _
    rw [Cache.find?_update, if_pos id.symm, hp, show s.pool.cache.find? q' = some p from hp]
    rfl
  case written =>
    intro _ hq' _ hp' ready
    obtain ⟨rfl, rfl⟩ := only hq' hp'
    exact there ready

theorem trans (keyed : s.catalog.Keyed) (h : Round due becomes done s s₁)
    (h' : Round due becomes done' s₁ s') (apart : ∀ q ∈ done', q ∉ done) :
    Round due becomes (done ++ done') s s' := by
  have before {q : PageId} (hq : q ∈ done') : s₁.cached q = s.cached q :=
    h.cached q (apart q hq)
  have after {q : PageId} (hq : q ∈ done) : q ∉ done' :=
    fun hq' => apart q hq' hq
  constructor
  case toTouches =>
    refine (h.toTouches.mono ?_ ?_).trans (h'.toTouches.mono ?_ ?_)
    · exact fun _ hq => List.mem_append_left _ hq
    · exact fun _ hq => hq.imp_left (List.mem_append_left _)
    · exact fun _ hq => List.mem_append_right _ hq
    · rintro q ⟨hq, p, hp, ready⟩
      exact ⟨List.mem_append_right _ hq, p, before hq ▸ hp, ready⟩
  case free =>
    intro q hq p hp ready
    rcases List.mem_append.mp hq with hq | hq
    · exact h.free q hq p hp ready
    · rw [← refuses_congr h.catalog h.disk.faults]
      exact h'.free q hq p ((before hq).trans hp) ready
  case seen =>
    intro q hq
    rcases List.mem_append.mp hq with hq | hq
    · rw [h'.cached q (after hq), h.seen q hq]
    · rw [h'.seen q hq, before hq]
  case written =>
    intro q hq p hp ready
    rcases List.mem_append.mp hq with hq | hq
    · exact (h.written q hq p hp ready).patched (h.catalog ▸ keyed) h'.catalog h'.disk
        fun written => after hq written.1
    · exact h'.written q hq p ((before hq).trans hp) ready

/-- Pages that are passed over need not be told. -/
theorem filter (h : Round due becomes done s s') (c : PageId → Bool)
    (hc : ∀ q, c q = false → ∀ p, s.cached q = some p → becomes p = p ∧ ¬ due p) :
    Round due becomes (done.filter c) s s' := by
  have mem {q : PageId} (hq : q ∈ done.filter c) : q ∈ done := (List.mem_filter.mp hq).1
  constructor
  case toTouches =>
    refine ⟨h.frame, h.unmoved, fun q hq => ?_, h.disk.mono ?_⟩
    · by_cases out : q ∈ done
      · have passed : c q = false := by
          simpa [List.mem_filter, out] using hq
        rw [h.seen q out]
        cases hp : s.cached q with
        | none => rfl
        | some p => rw [Option.map_some, (hc q passed p hp).1]
      · exact h.cached q out
    · rintro q ⟨hq, p, hp, ready⟩
      refine ⟨List.mem_filter.mpr ⟨hq, ?_⟩, p, hp, ready⟩
      exact Bool.of_not_eq_false fun passed => (hc q passed p hp).2 ready
  case free => exact fun q hq => h.free q (mem hq)
  case seen => exact fun q hq => h.seen q (mem hq)
  case written => exact fun q hq => h.written q (mem hq)

end Round

/-- A round over `pages` comes as far as the first that is due and cannot be written. -/
def Rounds (due : HeapPage → Prop) (becomes : HeapPage → HeapPage) (pages : List PageId)
    (s : Store) (r : Except Error Unit × Store) : Prop :=
  ∃ done halt, Outcome s pages done halt r.1 ∧
    (∀ q, halt = some q → ∃ p, s.cached q = some p ∧ due p) ∧ Round due becomes done s r.2

theorem Outcome.filter {r : Except Error α} {halt : Option PageId}
    (h : Outcome s pages done halt r) (c : PageId → Bool) (hc : ∀ q, halt = some q → c q = true) :
    Outcome s (pages.filter c) (done.filter c) halt r := by
  cases h with
  | all a => exact .all a
  | @upTo _ rest q _ split refusal =>
      have split' : pages.filter c = done.filter c ++ q :: rest.filter c := by
        rw [split, List.filter_append, List.filter_cons_of_pos (hc q rfl)]
      exact .upTo split' refusal

namespace Rounds
variable {r : Except Error Unit × Store} {e : Error}

theorem cons (keyed : s.catalog.Keyed) (hq : q ∉ pages) (first : Round due becomes [q] s s₁)
    (h : Rounds due becomes pages s₁ r) : Rounds due becomes (q :: pages) s r := by
  obtain ⟨done, halt, outcome, stuck, round⟩ := h
  have later {v : PageId} (hv : v ∈ done ∨ halt = some v) : v ∉ [q] := by
    intro same
    exact hq (List.mem_singleton.mp same ▸ outcome.mem hv)
  refine ⟨[q] ++ done, halt, ?_, ?_, ?_⟩
  · exact outcome.cons (Refusal.congr first.catalog first.disk.faults).mp
  · intro v hv
    rw [← first.cached v (later (.inr hv))]
    exact stuck v hv
  · exact first.trans keyed round fun v hv => later (.inl hv)

/-- The first page cannot be written. -/
theorem halt (here : s.cached q = some p) (ready : due p) (refusal : Refusal s q e) :
    Rounds due becomes (q :: pages) s (.error e, s) := by
  refine ⟨[], some q, .upTo rfl refusal, ?_, .nil⟩
  rintro _ ⟨⟩
  exact ⟨p, here, ready⟩

theorem filter (h : Rounds due becomes pages s r) (c : PageId → Bool)
    (hc : ∀ q, c q = false → ∀ p, s.cached q = some p → becomes p = p ∧ ¬ due p) :
    Rounds due becomes (pages.filter c) s r := by
  obtain ⟨done, halt, outcome, stuck, round⟩ := h
  refine ⟨done.filter c, halt, outcome.filter c fun q hq => ?_, stuck, round.filter c hc⟩
  obtain ⟨p, here, ready⟩ := stuck q hq
  exact Bool.of_not_eq_false fun passed => (hc q passed p here).2 ready

/-- All is well exactly if every page that is due can be written. -/
theorem ok_iff (h : Rounds due becomes pages s r) :
    r.1 = .ok () ↔ ∀ q ∈ pages, ∀ p, s.cached q = some p → due p → ¬ s.Refuses q := by
  obtain ⟨done, halt, outcome, stuck, round⟩ := h
  generalize r.1 = answer at outcome
  cases outcome with
  | all _ => exact ⟨fun _ => round.free, fun _ => rfl⟩
  | upTo split refusal =>
      obtain ⟨p, here, ready⟩ := stuck _ rfl
      refine ⟨nofun, fun free => ?_⟩
      exact absurd ⟨_, refusal⟩ (free _ (by rw [split]; simp) p here ready)

end Rounds

/-- A page has its turn: it is due and cannot be written, and then nothing is different, or it is
seen to. -/
inductive Attended (due : HeapPage → Prop) (becomes : HeapPage → HeapPage) (s : Store) (q : PageId)
    (p : HeapPage) : Except Error Unit × Store → Prop
  | refused {e : Error} (ready : due p) (refusal : Refusal s q e) :
      Attended due becomes s q p (.error e, s)
  | seen {s' : Store} (coherent : s'.Coherent) (round : Round due becomes [q] s s') :
      Attended due becomes s q p (.ok (), s')

def Attends (due : HeapPage → Prop) (becomes : HeapPage → HeapPage)
    (visit : HeapPage → StoreM Unit) : Prop :=
  ∀ {s : Store} {q : PageId} {p : HeapPage}, s.Coherent → s.catalog.Plain → s.cached q = some p →
    Attended due becomes s q p (visit p s)

/-- Pages that are visited one after the other. -/
theorem Attends.rounds (attends : Attends due becomes visit) (hs : s.Coherent)
    (plain : s.catalog.Plain) (nodup : pages.Nodup) :
    Rounds due becomes pages s (pages.forM (fun q => withCached q visit) s) := by
  induction pages generalizing s with
  | nil => exact ⟨[], none, .all (), nofun, .nil⟩
  | cons q pages ih =>
      obtain ⟨hq, nodup⟩ := List.nodup_cons.mp nodup
      show Rounds due becomes (q :: pages) s
        ((withCached q visit >>= fun _ => pages.forM fun q => withCached q visit) s)
      rw [bind_apply, withCached_apply]
      cases hp : s.cached q with
      | none =>
          have passed : Round due becomes [q] s s := .pass fun p here => by
            rw [hp] at here
            cases here
          exact (ih hs plain nodup).cons hs.catalog hq passed
      | some p =>
          simp only
          have attended := attends hs plain hp
          generalize visit p s = result at attended ⊢
          cases attended with
          | refused ready refusal => exact .halt hp ready refusal
          | seen coherent round =>
              exact (ih coherent (round.catalog ▸ plain) nodup).cons hs.catalog hq round

theorem Attended.of_refused {e : Error} (hs : s.Coherent) (plain : s.catalog.Plain)
    (hp : s.cached q = some p) (ready : due p) (failed : s.writing p = .error e) :
    Attended due becomes s q p (.error e, s) :=
  .refused ready ((hs.pages q p hp).id ▸ refusal_of_writing plain failed)

/-- A page that is due is written before it is put in place. -/
theorem Attended.of_written {disk : Disk TableId} {p' : HeapPage} (hs : s.Coherent)
    (plain : s.catalog.Plain) (hp : s.cached q = some p) (ready : due p) (next : becomes p = p')
    (made : p'.Made q) (wrote : s.writing p = .ok disk) :
    Attended due becomes s q p (.ok (), (put p' { s with disk }).2) := by
  subst next
  have id : p.id = q := (hs.pages q p hp).id
  have free := free_of_writing plain wrote
  obtain ⟨patched, there⟩ := patched_of_writing hs.catalog wrote
  rw [id] at free patched there
  refine .seen ((hs.wrote disk).changed made) ?_
  exact .put hp made.id (fun _ => free) (patched.mono fun _ here => ⟨here, ready⟩) fun _ => there

/-- A page that is not due is put in place at most. -/
theorem Attended.of_put {p' : HeapPage} (hs : s.Coherent) (hp : s.cached q = some p)
    (spared : ¬ due p) (next : becomes p = p') (made : p'.Made q) :
    Attended due becomes s q p (.ok (), (put p' s).2) := by
  subst next
  refine .seen (hs.changed made) ?_
  exact .put hp made.id (fun ready => absurd ready spared) (.refl _ _)
    fun ready => absurd ready spared

theorem attends_flush [DecidablePred due] (dirty : ∀ p, due p → p.isDirty) :
    Attends due (·.flushed due) fun p => if due p then writeBack p else pure () := by
  intro s q p hs plain hp
  by_cases ready : due p
  · simp only [if_pos ready]
    have ends := writesBack p s
    generalize writeBack p s = outcome at ends ⊢
    obtain ⟨r, s'⟩ := outcome
    cases ends with
    | spared clean => cases (isDirty_eq_false.mpr clean).symm.trans (dirty p ready)
    | refused _ failed => exact .of_refused hs plain hp ready failed
    | written _ wrote =>
        exact .of_written hs plain hp ready (HeapPage.flushed_of_due ready)
          ((hs.pages q p hp).mark none) wrote
  · simp only [if_neg ready]
    refine .seen hs (.pass fun p' hp' => ?_)
    obtain rfl : p' = p := Option.some.inj (hp'.symm.trans hp)
    exact ⟨HeapPage.flushed_of_not_due ready, ready⟩

/-- A transaction has stored a row in each of two tables, over the files of `disk`. -/
def twoRowsOver (disk : Disk TableId) : Store :=
  { twoRows ⟨1⟩ with catalog := bothTables, disk, parked := [] }

theorem arises_twoRowsOver (disk : Disk TableId) : Arises (twoRowsOver disk) :=
  (arises_twoRows ⟨1⟩).elsewhere plain_bothTables.keyed disk []

/-- The file of the second table takes no writes. -/
def halfRefusing : Disk TableId where
  faults.write := fun name _ => name = otherPage.table

end Store
end HeapStore
