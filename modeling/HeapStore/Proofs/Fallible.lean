/-!
Computations that may fail, taken apart: how one after the other fares is how the first fares, and
then the next. One that may also be missing something is like one that may not, if nothing it looks
up is missing.
-/

namespace HeapStore
variable {α β ε : Type}

theorem bind_ok_iff {x : Except ε α} {k : α → Except ε β} {b : β} :
    x >>= k = .ok b ↔ ∃ a, x = .ok a ∧ k a = .ok b := by
  cases x with
  | error e => exact ⟨nofun, nofun⟩
  | ok a => exact ⟨fun h => ⟨a, rfl, h⟩, fun ⟨_, first, rest⟩ => by cases first; exact rest⟩

theorem bind_error_iff {x : Except ε α} {k : α → Except ε β} {e : ε} :
    x >>= k = .error e ↔ x = .error e ∨ ∃ a, x = .ok a ∧ k a = .error e := by
  cases x with
  | error e' =>
      refine ⟨fun h => .inl (congrArg Except.error (Except.error.inj h)), ?_⟩
      rintro (first | ⟨_, first, _⟩)
      · exact congrArg Except.error (Except.error.inj first)
      · cases first
  | ok a =>
      refine ⟨fun h => .inr ⟨a, rfl, h⟩, ?_⟩
      rintro (first | ⟨_, first, rest⟩)
      · cases first
      · cases first
        exact rest

section Sequence
variable {f : α → Except ε β}

theorem map_of_mapM {l : List α} {bs : List β} (h : l.mapM f = .ok bs) :
    l.map f = bs.map .ok := by
  induction l generalizing bs with
  | nil =>
      cases h
      rfl
  | cons a l ih =>
      rw [List.mapM_cons] at h
      obtain ⟨b, hb, h⟩ := bind_ok_iff.mp h
      obtain ⟨rest, hr, h⟩ := bind_ok_iff.mp h
      cases h
      rw [List.map_cons, List.map_cons, hb, ih hr]

/-- The error is that of the first that fails. -/
theorem first_of_mapM {l : List α} {e : ε} (h : l.mapM f = .error e) :
    ∃ (i : Nat) (a : α), l[i]? = some a ∧ f a = .error e ∧
      ∀ j < i, ∀ a', l[j]? = some a' → ∃ b, f a' = .ok b := by
  induction l with
  | nil => cases h
  | cons a l ih =>
      rw [List.mapM_cons] at h
      rcases bind_error_iff.mp h with fails | ⟨b, hb, h⟩
      · exact ⟨0, a, rfl, fails, fun j hj => absurd hj (Nat.not_lt_zero j)⟩
      · obtain fails | ⟨_, _, h⟩ := bind_error_iff.mp h
        · obtain ⟨i, x, hi, fails, before⟩ := ih fails
          refine ⟨i + 1, x, hi, fails, fun j hj a' ha' => ?_⟩
          cases j with
          | zero =>
              cases ha'
              exact ⟨b, hb⟩
          | succ j => exact before j (Nat.lt_of_succ_lt_succ hj) a' ha'
        · cases h

end Sequence

theorem run_bind {x : ExceptT ε Option α} {r : Except ε α} {k : α → ExceptT ε Option β}
    {k' : α → Except ε β} (hx : x.run = some r) (hk : ∀ a, r = .ok a → (k a).run = some (k' a)) :
    (x >>= k).run = some (r >>= k') := by
  rw [ExceptT.run_bind, hx]
  cases r with
  | error e => rfl
  | ok a => exact hk a rfl

theorem run_lookup {x : Option α} {a : α} {k : α → ExceptT ε Option β} (hx : x = some a) :
    ((liftM x : ExceptT ε Option α) >>= k).run = (k a).run := by
  subst hx
  rfl

theorem run_bind_ok_iff {x : ExceptT ε Option α} {k : α → ExceptT ε Option β} {b : β} :
    (x >>= k).run = some (.ok b) ↔ ∃ a, x.run = some (.ok a) ∧ (k a).run = some (.ok b) := by
  rw [ExceptT.run_bind]
  cases x.run with
  | none => exact ⟨nofun, nofun⟩
  | some r =>
      cases r with
      | error e => exact ⟨nofun, nofun⟩
      | ok a => exact ⟨fun h => ⟨a, rfl, h⟩, fun ⟨_, first, rest⟩ => by cases first; exact rest⟩

theorem run_adapt {ε' : Type} {x : ExceptT ε Option α} {r : Except ε α} (hx : x.run = some r)
    (g : ε → ε') : (x.adapt g).run = some (r.mapError g) :=
  congrArg (Option.map (Except.mapError g)) hx

theorem run_mapM {l : List α} {f : α → Except ε β} {g : α → ExceptT ε Option β}
    (h : ∀ a ∈ l, (g a).run = some (f a)) : (l.mapM g).run = some (l.mapM f) := by
  induction l with
  | nil => rfl
  | cons a l ih =>
      have tail := ih fun b hb => h b (List.mem_cons_of_mem a hb)
      rw [List.mapM_cons, List.mapM_cons]
      exact run_bind (h a List.mem_cons_self) fun b _ => run_bind tail fun bs _ => rfl

theorem mapM_eq_some {l : List α} {f : α → Option β} {g : α → β} (h : ∀ a ∈ l, f a = some (g a)) :
    l.mapM f = some (l.map g) := by
  induction l with
  | nil => rfl
  | cons a l ih =>
      rw [List.mapM_cons, h a List.mem_cons_self, ih fun b hb => h b (List.mem_cons_of_mem a hb)]
      rfl

theorem findM?_eq_some {l : List α} {f : α → Option Bool} {g : α → Bool}
    (h : ∀ a ∈ l, f a = some (g a)) : l.findM? f = some (l.find? g) := by
  induction l with
  | nil => rfl
  | cons a l ih =>
      rw [List.findM?, h a List.mem_cons_self, List.find?_cons]
      cases g a with
      | true => rfl
      | false => exact ih fun b hb => h b (List.mem_cons_of_mem a hb)

end HeapStore
