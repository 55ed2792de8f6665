import HeapStore.Draft
import HeapStore.Proofs.Page.Offsets
import HeapStore.Proofs.Page.RoundTrip
import HeapStore.Proofs.Text.Boundary

/-!
A row that has come about by being filled in or read is a row with one entry for each column, each
of the column's type. Nothing that is done to it looks up a place that is not there, and writing it
and reading it again cuts its strings and changes nothing else.
-/

namespace HeapStore
open Bytes

theorem Value.write?_eq (v : Value) (buffer : List UInt8) :
    v.write? buffer = some (buffer ++ v.encode) := by
  cases v with
  | int n => rfl
  | string s =>
      obtain ⟨stop, back, last⟩ := Utf8.backUp?_min (Utf8.encode s.toList) stringRoom
      obtain rfl := last.unique (Utf8.lastBoundary_cut stringRoom s.toList)
      have inside := Utf8.isBoundary_le last.boundary
      have text : readAt? (Utf8.encode s.toList) 0 (Utf8.size (Utf8.cut stringRoom s.toList)) =
          some (Utf8.encode (Utf8.cut stringRoom s.toList)) := by
        rw [readAt?_of_le (by omega), List.drop_zero, Utf8.take_size_cut]
      have room := Utf8.length_encode_cut_le stringRoom s.toList
      simp only [write?, encode, back, text, Option.bind_eq_bind, Option.bind_some]
      generalize Utf8.encode (Utf8.cut stringRoom s.toList) = kept at room ⊢
      rw [if_pos (by omega), resize_eq_append (by omega), resize_eq_append room]
      have padding (n : Nat) : n + stringRoom - kept.length - n = stringRoom - kept.length := by
        omega
      rw [padding]
      simp only [List.append_assoc]

/-- The bytes of a value in a slot, and the value that is read from them. A number is all there. A
string stands behind its length, which is the last boundary that there is room for, and comes back
without what is past it. -/
inductive Value.Slotted : Value → List UInt8 → Value → Prop
  | int (n : Int32) : Slotted (.int n) (ofNat32 n.toUInt32.toNat) (.int n)
  | string {s s' : String} {stop : Nat}
      (last : Utf8.LastBoundary (Utf8.encode s.toList) stringRoom stop)
      (initial : s'.toList <+: s.toList)
      (kept : Utf8.encode s'.toList = (Utf8.encode s.toList).take stop) :
      Slotted (.string s)
        (ofNat32 stop ++ (Utf8.encode s.toList).take stop ++ zeros (stringRoom - stop))
        (.string s')

theorem Value.slotted_stored (v : Value) : v.Slotted v.encode v.stored := by
  cases v with
  | int n => exact .int n
  | string s =>
      have last := Utf8.lastBoundary_cut stringRoom s.toList
      have bytes : (Value.string s).encode =
          ofNat32 (Utf8.size (Utf8.cut stringRoom s.toList)) ++
            (Utf8.encode s.toList).take (Utf8.size (Utf8.cut stringRoom s.toList)) ++
            zeros (stringRoom - Utf8.size (Utf8.cut stringRoom s.toList)) := by
        have room := Utf8.length_encode_cut_le stringRoom s.toList
        rw [Utf8.take_size_cut, encode, resize_eq_append room, Utf8.length_encode,
          List.append_assoc]
      rw [bytes]
      refine .string last ?_ ?_
      · rw [String.toList_ofList]
        exact Utf8.cut_prefix stringRoom s.toList
      · rw [String.toList_ofList, Utf8.take_size_cut]

/-- There is one image of a value, and one value that is read from it. -/
theorem Value.Slotted.eq {v v' : Value} {bytes : List UInt8} (h : v.Slotted bytes v') :
    bytes = v.encode ∧ v' = v.stored := by
  have other := v.slotted_stored
  cases h with
  | int n => exact ⟨rfl, rfl⟩
  | @string s s' stop last initial kept =>
      generalize (Value.string s).encode = image, (Value.string s).stored = stored at other ⊢
      cases other with
      | string last' _ kept' =>
          obtain rfl := last.unique last'
          have text := congrArg Utf8.decode (kept.trans kept'.symm)
          rw [Utf8.decode_encode, Utf8.decode_encode] at text
          exact ⟨rfl, congrArg Value.string (String.toList_injective text)⟩

theorem Fits.type_eq {ts : List FieldType} {vs : List (Option Value)} (h : Fits ts vs) {k : Nat}
    {v : Value} (here : vs[k]? = some (some v)) : ts[k]? = some v.type := by
  induction ts generalizing vs k with
  | nil => cases vs with
    | nil => cases here
    | cons => exact h.elim
  | cons t ts ih => cases vs with
    | nil => exact h.elim
    | cons w ws => cases k with
      | zero => exact congrArg some (h.1 v (Option.some.inj here)).symm
      | succ k => exact ih h.2 here

/-- Each field has its own bytes in the image. -/
theorem Tuple.take_encodeEntries {ts : List FieldType} {vs : List (Option Value)}
    (h : Fits ts vs) {k : Nat} {v : Value} (here : vs[k]? = some (some v)) :
    ((encodeEntries ts vs).drop (fieldOffset ts k)).take v.type.width = v.encode := by
  induction ts generalizing vs k with
  | nil => cases vs with
    | nil => cases here
    | cons => exact h.elim
  | cons t ts ih => cases vs with
    | nil => exact h.elim
    | cons w ws =>
        rw [encodeEntries_cons]
        cases k with
        | zero =>
            obtain rfl : w = some v := Option.some.inj here
            have first : fieldOffset (t :: ts) 0 = 0 := rfl
            rw [first, List.drop_zero, encodeEntry, Option.elim_some]
            exact List.take_left' (Value.length_encode v)
        | succ k =>
            rw [fieldOffset, ← List.drop_drop, List.drop_left' (length_encodeEntry h.1)]
            exact ih h.2 here

@[simp] theorem Tuple.draft_schema (t : Tuple) : t.draft.schema = t.schema := rfl
@[simp] theorem Tuple.draft_entries (t : Tuple) : t.draft.entries = t.values := rfl

namespace Draft
open HeapPage (overfullRow)
variable {d : Draft} {t : Tuple} {schema : Schema}

theorem blank_eq (schema : Schema) : blank schema = (Tuple.blank schema).draft := by
  have entries : List.replicate schema.columns.length (none : Option Value) =
      schema.types.map fun _ => none := by
    rw [List.map_const', Schema.types, List.length_map]
  rw [blank, entries]
  rfl

/-- The entry that is gone to is there, and a row that refuses a value stays as it was. -/
theorem set?_draft (t : Tuple) (i : Nat) (v : Value) :
    t.draft.set? i v = some (match t.set i v with
      | .ok u => (.ok (), u.draft)
      | .error e => (.error e, t.draft)) := by
  by_cases same : t.schema.types[i]? = some v.type
  · have inside : i < t.draft.entries.length := by
      have lt := (List.getElem?_eq_some_iff.mp same).1
      have length := t.fits.length_eq
      rw [Tuple.draft_entries]
      omega
    rw [set?, Tuple.draft_schema, same, Tuple.set, dif_pos same]
    simp only [ne_eq, not_true_eq_false, if_false, if_pos inside]
    rfl
  · rw [set?, Tuple.set, dif_neg same, Tuple.draft_schema]
    generalize t.schema.types[i]? = column at same ⊢
    cases column with
    | none => rfl
    | some expected =>
        have other : expected ≠ v.type := fun equal => same (congrArg some equal)
        simp only [if_pos other]

theorem setFrom?_draft (t : Tuple) (i : Nat) (vs : List Value) :
    t.draft.setFrom? i vs = some ((t.setFrom i vs).map Tuple.draft) := by
  induction vs generalizing t i with
  | nil => rfl
  | cons v vs ih =>
      rw [setFrom?, set?_draft, Tuple.setFrom]
      cases t.set i v with
      | error e => rfl
      | ok u => exact ih u (i + 1)

theorem ofValues?_eq (schema : Schema) (vs : List Value) :
    ofValues? schema vs = some ((Tuple.ofValues schema vs).map Tuple.draft) := by
  have columns : schema.columns.length = schema.types.length := by
    rw [Schema.types, List.length_map]
  rw [ofValues?, Tuple.ofValues, columns]
  by_cases length : vs.length = schema.types.length
  · rw [if_neg (not_not_intro length), if_pos length, blank_eq, setFrom?_draft]
  · rw [if_pos length, if_neg length]
    rfl

theorem writeEntries?_eq {ts : List FieldType} {vs : List (Option Value)} (h : Fits ts vs)
    (buffer : List UInt8) :
    writeEntries? buffer ts vs = some (buffer ++ Tuple.encodeEntries ts vs) := by
  induction ts generalizing vs buffer with
  | nil => cases vs with
    | nil =>
        rw [Tuple.encodeEntries, List.zipWith_nil_left, List.flatten_nil, List.append_nil]
        rfl
    | cons => exact h.elim
  | cons t ts ih => cases vs with
    | nil => exact h.elim
    | cons v vs =>
        rw [Tuple.encodeEntries_cons, ← List.append_assoc]
        cases v with
        | none =>
            have blank : resize buffer (buffer.length + t.width) =
                buffer ++ Tuple.encodeEntry t none := by
              rw [resize_eq_append (Nat.le_add_right ..), Nat.add_sub_cancel_left]
              rfl
            rw [writeEntries?, blank]
            exact ih h.2 _
        | some x =>
            rw [writeEntries?, x.write?_eq]
            exact ih h.2 _

/-- What is written of a row is its image, whatever stands before it. -/
theorem write?_draft (t : Tuple) (buffer : List UInt8) :
    t.draft.write? buffer = some (buffer ++ t.encode) :=
  writeEntries?_eq t.fits buffer

theorem parseEntries?_eq (slot : List UInt8) (ts : List FieldType) (offset : Nat) :
    parseEntries? slot ts offset =
      (Tuple.decodeEntries? slot ts offset >>= fun vs => pure vs.1) := by
  induction ts generalizing offset with
  | nil => rfl
  | cons t ts ih =>
      simp only [parseEntries?, Tuple.decodeEntries?, ih, bind_assoc, pure_bind]

theorem parse?_eq (schema : Schema) (slot : List UInt8) :
    parse? schema slot = (Tuple.decode? schema slot >>= fun t => pure t.draft) := by
  simp only [parse?, Tuple.decode?, parseEntries?_eq, bind_assoc, pure_bind]
  rfl

theorem run_parse? {slot : List UInt8} (h : slot.length = schema.width) :
    (parse? schema slot).run = some ((Tuple.decode schema slot).map Tuple.draft) := by
  rw [parse?_eq]
  refine (run_bind (Tuple.run_decode? h) fun t _ => rfl).trans ?_
  cases Tuple.decode schema slot <;> rfl

/-- Every row that can come about has something to vouch for it. -/
theorem Reached.exists_draft (h : Reached d) : ∃ t : Tuple, t.draft = d := by
  induction h with
  | blank schema => exact ⟨_, (blank_eq schema).symm⟩
  | @ofValues schema vs d made =>
      rw [ofValues?_eq] at made
      cases outcome : Tuple.ofValues schema vs with
      | error e =>
          rw [outcome] at made
          cases made
      | ok t =>
          rw [outcome] at made
          cases made
          exact ⟨t, rfl⟩
  | @parse schema slot d read =>
      rw [parse?_eq] at read
      obtain ⟨t, _, done⟩ := run_bind_ok_iff.mp read
      cases done
      exact ⟨t, rfl⟩
  | @set d d' i v answer _ done ih =>
      obtain ⟨t, rfl⟩ := ih
      rw [set?_draft] at done
      cases outcome : t.set i v with
      | ok u =>
          rw [outcome] at done
          cases done
          exact ⟨u, rfl⟩
      | error e =>
          rw [outcome] at done
          cases done
          exact ⟨t, rfl⟩
  | located _ rid ih =>
      obtain ⟨t, rfl⟩ := ih
      exact ⟨t.located rid, rfl⟩

/-- One entry for each column, and each that is set has the column's type. -/
structure WellFilled (d : Draft) : Prop where
  entries : d.entries.length = d.schema.columns.length
  typed : ∀ (k : Nat) (v : Value), d.entries[k]? = some (some v) → d.schema.types[k]? = some v.type

theorem wellFilled_draft (t : Tuple) : t.draft.WellFilled where
  entries := by
    have length := t.fits.length_eq
    rwa [Schema.types, List.length_map] at length
  typed _ _ here := t.fits.type_eq here

/-- `image` is what is written of `d` at the end of any buffer. It is read as `u`, entry by entry,
and is what is written of that, too. -/
structure ReadBack (d : Draft) (image : List UInt8) (u : Draft) : Prop where
  written : ∀ buffer, d.write? buffer = some (buffer ++ image)
  width : image.length = d.schema.width
  read : (parse? d.schema image).run = some (.ok u)
  schema : u.schema = d.schema
  entries : u.entries.length = d.entries.length
  slotted : ∀ k < d.entries.length, ∃ v v', d.entries[k]? = some (some v) ∧
    u.entries[k]? = some (some v') ∧
    v.Slotted ((image.drop (fieldOffset d.schema.types k)).take v.type.width) v'
  again : ∀ buffer, u.write? buffer = some (buffer ++ image)

theorem readBack_draft (complete : t.isComplete) : ∃ u, t.draft.ReadBack t.encode u := by
  obtain ⟨u, read, values, _, schema⟩ := Tuple.decode_encode (rfl : t.schema.types = _) complete []
  rw [List.append_nil] at read
  refine ⟨u.draft, write?_draft t, t.length_encode, ?_, schema, ?_, fun k hk => ?_,
    fun buffer => ?_⟩
  · rw [Tuple.draft_schema, run_parse? t.length_encode, read]
    rfl
  · rw [Tuple.draft_entries, Tuple.draft_entries, values, Tuple.row, List.length_map]
  · have set := List.all_eq_true.mp complete t.values[k] (List.getElem_mem hk)
    obtain ⟨v, hv⟩ := Option.isSome_iff_exists.mp set
    have here : t.values[k]? = some (some v) :=
      (List.getElem?_eq_getElem hk).trans (congrArg some hv)
    refine ⟨v, v.stored, here, ?_, ?_⟩
    · rw [Tuple.draft_entries, values, Tuple.row, List.getElem?_map, here]
      rfl
    · have bytes : (t.encode.drop (fieldOffset t.schema.types k)).take v.type.width = v.encode :=
        Tuple.take_encodeEntries t.fits here
      rw [Tuple.draft_schema, bytes]
      exact v.slotted_stored
  · have same : u.encode = t.encode := by
      rw [Tuple.encode_eq, Tuple.encode_eq, schema, Tuple.row_of_values values]
    rw [write?_draft, same]

/-- However a row has come about, it has one entry for each column, of the column's type; to set an
entry looks up nothing that is not there, and what is refused changes nothing. Once the row is
complete it can be written, in just as many bytes as its schema says. They are read as the same
row but for what is too long of its strings, and that row has the same bytes. -/
theorem reached_row_is_read_back (reached : Reached d) :
    d.WellFilled ∧
    (∀ i v, ∃ answer d', d.set? i v = some (answer, d') ∧
      (answer = .ok () ↔ d.schema.types[i]? = some v.type) ∧
      (answer = .ok () → d' = { d with entries := d.entries.set i (some v) }) ∧
      ∀ e, answer = .error e → d' = d) ∧
    (d.isComplete → ∃ image u, d.ReadBack image u) := by
  obtain ⟨t, rfl⟩ := reached.exists_draft
  refine ⟨wellFilled_draft t, fun i v => ?_, fun complete => ⟨_, readBack_draft complete⟩⟩
  rw [set?_draft, Tuple.set, Tuple.draft_schema]
  by_cases same : t.schema.types[i]? = some v.type
  · rw [dif_pos same]
    exact ⟨_, _, rfl, iff_of_true rfl same, fun _ => rfl, nofun⟩
  · rw [dif_neg same]
    exact ⟨_, _, rfl, iff_of_false nofun same, nofun, fun _ _ => rfl⟩

/-- The text of this row takes one byte more than there is room for, and the last character two. -/
theorem overfull_row_is_read_back :
    Reached overfullRow.draft ∧ overfullRow.draft.isComplete ∧
      ∃ image u, overfullRow.draft.ReadBack image u ∧ image.length = 136 ∧
        u.entries[1]? = some (some (.string (String.ofList (List.replicate 127 'x')))) := by
  have made : ofValues? overfullRow.schema overfullRow.values.reduceOption =
      some (.ok overfullRow.draft) := by
    rw [ofValues?_eq]
    rfl
  have reached : Reached overfullRow.draft := .ofValues made
  obtain ⟨_, _, complete⟩ := reached_row_is_read_back reached
  obtain ⟨image, u, back⟩ := complete rfl
  refine ⟨reached, rfl, image, u, back, back.width, ?_⟩
  obtain ⟨v, v', here, there, slotted⟩ := back.slotted 1 (by decide)
  cases here
  rw [there, slotted.eq.2]
  decide +kernel

end Draft
end HeapStore
