import ReactorTrace.Batch
import ReactorTrace.Output.Recording

/-! The rows of records, apart from the output that takes them. Records have rows up to the first one
of unknown event type (`rows_eq`); writing hands these rows over one by one until the output fails
(`writeRows_eq`). An output that never fails gets all of them, and its state is that after the
calls. -/

namespace ReactorTrace

variable {σ : Type}

namespace Output

/-- Writes rows in order, up to and including the first one that fails. -/
def writeAll (out : Output σ) : List Row → σ → Except Fault Unit × σ
  | [], s => (.ok (), s)
  | r :: rows, s =>
    match out.row r s with
    | (.error fault, s') => (.error fault, s')
    | (.ok (), s') => out.writeAll rows s'

structure NeverFails (out : Output σ) : Prop where
  title : ∀ s, (out.title s).1 = .ok ()
  row : ∀ r s, (out.row r s).1 = .ok ()
  flush : ∀ s, (out.flush s).1 = .ok ()

/-- The state after a call. -/
def call (out : Output σ) (s : σ) : OutputCall → σ
  | .title => (out.title s).2
  | .row r => (out.row r s).2
  | .flush => (out.flush s).2

def calls (out : Output σ) (cs : List OutputCall) (s : σ) : σ := cs.foldl out.call s

@[simp] theorem calls_nil (out : Output σ) (s : σ) : out.calls [] s = s := rfl

@[simp] theorem calls_cons (out : Output σ) (c : OutputCall) (cs : List OutputCall) (s : σ) :
    out.calls (c :: cs) s = out.calls cs (out.call s c) := rfl

@[simp] theorem calls_append (out : Output σ) (cs more : List OutputCall) (s : σ) :
    out.calls (cs ++ more) s = out.calls more (out.calls cs s) := List.foldl_append

theorem call_calls (out : Output σ) (cs : List OutputCall) (c : OutputCall) (s : σ) :
    out.call (out.calls cs s) c = out.calls (cs ++ [c]) s := by
  rw [calls_append]
  rfl

theorem NeverFails.title_eq {out : Output σ} (h : out.NeverFails) (s : σ) :
    out.title s = (.ok (), out.call s .title) := by
  rw [← h.title s]
  rfl

theorem NeverFails.writeAll_eq {out : Output σ} (h : out.NeverFails) (rows : List Row) (s : σ) :
    out.writeAll rows s = (.ok (), out.calls (rows.map .row) s) := by
  induction rows generalizing s with
  | nil => rfl
  | cons r rows ih =>
    have hr : out.row r s = (.ok (), (out.row r s).2) := by rw [← h.row r s]
    rw [writeAll, hr, List.map_cons, calls_cons]
    exact ih _

end Output

namespace Recording

theorem neverFails : (output .none).NeverFails := ⟨fun _ => rfl, fun _ _ => rfl, fun _ => rfl⟩

/-- The calls of an output that records them are those that it records. -/
theorem calls_output (faults : OutputFaults) (cs : List OutputCall) (s : Recording) :
    ((output faults).calls cs s).calls = s.calls ++ cs.toArray := by
  induction cs generalizing s with
  | nil => simp
  | cons c cs ih =>
    rw [Output.calls_cons, ih, List.toArray_cons, ← Array.append_assoc]
    cases c <;> rfl

end Recording

namespace EventNames

/-- The event types that have a name. -/
def Knows (table : EventNames) (eventType : Int32) : Prop :=
  0 ≤ eventType.toInt ∧ eventType.toInt < table.size

instance (table : EventNames) (eventType : Int32) : Decidable (table.Knows eventType) :=
  inferInstanceAs (Decidable (_ ∧ _))

/-- The name of an event type that has one. -/
def name (table : EventNames) (eventType : Int32) : String :=
  table.names.getD eventType.toInt.toNat ""

theorem get?_eq (table : EventNames) (eventType : Int32) :
    table.get? eventType = if table.Knows eventType then some (table.name eventType) else none := by
  have hsign : eventType < 0 ↔ eventType.toInt < 0 := Int32.lt_iff_toInt_lt
  unfold get?
  by_cases hknows : table.Knows eventType
  · obtain ⟨hpos, hlt⟩ := hknows
    have hindex : eventType.toInt.toNat < table.names.length := by
      unfold size at hlt
      omega
    rw [if_neg fun h => Int.not_lt.2 hpos (hsign.1 h), if_pos ⟨hpos, hlt⟩, name,
      List.getD_eq_getElem?_getD, List.getElem?_eq_getElem hindex, Option.getD_some]
  · rw [if_neg hknows]
    by_cases hneg : eventType < 0
    · rw [if_pos hneg]
    · rw [if_neg hneg, List.getElem?_eq_none_iff]
      have hpos : 0 ≤ eventType.toInt := Int.not_lt.1 fun h => hneg (hsign.2 h)
      have hlt : ¬ eventType.toInt < table.names.length := fun h => hknows ⟨hpos, h⟩
      omega

end EventNames

namespace Decoder

/-- The row of a record of known event type. -/
def rowOf (d : Decoder) (raw : RawRecord) : Row :=
  Row.ofRecord (Record.ofRaw raw) (d.eventNames.name raw.eventType)
    (d.header.symbols.describe raw.object) d.header.startTime

theorem row_eq (d : Decoder) (index : Nat) (raw : RawRecord) :
    d.row index raw = if d.eventNames.Knows raw.eventType then .ok (d.rowOf raw)
      else .error (.unknownEvent index raw.eventType d.eventNames.size) := by
  have htype : (Record.ofRaw raw).eventType = raw.eventType := rfl
  unfold row
  simp only [htype, EventNames.get?_eq]
  by_cases hknown : d.eventNames.Knows raw.eventType
  · simp only [if_pos hknown]
    rfl
  · simp only [if_neg hknown]

/-- The records before the first one of unknown event type. -/
def known (d : Decoder) (raws : List RawRecord) : List RawRecord :=
  raws.takeWhile fun raw => d.eventNames.Knows raw.eventType

/-- The first record of unknown event type. -/
def unknown? (d : Decoder) (raws : List RawRecord) : Option RawRecord :=
  raws.find? fun raw => ¬ d.eventNames.Knows raw.eventType

theorem known_of_forall {d : Decoder} {raws : List RawRecord}
    (h : ∀ raw ∈ raws, d.eventNames.Knows raw.eventType) : d.known raws = raws := by
  induction raws with
  | nil => rfl
  | cons raw raws ih =>
    obtain ⟨hraw, hraws⟩ := List.forall_mem_cons.1 h
    rw [known, List.takeWhile_cons_of_pos (by simpa using hraw)]
    exact congrArg (raw :: ·) (ih hraws)

theorem unknown?_eq_none_iff {d : Decoder} {raws : List RawRecord} :
    d.unknown? raws = none ↔ ∀ raw ∈ raws, d.eventNames.Knows raw.eventType := by
  simp [unknown?, List.find?_eq_none]

theorem known_append {d : Decoder} {raws : List RawRecord}
    (h : ∀ raw ∈ raws, d.eventNames.Knows raw.eventType) (more : List RawRecord) :
    d.known (raws ++ more) = raws ++ d.known more :=
  List.takeWhile_append_of_pos fun raw hraw => decide_eq_true (h raw hraw)

theorem known_append_of_unknown {d : Decoder} {raws : List RawRecord} {raw : RawRecord}
    (h : d.unknown? raws = some raw) (more : List RawRecord) :
    d.known (raws ++ more) = d.known raws := by
  induction raws with
  | nil => simp [unknown?] at h
  | cons first raws ih =>
    by_cases hfirst : d.eventNames.Knows first.eventType
    · have hraws : d.unknown? raws = some raw := by simpa [unknown?, hfirst] using h
      have hmore := ih hraws
      simp only [known] at hmore ⊢
      simp [hfirst, hmore]
    · simp [known, hfirst]

/-- The rows of records, from this index on, up to the first record of unknown event type; and the
fault of that one. -/
def rows (d : Decoder) : (index : Nat) → List RawRecord → List Row × Option Fault
  | _, [] => ([], none)
  | index, raw :: raws =>
    match d.row index raw with
    | .error fault => ([], some fault)
    | .ok r =>
      let more := d.rows (index + 1) raws
      (r :: more.1, more.2)

theorem rows_eq (d : Decoder) (index : Nat) (raws : List RawRecord) :
    d.rows index raws = ((d.known raws).map d.rowOf,
      (d.unknown? raws).map fun raw =>
        .unknownEvent (index + (d.known raws).length) raw.eventType d.eventNames.size) := by
  induction raws generalizing index with
  | nil => rfl
  | cons raw raws ih =>
    rw [rows, row_eq]
    by_cases hknown : d.eventNames.Knows raw.eventType
    · have hk : d.known (raw :: raws) = raw :: d.known raws := by simp [known, hknown]
      have hu : d.unknown? (raw :: raws) = d.unknown? raws := by simp [unknown?, hknown]
      rw [if_pos hknown, hk, hu]
      simp only [ih, List.map_cons, List.length_cons, Nat.add_assoc, Nat.add_comm 1]
    · have hk : d.known (raw :: raws) = [] := by simp [known, hknown]
      have hu : d.unknown? (raw :: raws) = some raw := by simp [unknown?, hknown]
      rw [if_neg hknown, hk, hu]
      rfl

/-- What is reported once all rows are written. -/
def verdict : Option Fault → Except Fault Unit
  | none => .ok ()
  | some fault => .error fault

theorem writeRows_eq (d : Decoder) (out : Output σ) (index : Nat) (raws : List RawRecord) (s : σ) :
    d.writeRows out index raws s =
      match out.writeAll (d.rows index raws).1 s with
      | (.error fault, s') => (.error fault, s')
      | (.ok (), s') => (verdict (d.rows index raws).2, s') := by
  induction raws generalizing index s with
  | nil => rfl
  | cons raw raws ih =>
    rw [writeRows, rows]
    cases d.row index raw with
    | error fault => rfl
    | ok r =>
      dsimp only
      rw [Output.writeAll]
      cases hr : out.row r s with
      | mk result s' =>
        cases result with
        | error fault => rfl
        | ok _ => exact ih (index + 1) s'

/-- All rows are written only if every record has one. -/
theorem knows_of_writeRows_eq_ok {d : Decoder} {out : Output σ} {index : Nat} {raws : List RawRecord}
    {s s' : σ} (h : d.writeRows out index raws s = (.ok (), s')) :
    ∀ raw ∈ raws, d.eventNames.Knows raw.eventType := by
  rw [writeRows_eq, rows_eq] at h
  apply unknown?_eq_none_iff.1
  split at h
  · simp at h
  · cases hunknown : d.unknown? raws with
    | none => rfl
    | some raw => simp [hunknown, verdict] at h

theorem writeRows_of_neverFails (d : Decoder) {out : Output σ} (h : out.NeverFails) (index : Nat)
    (raws : List RawRecord) (s : σ) :
    d.writeRows out index raws s =
      (verdict (d.rows index raws).2, out.calls ((d.rows index raws).1.map .row) s) := by
  rw [writeRows_eq, h.writeAll_eq]

end Decoder

end ReactorTrace
