import ReactorTrace.Proofs.Outputs
import ReactorTrace.Proofs.Streams

/-! What the bytes taken decide. Where reading a header or decoding a body fails without being cut short, it
has looked at no byte behind those that it took: over every stream that begins with these it fails in the
same way and at the same place (`Reading.Local`, `Standing.Course`). Only a read that is cut short, or the
end of the trace, depends on what follows. -/

namespace ReactorTrace

variable {α β σ : Type}

/-- The faults of a stream that holds a value which is not accepted. -/
def Fault.isRefusal : Fault → Bool
  | objectCount .. | longBatch .. | negativeBatchLength .. | unknownEvent .. => true
  | _ => false

theorem Fault.isRefusal_cut {short : Fault} (h : short.isShort = true) (ending : Ending) :
    (ending.cut short).isRefusal = false := by
  cases ending with
  | failure cause => rfl
  | endOfFile => cases short <;> cases h <;> rfl

/-- What two lists agree on up to `i + j` they agree on up to `i` and from there on up to `j`. -/
theorem prefix_of_take_add {l l' : List α} {i j : Nat} (hi : i ≤ l.length)
    (h : l.take (i + j) <+: l') : l.take i <+: l' ∧ (l.drop i).take j <+: l'.drop i := by
  obtain ⟨more, rfl⟩ := h
  have hlen : (l.take i).length = i := List.length_take_of_le hi
  rw [List.take_add, List.append_assoc]
  refine ⟨List.prefix_append .., ?_⟩
  rw [List.drop_left' hlen]
  exact List.prefix_append ..

/-! ### Headers -/

/-- A step that goes by the bytes it takes: it does the same on every stream that begins with them, unless
the stream is cut short inside of it. -/
def Reading.Local (step : Reading α) : Prop :=
  ∀ s : Source, (step s).2.ending = s.ending ∧
    ((∃ short : Fault, short.isShort = true ∧ (step s).1 = .error (s.ending.cut short)) ∨
      ∃ taken ≤ s.rest.length, (step s).2.rest = s.rest.drop taken ∧
        ∀ s' : Source, s.rest.take taken <+: s'.rest →
          (step s').1 = (step s).1 ∧ (step s').2.rest = s'.rest.drop taken)

namespace Reading.Local

theorem pure (a : α) : Local (Pure.pure a) :=
  fun _ => ⟨rfl, .inr ⟨0, Nat.zero_le _, rfl, fun _ _ => ⟨rfl, rfl⟩⟩⟩

theorem fail (fault : Fault) : Local (Reading.fail fault : Reading α) :=
  fun _ => ⟨rfl, .inr ⟨0, Nat.zero_le _, rfl, fun _ _ => ⟨rfl, rfl⟩⟩⟩

theorem bind {step : Reading α} {next : α → Reading β} (h : Local step)
    (h' : ∀ a, Local (next a)) : Local (step >>= next) := by
  intro s
  obtain ⟨hending, hstep⟩ := h s
  have hfail {s : Source} {fault : Fault} (hs : (step s).1 = .error fault) :
      (step >>= next) s = (.error fault, (step s).2) := by
    obtain ⟨s', hs'⟩ : ∃ s', step s = (.error fault, s') := ⟨_, Prod.ext hs rfl⟩
    rw [bind_apply, hs']
  have hnext {s : Source} {a : α} (hs : (step s).1 = .ok a) :
      (step >>= next) s = next a (step s).2 := by
    obtain ⟨s', hs'⟩ : ∃ s', step s = (.ok a, s') := ⟨_, Prod.ext hs rfl⟩
    rw [bind_apply, hs']
  cases hresult : (step s).1 with
  | error fault =>
    rw [hfail hresult]
    rw [hresult] at hstep
    refine ⟨hending, ?_⟩
    rcases hstep with ⟨short, hshort, herror⟩ | ⟨taken, hle, hrest, hsame⟩
    · exact .inl ⟨short, hshort, congrArg Except.error (Except.error.inj herror)⟩
    · refine .inr ⟨taken, hle, hrest, fun s' hs' => ?_⟩
      obtain ⟨hresult', hrest'⟩ := hsame s' hs'
      rw [hfail hresult']
      exact ⟨rfl, hrest'⟩
  | ok a =>
    rw [hnext hresult]
    rw [hresult] at hstep
    obtain ⟨short, hshort, herror⟩ | ⟨taken, hle, hrest, hsame⟩ := hstep
    · cases herror
    obtain ⟨hending', hafter⟩ := h' a (step s).2
    refine ⟨hending'.trans hending, ?_⟩
    rw [hending, hrest] at hafter
    rcases hafter with hcut | ⟨more, hmore, hleft, hsame'⟩
    · exact .inl hcut
    · rw [List.length_drop] at hmore
      refine .inr ⟨taken + more, by omega, hleft.trans (List.drop_drop ..), fun s' hs' => ?_⟩
      obtain ⟨hfirst, hsecond⟩ := prefix_of_take_add hle hs'
      obtain ⟨hresult', hrest'⟩ := hsame s' hfirst
      obtain ⟨hresult'', hrest''⟩ := hsame' (step s').2 (hrest' ▸ hsecond)
      rw [hnext hresult']
      exact ⟨hresult'', hrest''.trans (by rw [hrest', List.drop_drop])⟩

end Reading.Local

namespace Header

open Reading

theorem local_readField (field : HeaderField) : Local (readField field) := by
  intro s
  refine ⟨by rw [readField_apply]; exact Source.ending_collect .., ?_⟩
  rw [readField_apply]
  by_cases h : field.width ≤ s.rest.length
  · refine .inr ⟨field.width, h, Source.rest_collect .., fun s' hs' => ?_⟩
    have hle : field.width ≤ s'.rest.length := by
      have hlen := hs'.length_le
      rwa [List.length_take_of_le h] at hlen
    have hsame : s'.rest.take field.width = s.rest.take field.width := by
      rw [List.prefix_iff_eq_take.1 hs', List.length_take_of_le h]
    rw [readField_apply, if_pos h, if_pos hle, hsame]
    exact ⟨rfl, Source.rest_collect ..⟩
  · rw [if_neg h]
    exact .inl ⟨_, rfl, rfl⟩

theorem local_readDescriptionBytes (room : Nat) : Local (readDescriptionBytes room) := by
  induction room with
  | zero => exact (local_readField _).bind fun _ => .pure []
  | succ room ih =>
    refine (local_readField _).bind fun bs => ?_
    split
    · exact .pure []
    · exact ih.bind fun more => .pure (bs ++ more)

theorem local_readEntry : Local readEntry := by
  refine (local_readField _).bind fun object => ?_
  have hdescription : Local readDescription :=
    (local_readDescriptionBytes _).bind fun bs => .pure (Text.Utf8.decodeLossy bs)
  exact hdescription.bind fun description => .pure (SymbolEntry.mk _ description)

theorem local_readEntries (count : Nat) (table : SymbolTable) : Local (readEntries count table) := by
  induction count generalizing table with
  | zero => exact .pure table
  | succ count ih => exact local_readEntry.bind fun _ => ih _

theorem local_readCount (limit : Nat) : Local (readCount limit) := by
  refine (local_readField _).bind fun bs => ?_
  dsimp only
  split
  · exact .pure _
  · exact .fail _

theorem local_read (limit : Nat) : Local (read limit) := by
  refine (local_readField _).bind fun startTime => ?_
  refine (local_readCount limit).bind fun count => ?_
  exact (local_readEntries count .empty).bind fun symbols => .pure (Header.mk _ symbols)

end Header

/-! ### Bodies -/

namespace Decoder

/-- What stands at the front of a body goes by the bytes that it takes, unless the body ends there or is
cut short. -/
theorem front_of_prefix (capacity : Nat) (ending : Ending) (r : List UInt8) :
    (front capacity ending r).1 = .ok none ∨
    (∃ short : Fault, short.isShort = true ∧
      (front capacity ending r).1 = .error (ending.cut short)) ∨
    ∀ (ending' : Ending) (r' : List UInt8), r.take (front capacity ending r).2 <+: r' →
      front capacity ending' r' = front capacity ending r := by
  unfold front
  by_cases hshort : r.length < 4
  · rw [if_pos hshort]
    by_cases hend : r = [] ∧ ending = .endOfFile
    · exact .inl (if_pos hend)
    · exact .inr (.inl ⟨_, rfl, if_neg hend⟩)
  · have hfour {n : Nat} {r' : List UInt8} (h : r.take (4 + n) <+: r') :
        ¬ r'.length < 4 ∧ r'.take 4 = r.take 4 ∧ (r.drop 4).take n <+: r'.drop 4 := by
      have hlen : (r.take 4).length = 4 := List.length_take_of_le (by omega)
      obtain ⟨hfirst, hmore⟩ := prefix_of_take_add (by omega) h
      have hle := hfirst.length_le
      refine ⟨by omega, ?_, hmore⟩
      rw [List.prefix_iff_eq_take.1 hfirst, hlen]
    rw [if_neg hshort]
    cases hcheck : checkLength capacity (LittleEndian.decodeInt32 (r.take 4)) with
    | error fault =>
      refine .inr (.inr fun ending' r' h => ?_)
      obtain ⟨hlong, htake, -⟩ := hfour (n := 0) h
      rw [if_neg hlong, htake, hcheck]
    | ok count =>
      dsimp only
      by_cases hcut : r.length < 4 + count * RawRecord.size
      · rw [if_pos hcut]
        exact .inr (.inl ⟨_, rfl, rfl⟩)
      · rw [if_neg hcut]
        refine .inr (.inr fun ending' r' h => ?_)
        obtain ⟨hlong, htake, hblock⟩ := hfour h
        have hlen : ((r.drop 4).take (count * RawRecord.size)).length = count * RawRecord.size := by
          rw [List.length_take, List.length_drop]
          omega
        have hle := h.length_le
        rw [List.length_take_of_le (by omega)] at hle
        rw [if_neg hlong, htake, hcheck]
        dsimp only
        rw [if_neg (by omega), List.prefix_iff_eq_take.1 hblock, hlen]

end Decoder

/-- Rows are written between the two states, and none of the calls fails. -/
def Output.Writes (out : Output σ) (s s' : σ) : Prop :=
  ∃ rows : List Row, out.writeAll rows s = (.ok (), s')

/-- Rows are written between the two states, up to the first one that fails; if there is one, its fault is
the result. -/
def Output.WritesUpTo (out : Output σ) (s : σ) (result : Except Fault α) (s' : σ) : Prop :=
  ∃ (rows : List Row) (answer : Except Fault Unit), out.writeAll rows s = (answer, s') ∧
    ∀ fault, answer = .error fault → result = .error fault

namespace Output

variable {out : Output σ} {s s' s'' : σ}

theorem writeAll_append {rows : List Row} (h : out.writeAll rows s = (.ok (), s')) (more : List Row) :
    out.writeAll (rows ++ more) s = out.writeAll more s' := by
  induction rows generalizing s with
  | nil =>
    obtain rfl : s = s' := congrArg Prod.snd h
    rfl
  | cons r rows ih =>
    rw [writeAll] at h
    rw [List.cons_append, writeAll]
    rcases hr : out.row r s with ⟨fault | _, t⟩
    · simp [hr] at h
    · rw [hr] at h
      exact ih h

theorem Writes.refl (s : σ) : out.Writes s s := ⟨[], rfl⟩

theorem Writes.trans (h : out.Writes s s') (h' : out.Writes s' s'') : out.Writes s s'' := by
  obtain ⟨rows, hrows⟩ := h
  obtain ⟨more, hmore⟩ := h'
  exact ⟨rows ++ more, (writeAll_append hrows more).trans hmore⟩

theorem Writes.upTo (h : out.Writes s s') (result : Except Fault α) : out.WritesUpTo s result s' := by
  obtain ⟨rows, hrows⟩ := h
  exact ⟨rows, .ok (), hrows, fun fault hfault => by cases hfault⟩

theorem WritesUpTo.of_ok {a : α} (h : out.WritesUpTo s (.ok a : Except Fault α) s') :
    out.Writes s s' := by
  obtain ⟨rows, answer, hrows, hfails⟩ := h
  cases answer with
  | error fault => cases hfails fault rfl
  | ok _ => exact ⟨rows, hrows⟩

theorem WritesUpTo.of_error {fault : Fault}
    (h : out.WritesUpTo s (.error fault : Except Fault α) s') :
    out.WritesUpTo s (.error fault : Except Fault β) s' := by
  obtain ⟨rows, answer, hrows, hfails⟩ := h
  refine ⟨rows, answer, hrows, fun other hother => ?_⟩
  obtain rfl := Except.error.inj (hfails other hother)
  rfl

theorem Writes.trans_upTo {result : Except Fault α} (h : out.Writes s s')
    (h' : out.WritesUpTo s' result s'') : out.WritesUpTo s result s'' := by
  obtain ⟨rows, hrows⟩ := h
  obtain ⟨more, answer, hmore, hfails⟩ := h'
  exact ⟨rows ++ more, answer, (writeAll_append hrows more).trans hmore, hfails⟩

end Output

namespace Standing

open Decoder

variable {d : Decoder} {out : Output σ} {v v' : Standing σ}

/-- Another decoding that has come equally far, and whose bytes begin with the first ones of this. -/
structure Shares (taken : Nat) (v v' : Standing σ) : Prop where
  prefix_rest : v.rest.take taken <+: v'.rest
  totals_eq : v'.totals = v.totals
  output_eq : v'.output = v.output

/-- A call goes by the bytes that it takes, unless the trace ends there or is cut short. -/
theorem batch_of_prefix (d : Decoder) (out : Output σ) (v : Standing σ) :
    let taken := (front d.capacity v.ending v.rest).2
    (v.batch d out).1 = .ok .endOfTrace ∨
    (∃ short : Fault, short.isShort = true ∧
      v.batch d out = (.error (v.ending.cut short), v.skip taken)) ∨
    ∀ v' : Standing σ, v.Shares taken v' →
      v'.batch d out = ((v.batch d out).1,
        { (v.batch d out).2 with rest := v'.rest.drop taken, ending := v'.ending }) := by
  intro taken
  rcases front_of_prefix d.capacity v.ending v.rest with hnone | ⟨short, hshort, hcut⟩ | hsame
  · have hfront : front d.capacity v.ending v.rest = (.ok none, taken) := Prod.ext hnone rfl
    rw [batch, hfront]
    exact .inl rfl
  · exact .inr (.inl ⟨short, hshort, batch_of_front_error (Prod.ext hcut rfl)⟩)
  · refine .inr (.inr fun v' h => ?_)
    have hfront : front d.capacity v.ending v.rest =
        ((front d.capacity v.ending v.rest).1, taken) := rfl
    have hfront' := hsame v'.ending v'.rest h.prefix_rest
    rw [hfront] at hfront'
    unfold batch
    rw [hfront', hfront, h.totals_eq, h.output_eq]
    rcases (front d.capacity v.ending v.rest).1 with fault | _ | raws
    · simp [skip, h.totals_eq, h.output_eq]
    · simp [skip, h.totals_eq, h.output_eq]
    · dsimp only
      rcases d.writeRows out 0 raws v.output with ⟨fault | _, s⟩
      · simp [skip, h.totals_eq]
      · simp [skip]

theorem writesUpTo_batch (d : Decoder) (out : Output σ) (v : Standing σ) :
    out.WritesUpTo v.output (v.batch d out).1 (v.batch d out).2.output := by
  unfold batch
  rcases front d.capacity v.ending v.rest with ⟨fault | _ | raws, taken⟩
  · exact (Output.Writes.refl _).upTo _
  · exact (Output.Writes.refl _).upTo _
  · dsimp only
    rw [writeRows_eq]
    rcases hrows : out.writeAll (d.rows 0 raws).1 v.output with ⟨fault | _, s⟩
    · exact ⟨_, _, hrows, fun other hother => by rw [Except.error.inj hother]⟩
    · refine ⟨_, .ok (), hrows.trans ?_, fun other hother => by cases hother⟩
      cases verdict (d.rows 0 raws).2 <;> rfl

/-- How a decoding stands to what follows the bytes that it takes: it ends with the trace, or it is cut
short, and then not because a row failed; or the bytes decide it. -/
inductive Course (d : Decoder) (out : Output σ) (v : Standing σ) : Prop
  | ended (totals : Totals) (hok : (v.all d out).1 = .ok totals)
  | cut (short : Fault) (hshort : short.isShort = true)
      (herror : (v.all d out).1 = .error (v.ending.cut short))
      (hwrites : out.Writes v.output (v.all d out).2.output)
  | decided (taken : Nat) (hle : taken ≤ v.rest.length)
      (hrest : (v.all d out).2.rest = v.rest.drop taken)
      (hsame : ∀ v' : Standing σ, v.Shares taken v' → (v'.all d out).1 = (v.all d out).1 ∧
        (v'.all d out).2.output = (v.all d out).2.output ∧
        (v'.all d out).2.rest = v'.rest.drop taken)

theorem writesUpTo_all (d : Decoder) (out : Output σ) (v : Standing σ) :
    out.WritesUpTo v.output (v.all d out).1 (v.all d out).2.output := by
  fun_induction all d out v with
  | case1 v fault v₁ hbatch =>
    have hwrites := writesUpTo_batch d out v
    rw [hbatch] at hwrites
    exact hwrites.of_error
  | case2 v v₁ hbatch =>
    have hwrites := writesUpTo_batch d out v
    rw [hbatch] at hwrites
    exact hwrites.of_ok.upTo _
  | case3 v count v₁ hbatch ih =>
    have hwrites := writesUpTo_batch d out v
    rw [hbatch] at hwrites
    exact hwrites.of_ok.trans_upTo ih

theorem course_all (d : Decoder) (out : Output σ) (v : Standing σ) : v.Course d out := by
  -- along the batches: what a call takes, and what the calls behind it take, add up
  fun_induction all d out v with
  | case1 v fault v₁ hbatch =>
    have hall := all_of_error hbatch
    have hrest := rest_batch d out v
    have hcall := batch_of_prefix d out v
    rw [hbatch] at hrest hcall
    rcases hcall with hend | ⟨short, hshort, hcut⟩ | hsame
    · cases hend
    · obtain ⟨hfault, rfl⟩ := Prod.mk.inj hcut
      obtain rfl := Except.error.inj hfault
      exact .cut short hshort (by rw [hall]) (by rw [hall]; exact .refl _)
    · refine .decided _ (front_le ..) (by rw [hall]; exact hrest) fun v' h => ?_
      rw [hall, all_of_error (hsame v' h)]
      exact ⟨rfl, rfl, rfl⟩
  | case2 v v₁ hbatch => exact .ended v₁.totals (by rw [all_of_endOfTrace hbatch])
  | case3 v count v₁ hbatch ih =>
    have hall := all_of_decoded hbatch
    have hwrites := writesUpTo_batch d out v
    have hending := ending_batch d out v
    have hrest := rest_batch d out v
    have hcall := batch_of_prefix d out v
    rw [hbatch] at hwrites hending hrest hcall
    dsimp only at hending hrest
    cases ih with
    | ended totals hok => exact .ended totals (hall ▸ hok)
    | cut short hshort herror hmore =>
      exact .cut short hshort (by rw [hall, herror, hending]) (hall ▸ hwrites.of_ok.trans hmore)
    | decided more hmore hleft hsame₁ =>
      have hfront := front_le d.capacity v.ending v.rest
      rw [hrest, List.length_drop] at hmore
      rcases hcall with hend | ⟨short, hshort, hcut⟩ | hsame
      · cases hend
      · cases hcut
      · refine .decided ((front d.capacity v.ending v.rest).2 + more) (by omega) ?_ fun v' h => ?_
        · rw [hall, hleft, hrest, List.drop_drop]
        · obtain ⟨hfirst, hsecond⟩ := prefix_of_take_add hfront h.prefix_rest
          rw [← hrest] at hsecond
          obtain ⟨hresult, houtput, hleft'⟩ := hsame₁ { v₁ with
            rest := v'.rest.drop (front d.capacity v.ending v.rest).2
            ending := v'.ending } ⟨hsecond, rfl, rfl⟩
          rw [hall, all_of_decoded (hsame v' ⟨hfirst, h.totals_eq, h.output_eq⟩)]
          exact ⟨hresult, houtput, hleft'.trans (List.drop_drop ..)⟩

end Standing

end ReactorTrace
