import Mathlib.Data.List.Forall2
import ReactorTrace.Proofs.Appending

/-! Two bodies of which two decoders make the same rows. Neither the records nor the decoders need to be the
same, only what is made of every record and how long a batch may be. Then the decodings go the same way step by
step, whatever comes of them and whatever the output does (`Standing.all_of_sameBody`), and so do the
conversions of two streams with these bodies behind headers of one length (`SameCourse.of_stored`). -/

namespace ReactorTrace

variable {σ : Type}

/-! ### Batches -/

namespace Decoder

variable {d d' : Decoder}

/-- The decoders make the same row of their records, or find the same fault, at any place in a batch. -/
def SameRow (d d' : Decoder) (r r' : StoredRecord) : Prop :=
  ∀ index, d.row index r.raw = d'.row index r'.raw

/-- As many records, of which the same rows are made. -/
def SameRows (d d' : Decoder) (b b' : StoredBatch) : Prop :=
  List.Forall₂ (d.SameRow d') b.records b'.records

namespace SameRows

variable {b b' : StoredBatch}

theorem length_eq (h : d.SameRows d' b b') : b.records.length = b'.records.length :=
  List.Forall₂.length_eq h

theorem length_bytes_eq (h : d.SameRows d' b b') : b'.bytes.length = b.bytes.length := by
  rw [b.length_bytes, b'.length_bytes, h.length_eq]

theorem writeRows_eq (h : d.SameRows d' b b') (out : Output σ) (index : Nat) (s : σ) :
    d'.writeRows out index b'.raws s = d.writeRows out index b.raws s := by
  unfold StoredBatch.raws
  unfold SameRows at h
  generalize b.records = records at h
  generalize b'.records = records' at h
  induction h generalizing index s with
  | nil => rfl
  | cons hr hrs ih => simp only [List.map_cons, writeRows, hr index, ih]

/-- Both batches, with anything behind them, are found whole or refused for their length. -/
theorem front_eq (h : d.SameRows d' b b') (capacity : Nat) (ending : Ending) (rest rest' : List UInt8) :
    (∃ fault, front capacity ending (b.bytes ++ rest) = (.error fault, 4) ∧
      front capacity ending (b'.bytes ++ rest') = (.error fault, 4)) ∨
    front capacity ending (b.bytes ++ rest) = (.ok (some b.raws), b.bytes.length) ∧
      front capacity ending (b'.bytes ++ rest') = (.ok (some b'.raws), b'.bytes.length) := by
  by_cases hcap : b.records.length ≤ capacity
  · exact .inr ⟨front_bytes b hcap ending rest, front_bytes b' (h.length_eq ▸ hcap) ending rest'⟩
  · rw [front_long (Nat.not_le.1 hcap), front_long (h.length_eq ▸ Nat.not_le.1 hcap), h.length_eq]
    exact .inl ⟨_, rfl, rfl⟩

end SameRows

/-- Batches of which two decoders make the same rows, and bytes behind them with which both do the same. -/
structure SameBody (d d' : Decoder) (out : Output σ) (batches batches' : List StoredBatch)
    (tail : List UInt8) : Prop where
  capacity_eq : d'.capacity = d.capacity
  batches : List.Forall₂ (d.SameRows d') batches batches'
  tail : ∀ v : Standing σ, v.rest = tail → v.all d' out = v.all d out

end Decoder

/-! ### Decodings -/

namespace Standing

open Decoder

variable {d d' : Decoder} {out : Output σ}

/-- A call does with a batch what the other decoder does with the other batch. -/
theorem batch_of_sameRows {b b' : StoredBatch} (hcap : d'.capacity = d.capacity)
    (h : d.SameRows d' b b') (out : Output σ) {v : Standing σ} {rest : List UInt8}
    (hrest : v.rest = b.bytes ++ rest) (rest' : List UInt8) :
    ∃ taken ≤ b.bytes.length, (v.batch d out).2.rest = (b.bytes ++ rest).drop taken ∧
      { v with rest := b'.bytes ++ rest' }.batch d' out =
        ((v.batch d out).1, { (v.batch d out).2 with rest := (b'.bytes ++ rest').drop taken }) ∧
      ∀ count, (v.batch d out).1 = .ok (.decoded count) → taken = b.bytes.length := by
  have hlen := h.length_bytes_eq
  have hfour : 4 ≤ b.bytes.length := by
    rw [b.length_bytes]
    omega
  unfold batch
  rw [hrest, hcap]
  rcases h.front_eq d.capacity v.ending rest rest' with ⟨fault, hfront, hfront'⟩ | ⟨hfront, hfront'⟩
  · rw [hfront, hfront']
    exact ⟨4, hfour, by simp [skip, hrest], rfl, fun count hok => by cases hok⟩
  · rw [hfront, hfront', hlen]
    refine ⟨b.bytes.length, Nat.le_refl _, ?_, ?_, fun _ _ => rfl⟩
    · dsimp only
      rcases d.writeRows out 0 b.raws v.output with ⟨fault | _, s⟩ <;> simp [skip, hrest]
    · dsimp only
      rw [h.writeRows_eq, b.length_raws, b'.length_raws, h.length_eq]
      rcases d.writeRows out 0 b.raws v.output with ⟨fault | _, s⟩ <;> rfl

/-- Both decodings have the same result, leave the output in the same state and take equally many bytes. -/
theorem all_of_sameBody {batches batches' : List StoredBatch} {tail : List UInt8}
    (h : d.SameBody d' out batches batches' tail) {v : Standing σ}
    (hrest : v.rest = batches.flatMap StoredBatch.bytes ++ tail) :
    let v' : Standing σ := { v with rest := batches'.flatMap StoredBatch.bytes ++ tail }
    (v'.all d' out).1 = (v.all d out).1 ∧ (v'.all d' out).2.output = (v.all d out).2.output ∧
      ∃ taken ≤ v.rest.length, taken ≤ v'.rest.length ∧
        (v.all d out).2.rest = v.rest.drop taken ∧ (v'.all d' out).2.rest = v'.rest.drop taken := by
  obtain ⟨hcap, hbatches, htail⟩ := h
  induction hbatches generalizing v with
  | nil =>
    -- only the same bytes are left
    obtain ⟨taken, hle, htaken⟩ := exists_taken_all d out v
    intro v'
    have hv' : v' = v := by
      show { v with rest := tail } = v
      rw [← show v.rest = tail from hrest]
    rw [hv', htail v hrest]
    exact ⟨rfl, rfl, taken, hle, hle, htaken, htaken⟩
  | @cons b b' batches batches' hb hbatches ih =>
    rw [List.flatMap_cons, List.append_assoc] at hrest ⊢
    intro v'
    have hlen := hb.length_bytes_eq
    have hle : b.bytes.length ≤ v.rest.length := by
      rw [hrest, List.length_append]
      omega
    have hle' : b.bytes.length ≤ v'.rest.length := by
      rw [List.length_append, hlen]
      omega
    obtain ⟨taken, htaken, hleft, hbatch', hwhole⟩ := batch_of_sameRows hcap hb out hrest
      (batches'.flatMap StoredBatch.bytes ++ tail)
    rw [← hrest] at hleft
    rcases hbatch : v.batch d out with ⟨fault | count | _, w⟩
    · rw [hbatch] at hleft hbatch'
      rw [all_of_error hbatch, all_of_error hbatch']
      exact ⟨rfl, rfl, taken, by omega, by omega, hleft, rfl⟩
    · -- both batches are taken whole, so that the rest is again a body of this kind
      rw [hbatch] at hleft hbatch' hwhole
      obtain rfl := hwhole count rfl
      have hw : w.rest = batches.flatMap StoredBatch.bytes ++ tail := by
        rw [← show _ = w.rest from hleft.symm, hrest, List.drop_left]
      rw [← hlen, List.drop_left] at hbatch'
      rw [all_of_decoded hbatch, all_of_decoded hbatch']
      obtain ⟨hresult, houtput, more, hmore, hmore', hend, hend'⟩ := ih hw
      refine ⟨hresult, houtput, b.bytes.length + more, ?_, ?_, ?_, ?_⟩
      · rw [hrest, List.length_append, ← hw]
        omega
      · rw [List.length_append, hlen]
        exact Nat.add_le_add_left hmore' _
      · rw [hend, ← List.drop_drop, ← hleft]
      · rw [hend', ← List.drop_drop, ← hlen, List.drop_left]
    · rw [hbatch] at hleft hbatch'
      rw [all_of_endOfTrace hbatch, all_of_endOfTrace hbatch']
      exact ⟨rfl, rfl, taken, by omega, by omega, hleft, rfl⟩

end Standing

/-! ### Conversions -/

/-- What is reported of a body that ended with these totals. -/
def Header.summary (header : Header) (totals : Totals) : Summary :=
  ⟨header.startTime, header.symbols.size, totals.batches, totals.records⟩

theorem Header.map_summary (header : Header) (body : Except Fault Totals) (flushed : Except Fault Unit) :
    (match body with
      | .error fault => .error fault
      | .ok totals => flushed.map fun _ =>
        ⟨header.startTime, header.symbols.size, totals.batches, totals.records⟩) =
      (body.bind fun totals => flushed.map fun _ => totals).map header.summary := by
  cases body with
  | error fault => rfl
  | ok totals => cases flushed <;> rfl

/-- Conversions of two streams that go the same way behind their headers: they end alike, print each its own
header, leave the output in the same state and take equally many bytes. -/
structure SameCourse (config : Config) (out : Output σ) (source source' : Source) (header header' : Header)
    (s : σ) : Prop where
  result : ∃ ended : Except Fault Totals,
    (convert config out source s).result = ended.map header.summary ∧
    (convert config out source' s).result = ended.map header'.summary
  printed_eq : (convert config out source s).printed = if config.dump then header.dump else ""
  printed_eq' : (convert config out source' s).printed = if config.dump then header'.dump else ""
  output_eq : (convert config out source s).output = (convert config out source' s).output
  taken : ∃ taken ≤ source.rest.length, taken ≤ source'.rest.length ∧
    (convert config out source s).source.rest = source.rest.drop taken ∧
    (convert config out source' s).source.rest = source'.rest.drop taken

/-- Behind a stored header the body begins. -/
theorem StoredHeader.read_body {config : Config} {stored : StoredHeader}
    (hlimit : stored.entries.length ≤ config.maxObjects) {source : Source} {rest : List UInt8}
    (hsource : source.rest = stored.bytes ++ rest) :
    ∃ body, Header.read config.maxObjects source = (.ok stored.header, body) ∧ body.rest = rest ∧
      body.ending = source.ending ∧ ∀ taken ≤ rest.length,
        stored.bytes.length + taken ≤ source.rest.length ∧
          source.rest.drop (stored.bytes.length + taken) = rest.drop taken := by
  obtain ⟨hresult, hrest, hending⟩ := (Header.reads_header stored hlimit).whole source rest hsource
  refine ⟨_, Prod.ext hresult rfl, hrest, hending, fun taken htaken => ?_⟩
  rw [hsource, List.length_append, List.drop_length_add_append]
  exact ⟨Nat.add_le_add_left htaken _, rfl⟩

theorem SameCourse.of_stored {config : Config} {out : Output σ} {stored stored' : StoredHeader}
    (hlimit : stored.entries.length ≤ config.maxObjects)
    (hlimit' : stored'.entries.length ≤ config.maxObjects)
    (hlength : stored'.bytes.length = stored.bytes.length) {batches batches' : List StoredBatch}
    {tail : List UInt8}
    (h : (config.decoder stored.header).SameBody (config.decoder stored'.header) out batches batches' tail)
    {source source' : Source}
    (hsource : source.rest = stored.bytes ++ (batches.flatMap StoredBatch.bytes ++ tail))
    (hsource' : source'.rest = stored'.bytes ++ (batches'.flatMap StoredBatch.bytes ++ tail))
    (hending : source'.ending = source.ending) (s : σ) :
    SameCourse config out source source' stored.header stored'.header s := by
  obtain ⟨body, hread, hrest, hbody, htake⟩ := StoredHeader.read_body hlimit hsource
  obtain ⟨body', hread', hrest', hbody', htake'⟩ := StoredHeader.read_body hlimit' hsource'
  rw [hlength] at htake'
  rcases htitle : out.title s with ⟨fault | _, s'⟩
  · obtain ⟨hle, hdrop⟩ := htake 0 (Nat.zero_le _)
    obtain ⟨hle', hdrop'⟩ := htake' 0 (Nat.zero_le _)
    have hconvert := convert_of_title_error hread htitle
    have hconvert' := convert_of_title_error hread' htitle
    refine ⟨⟨.error fault, ?_, ?_⟩, ?_, ?_, ?_, _, hle, hle', ?_, ?_⟩
    · rw [hconvert, Except.map]
    · rw [hconvert', Except.map]
    · rw [hconvert]
    · rw [hconvert']
    · rw [hconvert, hconvert']
    · rw [hconvert, hdrop]
      exact hrest
    · rw [hconvert', hdrop']
      exact hrest'
  · obtain ⟨hresult, hprinted, hleft, houtput⟩ := convert_of_title_ok hread htitle
    obtain ⟨hresult', hprinted', hleft', houtput'⟩ := convert_of_title_ok hread' htitle
    rw [hrest, hbody] at hresult hleft houtput
    rw [hrest', hbody', hending] at hresult' hleft' houtput'
    obtain ⟨hall, hstate, taken, htaken, htaken', hend, hend'⟩ := Standing.all_of_sameBody h
      (v := ⟨_, source.ending, ⟨0, 0⟩, s'⟩) rfl
    dsimp only at hall hstate hend hend'
    obtain ⟨hle, hdrop⟩ := htake taken htaken
    obtain ⟨hle', hdrop'⟩ := htake' taken htaken'
    rw [hall, hstate] at hresult'
    rw [hstate] at houtput'
    exact ⟨⟨_, hresult.trans (Header.map_summary ..), hresult'.trans (Header.map_summary ..)⟩, hprinted,
      hprinted', houtput.trans houtput'.symm, _, hle, hle', hleft.trans (hend.trans hdrop.symm),
      hleft'.trans (hend'.trans hdrop'.symm)⟩

end ReactorTrace
