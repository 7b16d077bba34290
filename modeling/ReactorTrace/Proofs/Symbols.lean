import ReactorTrace.SymbolTable

/-! Lookups in the object table. The index holds the position of the first entry of each identity
(`Indexed`), and inserting keeps it so. A lookup in a table made from entries therefore gives the
description of the first entry with that identity, whatever the room that the table was made with
(`insertAll_first`). -/

namespace ReactorTrace.SymbolTable

/-- The index finds the first entry of every identity. -/
def Indexed (table : SymbolTable) : Prop :=
  ∀ object, table.index[object]? = table.toList.findIdx? fun entry => entry.object = object

theorem indexed_empty : empty.Indexed := fun _ => Std.HashMap.getElem?_empty

theorem Indexed.insert {table : SymbolTable} (h : table.Indexed) (object : ObjectId)
    (description : String) : (table.insert object description).Indexed := by
  intro sought
  have hsize : table.entries.size = table.toList.length := Array.length_toList.symm
  have hindex : (table.insert object description).index =
      table.index.insertIfNew object table.entries.size := rfl
  rw [toList_insert, hindex, Std.HashMap.getElem?_insertIfNew, List.findIdx?_append,
    List.findIdx?_singleton, ← h sought, hsize]
  by_cases heq : object = sought
  · subst heq
    by_cases hmem : object ∈ table.index
    · -- the identity has an entry already, and keeps it
      have hsome := Std.HashMap.getElem?_eq_some_getElem hmem
      rw [if_neg fun hnew => hnew.2 hmem, hsome, Option.some_or]
    · simp [hmem]
  · simp [heq]

/-- Entries are inserted in their order. -/
def insertAll (table : SymbolTable) (entries : List SymbolEntry) : SymbolTable :=
  entries.foldl (fun table entry => table.insert entry.object entry.description) table

theorem Indexed.insertAll {table : SymbolTable} (h : table.Indexed) (entries : List SymbolEntry) :
    (table.insertAll entries).Indexed := by
  induction entries generalizing table with
  | nil => exact h
  | cons entry entries ih => exact ih (h.insert entry.object entry.description)

@[simp] theorem toList_insertAll (table : SymbolTable) (entries : List SymbolEntry) :
    (table.insertAll entries).toList = table.toList ++ entries := by
  induction entries generalizing table with
  | nil => exact (List.append_nil _).symm
  | cons entry entries ih =>
    have hrest := ih (table.insert entry.object entry.description)
    rwa [toList_insert, List.append_assoc, List.singleton_append] at hrest

theorem indexed_ofList (entries : List SymbolEntry) : (ofList entries).Indexed :=
  indexed_empty.insertAll entries

@[simp] theorem toList_ofList (entries : List SymbolEntry) : (ofList entries).toList = entries :=
  empty.toList_insertAll entries

theorem size_eq (table : SymbolTable) : table.size = table.toList.length := Array.length_toList.symm

theorem size_ofList (entries : List SymbolEntry) : (ofList entries).size = entries.length := by
  rw [size_eq, toList_ofList]

theorem getElem?_entries (table : SymbolTable) (position : Nat) :
    table.entries[position]? = table.toList[position]? := (Array.getElem?_toList ..).symm

/-- A lookup gives the first description, whether or not the identity is repeated. -/
theorem Indexed.get?_eq {table : SymbolTable} (h : table.Indexed) (object : ObjectId) :
    table.get? object =
      (table.toList.find? fun entry => entry.object = object).map SymbolEntry.description := by
  rw [get?, h object]
  simp only [getElem?_entries]
  rw [List.find?_eq_bind_findIdx?_getElem?, Option.map_bind]
  rfl

theorem get?_ofList (entries : List SymbolEntry) (object : ObjectId) :
    (ofList entries).get? object =
      (entries.find? fun entry => entry.object = object).map SymbolEntry.description := by
  rw [(indexed_ofList entries).get?_eq, toList_ofList]

/-! ### Insertions in a row -/

/-- The tables without entries, however much room they have. -/
inductive Fresh : SymbolTable → Prop
  | empty : Fresh .empty
  | withCapacity (capacity : Nat) : Fresh (.withCapacity capacity)

theorem Fresh.indexed {table : SymbolTable} (h : table.Fresh) : table.Indexed := by
  cases h with
  | empty => exact indexed_empty
  | withCapacity capacity => exact fun _ => Std.HashMap.getElem?_emptyWithCapacity

theorem Fresh.toList_eq {table : SymbolTable} (h : table.Fresh) : table.toList = [] := by
  cases h with
  | empty => exact toList_empty
  | withCapacity capacity => exact toList_withCapacity capacity

theorem Fresh.toList_insertAll {start : SymbolTable} (h : start.Fresh) (entries : List SymbolEntry) :
    (start.insertAll entries).toList = entries := by
  rw [SymbolTable.toList_insertAll, h.toList_eq, List.nil_append]

/-- What is found at a stored position. -/
theorem Indexed.exists_entry {table : SymbolTable} (h : table.Indexed) {object : ObjectId}
    {position : Nat} (hposition : table.index[object]? = some position) :
    ∃ entry, table.entries[position]? = some entry ∧ entry.object = object ∧
      table.get? object = some entry.description := by
  have hfound := hposition
  rw [h object, List.findIdx?_eq_some_iff_getElem] at hfound
  obtain ⟨hlt, hobject, -⟩ := hfound
  have hentry : table.entries[position]? = some table.toList[position] := by
    rw [getElem?_entries, List.getElem?_eq_getElem hlt]
  refine ⟨_, hentry, by simpa using hobject, ?_⟩
  rw [get?, hposition, Option.bind_some, hentry]
  rfl

/-- Entries with identities of their own are found in any order. -/
theorem find?_perm {entries other : List SymbolEntry} (h : entries.Perm other)
    (hnodup : (entries.map SymbolEntry.object).Nodup) (object : ObjectId) :
    (entries.find? fun entry => entry.object = object) =
      other.find? fun entry => entry.object = object := by
  induction h with
  | nil => rfl
  | cons entry h ih =>
    rw [List.map_cons, List.nodup_cons] at hnodup
    rw [List.find?_cons, List.find?_cons, ih hnodup.2]
  | swap entry entry' entries =>
    rw [List.map_cons, List.map_cons, List.nodup_cons, List.mem_cons, not_or] at hnodup
    have hne : entry'.object ≠ entry.object := hnodup.1.1
    simp only [List.find?_cons]
    by_cases hfirst : entry.object = object
    · have hsecond : entry'.object ≠ object := fun heq => hne (heq.trans hfirst.symm)
      simp [hfirst, hsecond]
    · simp [hfirst]
  | trans h₁ h₂ ih₁ ih₂ => exact (ih₁ hnodup).trans (ih₂ ((h₁.map _).nodup_iff.1 hnodup))

/-- A table answers like a search through what was inserted, from the front. Every position in its index
is that of an entry with the identity sought. Later entries change no answer, and neither does the order
of entries whose identities are all different. -/
theorem insertAll_first {start : SymbolTable} (hstart : start.Fresh) (entries : List SymbolEntry) :
    let table := start.insertAll entries
    let first := fun object => entries.find? fun entry => entry.object = object
    (∀ object position, table.index[object]? = some position →
      ∃ entry, table.entries[position]? = some entry ∧ entry.object = object ∧
        table.get? object = some entry.description) ∧
    (∀ object, table.get? object = (first object).map SymbolEntry.description) ∧
    (∀ object, table.describe object =
      match first object with
      | some entry => entry.description
      | none => noDescription) ∧
    table.size = entries.length ∧
    table.dump = dumpTitle ++ String.join (entries.map SymbolEntry.line) ++ dumpEnd ∧
    (∀ later object description, table.get? object = some description →
      (table.insertAll later).get? object = some description) ∧
    ∀ other : List SymbolEntry, (entries.map SymbolEntry.object).Nodup → entries.Perm other →
      ∀ object, (start.insertAll other).get? object = table.get? object := by
  intro table first
  have hget : ∀ list object, (start.insertAll list).get? object =
      (list.find? fun entry => entry.object = object).map SymbolEntry.description := by
    intro list object
    rw [(hstart.indexed.insertAll list).get?_eq, hstart.toList_insertAll]
  have hindexed := hstart.indexed.insertAll entries
  have hlist := hstart.toList_insertAll entries
  refine ⟨fun object position h => hindexed.exists_entry h, hget entries, ?_, ?_, ?_, ?_, ?_⟩
  · intro object
    rw [describe, hget]
    change ((first object).map SymbolEntry.description).getD noDescription = _
    cases first object <;> rfl
  · rw [size_eq, hlist]
  · rw [dump, hlist]
  · intro later object description hfound
    have happend : table.insertAll later = start.insertAll (entries ++ later) :=
      List.foldl_append.symm
    rw [hget, Option.map_eq_some_iff] at hfound
    obtain ⟨entry, hentry, rfl⟩ := hfound
    rw [happend, hget, List.find?_append, hentry]
    rfl
  · intro other hnodup hperm object
    rw [hget, hget, find?_perm hperm hnodup]

/-- Two objects in a table made for one, in both orders, and then a second description of the first of
them. -/
theorem insertAll_first_described_again :
    let start := withCapacity 1
    let entries : List SymbolEntry := [⟨⟨7⟩, "first"⟩, ⟨⟨9⟩, "other"⟩]
    start.Fresh ∧ (entries.map SymbolEntry.object).Nodup ∧ entries.Perm entries.reverse ∧
      (start.insertAll entries.reverse).get? ⟨7⟩ = some "first" ∧
      ((start.insertAll entries).insertAll [⟨⟨7⟩, "second"⟩]).get? ⟨7⟩ = some "first" ∧
      (start.insertAll entries).describe ⟨8⟩ = "NO DESCRIPTION FOUND" := by
  intro start entries
  have hstart : start.Fresh := .withCapacity 1
  have hnodup : (entries.map SymbolEntry.object).Nodup := by decide
  have hperm : entries.Perm entries.reverse := (List.reverse_perm entries).symm
  obtain ⟨-, hget, hdescribe, -, -, hlater, hother⟩ := insertAll_first hstart entries
  have hfirst : (start.insertAll entries).get? ⟨7⟩ = some "first" := hget ⟨7⟩
  exact ⟨hstart, hnodup, hperm, (hother _ hnodup hperm ⟨7⟩).trans hfirst, hlater _ _ _ hfirst,
    hdescribe ⟨8⟩⟩

end ReactorTrace.SymbolTable
