/-! # Dictionaries

A dictionary is a list of entries in the order of their keys, one entry per key.

* `find?_insert_self`, `find?_insert_of_ne`: what is found after an insertion.
* `find?_erase_self`, `find?_erase_of_ne`: what is found after a removal. -/

namespace WorldScript

/-- Values by text keys, in key order. -/
structure Dict (α : Type) where
  entries : List (String × α)
  deriving DecidableEq

namespace Dict

variable {α β : Type}

instance : Inhabited (Dict α) := ⟨⟨[]⟩⟩

/-- No entries. -/
def empty : Dict α := ⟨[]⟩

/-- The value of a key. -/
def find? (d : Dict α) (key : String) : Option α := d.entries.lookup key

/-- The key has a value. -/
def contains (d : Dict α) (key : String) : Bool := (d.find? key).isSome

/-- The entries with one more, in its place or instead of the entry with the same key. -/
def insertEntry (key : String) (value : α) : List (String × α) → List (String × α)
  | [] => [(key, value)]
  | (k, v) :: rest =>
    if key < k then (key, value) :: (k, v) :: rest
    else if key = k then (key, value) :: rest
    else (k, v) :: insertEntry key value rest

/-- The dictionary with a value for the key. -/
def insert (d : Dict α) (key : String) (value : α) : Dict α := ⟨insertEntry key value d.entries⟩

/-- The dictionary without the key. -/
def erase (d : Dict α) (key : String) : Dict α := ⟨d.entries.filter (·.1 ≠ key)⟩

/-- The keys in order. -/
def keys (d : Dict α) : List String := d.entries.map (·.1)

/-- The number of entries. -/
def size (d : Dict α) : Nat := d.entries.length

/-- The dictionary of a list of entries, a later one winning over an earlier one. -/
def ofList (entries : List (String × α)) : Dict α :=
  entries.foldl (fun d (k, v) => d.insert k v) empty

/-- The entries of `top` put on top of those of `d`. -/
def override (d top : Dict α) : Dict α := top.entries.foldr (fun (k, v) d => d.insert k v) d

/-! ### Laws -/

theorem find?_insert_self (d : Dict α) (key : String) (value : α) :
    (d.insert key value).find? key = some value := by
  obtain ⟨es⟩ := d
  simp only [insert, find?]
  induction es with
  | nil => simp [insertEntry]
  | cons e es ih =>
    obtain ⟨k, v⟩ := e
    simp only [insertEntry]
    split
    · simp
    · split
      · simp
      · rename_i h
        have : (key == k) = false := by simpa using h
        rw [List.lookup_cons, this]
        exact ih

theorem find?_insert_of_ne (d : Dict α) {key other : String} (value : α) (h : other ≠ key) :
    (d.insert key value).find? other = d.find? other := by
  obtain ⟨es⟩ := d
  simp only [insert, find?]
  have hk : (other == key) = false := by simpa using h
  induction es with
  | nil => simp [insertEntry, List.lookup_cons, hk]
  | cons e es ih =>
    obtain ⟨k, v⟩ := e
    simp only [insertEntry]
    split
    · rw [List.lookup_cons, hk]
    · split
      · rename_i hkk
        subst hkk
        rw [List.lookup_cons, hk, List.lookup_cons, hk]
      · rw [List.lookup_cons, List.lookup_cons, ih]

theorem find?_erase_self (d : Dict α) (key : String) : (d.erase key).find? key = none := by
  obtain ⟨es⟩ := d
  simp only [erase, find?, List.lookup_eq_none_iff]
  intro p hp
  have : p.1 ≠ key := by simpa using (List.mem_filter.1 hp).2
  simpa using this.symm

theorem find?_erase_of_ne (d : Dict α) {key other : String} (h : other ≠ key) :
    (d.erase key).find? other = d.find? other := by
  obtain ⟨es⟩ := d
  simp only [erase, find?]
  induction es with
  | nil => rfl
  | cons e es ih =>
    obtain ⟨k, v⟩ := e
    by_cases hk : k = key
    · subst hk
      have : (other == k) = false := by simpa using h
      rw [List.filter_cons_of_neg (by simp), ih, List.lookup_cons, this]
    · rw [List.filter_cons_of_pos (by simpa using hk), List.lookup_cons, List.lookup_cons, ih]

end Dict

end WorldScript
