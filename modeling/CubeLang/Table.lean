/-!
# Tables in order of insertion

A finite map that remembers the order in which its keys came. Writing to a key that is there keeps
its place; a key that was erased comes back at the end.
-/

set_option autoImplicit false

namespace CubeLang

/-- A finite map from `κ` to `ν` whose entries stand in order of insertion. -/
structure Table (κ ν : Type) where
  entries : List (κ × ν) := []

namespace Table

variable {κ ν : Type} [DecidableEq κ]

instance : EmptyCollection (Table κ ν) := ⟨⟨[]⟩⟩

/-- The value at a key. -/
def get? (t : Table κ ν) (k : κ) : Option ν :=
  (t.entries.find? fun e => e.1 = k).map Prod.snd

/-- Whether there is a value at a key. -/
def contains (t : Table κ ν) (k : κ) : Bool :=
  (t.get? k).isSome

/-- The keys in order of insertion. -/
def keys (t : Table κ ν) : List κ :=
  t.entries.map Prod.fst

/-- Writes a value in the place of the first entry for the key, else at the end. -/
def putEntry (k : κ) (v : ν) : List (κ × ν) → List (κ × ν)
  | [] => [(k, v)]
  | e :: es => if e.1 = k then (k, v) :: es else e :: putEntry k v es

/-- The table with a value written at a key. -/
def put (t : Table κ ν) (k : κ) (v : ν) : Table κ ν :=
  ⟨putEntry k v t.entries⟩

/-- The table without a key. -/
def erase (t : Table κ ν) (k : κ) : Table κ ν :=
  ⟨t.entries.filter fun e => e.1 ≠ k⟩

/-- The table that the pairs of a list are written to, one after the other. -/
def putAll (t : Table κ ν) (pairs : List (κ × ν)) : Table κ ν :=
  pairs.foldl (fun t e => t.put e.1 e.2) t

@[simp] theorem get?_empty (k : κ) : (∅ : Table κ ν).get? k = none := rfl

/-- A key holds what was last written to it, and every other key what it held before. -/
@[simp] theorem get?_put (t : Table κ ν) (k k' : κ) (v : ν) :
    (t.put k v).get? k' = if k = k' then some v else t.get? k' := by
  obtain ⟨es⟩ := t
  simp only [put, get?]
  induction es with
  | nil => by_cases h : k = k' <;> simp [putEntry, h]
  | cons e es ih =>
    by_cases he : e.1 = k
    · subst he
      by_cases h : e.1 = k' <;> simp [putEntry, h]
    · by_cases h : k = k'
      · subst h
        simpa [putEntry, he] using ih
      · by_cases h' : e.1 = k'
        · subst h'
          simp [putEntry, he, h]
        · simpa [putEntry, he, h, h'] using ih

/-- An erased key holds nothing, and every other key what it held before. -/
@[simp] theorem get?_erase (t : Table κ ν) (k k' : κ) :
    (t.erase k).get? k' = if k = k' then none else t.get? k' := by
  obtain ⟨es⟩ := t
  simp only [erase, get?]
  induction es with
  | nil => simp
  | cons e es ih =>
    by_cases he : e.1 = k
    · by_cases h : k = k'
      · subst h
        simp [he]
      · have : e.1 ≠ k' := fun h' => h (he.symm.trans h')
        simpa [he, h, this] using ih
    · by_cases h : k = k'
      · subst h
        simp [he]
      · by_cases h' : e.1 = k'
        · subst h'
          simp [he, h]
        · simpa [he, h, h'] using ih

theorem contains_iff_mem_keys {t : Table κ ν} {k : κ} : t.contains k = true ↔ k ∈ t.keys := by
  simp [contains, get?, keys]

end Table

end CubeLang
