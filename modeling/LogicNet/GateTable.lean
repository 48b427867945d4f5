import LogicNet.Gate

/-! # Structural hash table

A finite map from gate keys to signals, with at most one entry per key.  The entries are kept in
buckets by the highest fanin node of their keys, which few gates share.  Only the reading `get?` is
observable; the lemmas give the reading after each operation.
-/

namespace LogicNet

/-- Number of the bucket that a key belongs to. -/
def GateKey.bucket (key : GateKey) : Nat := key.fanins.foldl (fun n s => max n s.node) 0

structure GateTable where
  buckets : Array (List (GateKey × Signal))
deriving Repr, DecidableEq

namespace GateTable

def empty : GateTable := ⟨#[]⟩

def bucket (t : GateTable) (i : Nat) : List (GateKey × Signal) := t.buckets.getD i []

def setBucket (t : GateTable) (i : Nat) (entries : List (GateKey × Signal)) : GateTable :=
  ⟨(t.buckets ++ Array.replicate (i + 1 - t.buckets.size) []).setIfInBounds i entries⟩

def get? (t : GateTable) (key : GateKey) : Option Signal :=
  ((t.bucket key.bucket).find? (·.1 = key)).map (·.2)

def erase (t : GateTable) (key : GateKey) : GateTable :=
  t.setBucket key.bucket ((t.bucket key.bucket).filter (·.1 ≠ key))

/-- Maps the key to the signal, whatever it was mapped to before. -/
def insert (t : GateTable) (key : GateKey) (s : Signal) : GateTable :=
  t.setBucket key.bucket ((key, s) :: (t.bucket key.bucket).filter (·.1 ≠ key))

@[simp] theorem bucket_setBucket (t : GateTable) (i j : Nat) (entries : List (GateKey × Signal)) :
    (t.setBucket i entries).bucket j = if i = j then entries else t.bucket j := by
  simp only [bucket, setBucket, Array.getD_eq_getD_getElem?, Array.getElem?_setIfInBounds]
  grind

@[simp] theorem get?_empty (key : GateKey) : empty.get? key = none := by
  simp [empty, get?, bucket]

theorem find?_filter_ne (entries : List (GateKey × Signal)) (key k : GateKey) :
    (entries.filter (·.1 ≠ key)).find? (·.1 = k)
      = if k = key then none else entries.find? (·.1 = k) := by
  rw [List.find?_filter]
  split
  · subst ‹k = key›
    simp [List.find?_eq_none]
  · congr 1
    funext e
    by_cases h : e.1 = k <;> simp_all

@[simp] theorem get?_erase (t : GateTable) (key k : GateKey) :
    (t.erase key).get? k = if k = key then none else t.get? k := by
  unfold erase get?
  rw [bucket_setBucket]
  split
  · rw [find?_filter_ne, ← ‹key.bucket = k.bucket›]
    split <;> rfl
  · rw [if_neg]
    rintro rfl
    contradiction

@[simp] theorem get?_insert (t : GateTable) (key k : GateKey) (s : Signal) :
    (t.insert key s).get? k = if k = key then some s else t.get? k := by
  unfold insert get?
  rw [bucket_setBucket]
  split
  · rw [List.find?_cons, find?_filter_ne, ← ‹key.bucket = k.bucket›]
    by_cases hk : k = key
    · simp [hk]
    · simp [hk, Ne.symm hk]
  · rw [if_neg]
    rintro rfl
    contradiction

end GateTable

end LogicNet
