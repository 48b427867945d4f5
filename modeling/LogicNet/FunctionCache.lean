import LogicNet.TruthTable

/-! # Function cache

An append-only store of truth tables.  A function and its complement share one entry, the one of
the two that is false on row 0, so a literal is an entry and a polarity.  The same store can be kept in
columns, with an index that finds the entry of a table without a search.
-/

namespace LogicNet

/-- A cached function: an entry and whether its complement is meant. -/
structure FunctionLiteral where
  index : Nat
  complemented : Bool
deriving Repr, DecidableEq, Inhabited

namespace FunctionLiteral

/-- Entries are numbered in steps of two; the lowest bit is the polarity. -/
def code (l : FunctionLiteral) : Nat := 2 * l.index + l.complemented.toNat

def ofCode (n : Nat) : FunctionLiteral := ⟨n / 2, n % 2 == 1⟩

/-- Literals of functions in the cache that every network of table gates starts with. -/
def identity : FunctionLiteral := ⟨1, false⟩

def inverter : FunctionLiteral := ⟨1, true⟩

def conjunction : FunctionLiteral := ⟨2, false⟩

end FunctionLiteral

/-- A table that is false on row 0, with its symmetry. -/
structure CachedFunction where
  table : TruthTable
  symmetric : Bool
deriving Repr, DecidableEq

structure FunctionCache where
  entries : List CachedFunction
deriving Repr, DecidableEq

namespace FunctionCache

def empty : FunctionCache := ⟨[]⟩

def size (c : FunctionCache) : Nat := c.entries.length

/-- The literal of a table, and the cache that holds it. -/
def insert (c : FunctionCache) (t : TruthTable) : FunctionLiteral × FunctionCache :=
  let flip := t.bit 0
  let normal := t.complementIf flip
  match c.entries.findIdx? (·.table == normal) with
  | some i => (⟨i, flip⟩, c)
  | none => (⟨c.size, flip⟩, ⟨c.entries ++ [⟨normal, normal.isSymmetric⟩]⟩)

def entry (c : FunctionCache) (l : FunctionLiteral) : Except Fault CachedFunction :=
  match c.entries[l.index]? with
  | some e => .ok e
  | none => .error (.unknownFunction l.code)

def get (c : FunctionCache) (l : FunctionLiteral) : Except Fault TruthTable :=
  return (← c.entry l).table.complementIf l.complemented

def isSymmetric (c : FunctionCache) (l : FunctionLiteral) : Except Fault Bool :=
  return (← c.entry l).symmetric

/-- The cache with the false constant, the identity and the two-input conjunction. -/
def seeded : FunctionCache :=
  [TruthTable.const 0 false, TruthTable.var 1 0, TruthTable.word 2 0x8].foldl
    (fun c t => (c.insert t).2) empty

theorem get_seeded :
    seeded.get .identity = .ok (TruthTable.var 1 0)
      ∧ seeded.get .inverter = .ok (TruthTable.var 1 0).complement
      ∧ seeded.get .conjunction = .ok (TruthTable.word 2 0x8) :=
  ⟨rfl, rfl, rfl⟩

end FunctionCache

/-- A function cache in columns: the tables, which of them are symmetric, and the entry of each table. -/
structure FunctionColumns where
  tables : List TruthTable
  symmetric : List Bool
  index : List (TruthTable × Nat)
deriving Repr, DecidableEq

namespace FunctionColumns

def empty : FunctionColumns := ⟨[], [], []⟩

/-- The literal of a table, and the columns that hold it. -/
def insert (d : FunctionColumns) (t : TruthTable) : FunctionLiteral × FunctionColumns :=
  let flip := t.bit 0
  let normal := t.complementIf flip
  match d.index.lookup normal with
  | some i => (⟨i, flip⟩, d)
  | none =>
    (⟨d.tables.length, flip⟩,
      { tables := d.tables ++ [normal]
        symmetric := d.symmetric ++ [normal.isSymmetricByRows]
        index := (normal, d.tables.length) :: d.index })

def get (d : FunctionColumns) (l : FunctionLiteral) : Except Fault TruthTable :=
  match d.tables[l.index]? with
  | some t => .ok (t.complementIf l.complemented)
  | none => .error (.unknownFunction l.code)

def isSymmetric (d : FunctionColumns) (l : FunctionLiteral) : Except Fault Bool :=
  match d.symmetric[l.index]? with
  | some b => .ok b
  | none => .error (.unknownFunction l.code)

/-- The columns after tables were inserted one after the other. -/
def ofTables (tables : List TruthTable) : FunctionColumns :=
  tables.foldl (fun d t => (d.insert t).2) empty

end FunctionColumns

end LogicNet
