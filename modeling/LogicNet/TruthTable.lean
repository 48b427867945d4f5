import LogicNet.Fault

/-! # Truth tables

A truth table lists the values of a Boolean function on all assignments of its variables.  Row `i`
is the assignment that gives variable `j` bit `j` of `i`.  `isSymmetric_iff` says which tables are
symmetric, and `isSymmetricByRows_eq` that going through the rows finds the same tables.
-/

namespace LogicNet

structure TruthTable where
  numVars : Nat
  rows : BitVec (2 ^ numVars)
deriving DecidableEq, Repr

namespace TruthTable

/-- A row is addressed by a machine word that has three bits to spare, which bounds the number of
variables. -/
def maxVars : Nat := 60

/-- A word holds the rows of a table over this many variables. -/
def maxWordVars : Nat := 6

def numRows (t : TruthTable) : Nat := 2 ^ t.numVars

/-- The value on row `i`, false past the last row. -/
def bit (t : TruthTable) (i : Nat) : Bool := t.rows.getLsbD i

/-- The values of `f` on the rows over `n` variables, split at the highest variable. -/
def rowsOfFn : (n : Nat) → (Nat → Bool) → BitVec (2 ^ n)
  | 0, f => BitVec.ofBool (f 0)
  | n + 1, f =>
    (rowsOfFn n (fun i => f (2 ^ n + i)) ++ rowsOfFn n f).cast (by rw [Nat.pow_succ]; omega)

/-- The table over `n` variables with the value `f i` on row `i`. -/
def ofFn (n : Nat) (f : Nat → Bool) : TruthTable := ⟨n, rowsOfFn n f⟩

/-- The lowest `k` bits of a number, in front of a list. -/
def lowBits (x : Nat) : Nat → List Bool → List Bool
  | 0, rest => rest
  | k + 1, rest => lowBits x k (x.testBit k :: rest)

/-- The bits of rows over `n` variables, in front of a list.  Rows over more than five variables are
split at the highest one, as it takes long to read a bit of a large number. -/
def bitsBefore : (n : Nat) → BitVec (2 ^ n) → List Bool → List Bool
  | 0, x, rest => lowBits x.toNat 1 rest
  | n + 1, x, rest =>
    if n < 5 then lowBits x.toNat (2 ^ (n + 1)) rest
    else bitsBefore n (x.setWidth (2 ^ n)) (bitsBefore n (x.extractLsb' (2 ^ n) (2 ^ n)) rest)

def toList (t : TruthTable) : List Bool := bitsBefore t.numVars t.rows []

/-- The table over `n` variables with given values on the rows, and false on the rest of them. -/
def ofList (n : Nat) (values : List Bool) : TruthTable :=
  let values := values.toArray
  ofFn n (values.getD · false)

def const (n : Nat) (value : Bool) : TruthTable :=
  ⟨n, if value then BitVec.allOnes _ else 0#_⟩

/-- The values of variable `j` on the rows over `n` variables. -/
def rowsOfVar : (n : Nat) → Nat → BitVec (2 ^ n)
  | 0, _ => 0#_
  | n + 1, j =>
    if j = n then (BitVec.allOnes (2 ^ n) ++ 0#(2 ^ n)).cast (by rw [Nat.pow_succ]; omega)
    else
      let half := rowsOfVar n j
      (half ++ half).cast (by rw [Nat.pow_succ]; omega)

def var (n j : Nat) : TruthTable := ⟨n, rowsOfVar n j⟩

def word (n : Nat) (w : BitVec 64) : TruthTable := ofFn n w.getLsbD

/-- The constant table over `n` variables, if its rows can be numbered. -/
def checkedConst (n : Nat) (value : Bool) : Except Fault TruthTable :=
  if n ≤ maxVars then .ok (const n value) else .error (.tooManyVariables n maxVars)

/-- The projection onto variable `j`, if there is such a variable. -/
def checkedVar (n j : Nat) : Except Fault TruthTable :=
  if n ≤ j then .error (.indexOutOfRange j n)
  else if n ≤ maxVars then .ok (var n j)
  else .error (.tooManyVariables n maxVars)

/-- The table of a word, if the word has a bit for every row. -/
def checkedWord (n : Nat) (w : BitVec 64) : Except Fault TruthTable :=
  if n ≤ maxWordVars then .ok (word n w) else .error (.tooManyVariables n maxWordVars)

def row (t : TruthTable) (i : Nat) : Except Fault Bool :=
  if i < t.numRows then .ok (t.bit i) else .error (.indexOutOfRange i t.numRows)

def setRow (t : TruthTable) (i : Nat) (value : Bool) : Except Fault TruthTable :=
  if i < t.numRows then
    .ok { t with
      rows := if value then t.rows ||| BitVec.twoPow _ i else t.rows &&& ~~~BitVec.twoPow _ i }
  else .error (.indexOutOfRange i t.numRows)

def complement (t : TruthTable) : TruthTable := { t with rows := ~~~t.rows }

def complementIf (t : TruthTable) (flip : Bool) : TruthTable := if flip then t.complement else t

/-- Combines two tables over the same variables row by row. -/
def zipWith (f : {w : Nat} → BitVec w → BitVec w → BitVec w) (s t : TruthTable) :
    Except Fault TruthTable :=
  if h : t.numVars = s.numVars then .ok ⟨s.numVars, f s.rows (t.rows.cast (by rw [h]))⟩
  else .error (.widthMismatch s.numVars t.numVars)

def and (s t : TruthTable) : Except Fault TruthTable := zipWith (· &&& ·) s t

def or (s t : TruthTable) : Except Fault TruthTable := zipWith (· ||| ·) s t

def xor (s t : TruthTable) : Except Fault TruthTable := zipWith (· ^^^ ·) s t

def countOnes (t : TruthTable) : Nat := t.toList.countP id

def isConstFalse (t : TruthTable) : Bool := t.rows == 0#_

def weight (n row : Nat) : Nat := (List.range n).countP row.testBit

/-- The rows over `n` variables whose values follow from the number of true variables.  In member
`k`, a row with `w` true variables has the given value number `k + w`. -/
def rowsByWeight : (n : Nat) → List Bool → List (BitVec (2 ^ n))
  | 0, values => values.map BitVec.ofBool
  | n + 1, values =>
    let halves := rowsByWeight n values
    halves.zipWith (fun low high => (high ++ low).cast (by rw [Nat.pow_succ]; omega)) halves.tail

/-- Whether the value depends on the number of true variables alone.  The rows whose true variables
come first tell which values those would be. -/
def isSymmetric (t : TruthTable) : Bool :=
  let values := (List.range (t.numVars + 1)).map fun w => t.bit (2 ^ w - 1)
  (rowsByWeight t.numVars values).head? == some t.rows

/-- Puts the value of row `i` into the slot for the weight of the row, unless the slot holds the other
value. -/
def noteRow (t : TruthTable) (slots : Array (Option Bool)) (i : Nat) : Option (Array (Option Bool)) :=
  let w := weight t.numVars i
  if (slots.getD w none).any (· != t.bit i) then none
  else some (slots.setIfInBounds w (some (t.bit i)))

/-- The test for symmetry row by row, which keeps the value seen last for each weight. -/
def isSymmetricByRows (t : TruthTable) : Bool :=
  ((List.range t.numRows).foldlM t.noteRow (Array.replicate (t.numVars + 1) none)).isSome

def toWord (t : TruthTable) : BitVec 64 := t.rows.setWidth 64

/-- One digit per row, the highest row first. -/
def text (t : TruthTable) : String :=
  String.ofList (t.toList.reverse.map fun value => if value then '1' else '0')

instance : ToString TruthTable := ⟨text⟩

/-- Reads a table from one digit per row, the highest row first. -/
def ofText? (s : String) : Option TruthTable :=
  let digits := s.toList.reverse.toArray
  let n := digits.size.log2
  if digits.size = 2 ^ n && digits.all (fun c => c == '0' || c == '1') then
    some (ofFn n fun i => digits[i]? == some '1')
  else none

/-- Number of the row that gives variable `j` the `j`-th value of a list. -/
def rowOf : List Bool → Nat
  | [] => 0
  | b :: rest => b.toNat + 2 * rowOf rest

theorem numRows_pos (t : TruthTable) : 0 < t.numRows := Nat.two_pow_pos _

theorem getLsbD_rowsOfFn {n : Nat} {f : Nat → Bool} {i : Nat} (h : i < 2 ^ n) :
    (rowsOfFn n f).getLsbD i = f i := by
  induction n generalizing f i with
  | zero =>
    obtain rfl : i = 0 := by simpa using h
    simp [rowsOfFn]
  | succ n ih =>
    rw [Nat.pow_succ] at h
    simp only [rowsOfFn, BitVec.getLsbD_cast, BitVec.getLsbD_append]
    split
    · exact ih ‹_›
    · rw [ih (by omega), show 2 ^ n + (i - 2 ^ n) = i by omega]

theorem bit_ofFn {n : Nat} {f : Nat → Bool} {i : Nat} (h : i < 2 ^ n) : (ofFn n f).bit i = f i :=
  getLsbD_rowsOfFn h

theorem getLsbD_rowsOfVar {n i : Nat} (j : Nat) (h : i < 2 ^ n) :
    (rowsOfVar n j).getLsbD i = i.testBit j := by
  induction n generalizing i with
  | zero =>
    obtain rfl : i = 0 := by simpa using h
    simp [rowsOfVar]
  | succ n ih =>
    rw [Nat.pow_succ] at h
    rw [rowsOfVar]
    by_cases hi : i < 2 ^ n
    · split
      · next hj => simp [BitVec.getLsbD_append, hi, hj, Nat.testBit_lt_two_pow hi]
      · simpa [BitVec.getLsbD_append, hi] using ih hi
    · obtain ⟨k, rfl⟩ := Nat.exists_eq_add_of_le (Nat.le_of_not_lt hi)
      have hk : k < 2 ^ n := by omega
      split
      · next hj =>
        simp [BitVec.getLsbD_append, hk, hj, Nat.testBit_two_pow_add_eq, Nat.testBit_lt_two_pow hk]
      · next hj =>
        simp only [BitVec.getLsbD_cast, BitVec.getLsbD_append, hi, Nat.add_sub_cancel_left, ih hk]
        rcases Nat.lt_or_gt_of_ne hj with hlt | hgt
        · simp [Nat.testBit_two_pow_add_gt hlt]
        · have hn : 2 ^ (n + 1) ≤ 2 ^ j := Nat.pow_le_pow_right (by omega) hgt
          rw [Nat.pow_succ] at hn
          simp [Nat.testBit_lt_two_pow (show k < 2 ^ j by omega),
            Nat.testBit_lt_two_pow (show 2 ^ n + k < 2 ^ j by omega)]

theorem bit_var {n i : Nat} (j : Nat) (h : i < 2 ^ n) : (var n j).bit i = i.testBit j :=
  getLsbD_rowsOfVar j h

theorem weight_succ (n i : Nat) : weight (n + 1) i = weight n i + (i.testBit n).toNat := by
  rw [weight, List.range_succ, List.countP_append, List.countP_singleton]
  cases i.testBit n <;> rfl

theorem weight_le (n i : Nat) : weight n i ≤ n := by
  simpa [weight] using List.countP_le_length (p := i.testBit) (l := List.range n)

theorem weight_of_lt {n i : Nat} (h : i < 2 ^ n) : weight (n + 1) i = weight n i := by
  simp [weight_succ, Nat.testBit_lt_two_pow h]

theorem weight_add {n i : Nat} (h : i < 2 ^ n) : weight (n + 1) (2 ^ n + i) = weight n i + 1 := by
  rw [weight_succ, Nat.testBit_two_pow_add_eq, Nat.testBit_lt_two_pow h]
  refine congrArg (· + 1) (List.countP_congr fun j hj => ?_)
  rw [Nat.testBit_two_pow_add_gt (List.mem_range.1 hj)]

/-- The row whose true variables come first. -/
theorem weight_two_pow_sub_one (n w : Nat) : weight n (2 ^ w - 1) = min n w := by
  induction n with
  | zero => simp [weight]
  | succ n ih =>
    rw [weight_succ, ih, Nat.testBit_two_pow_sub_one]
    by_cases h : n < w <;> simp [h] <;> omega

theorem length_rowsByWeight (n : Nat) (values : List Bool) :
    (rowsByWeight n values).length = values.length - n := by
  induction n with
  | zero => simp [rowsByWeight]
  | succ n ih => simp [rowsByWeight, ih]; omega

/-- In member `k`, the value on a row is the given one whose number is `k` and the row's weight. -/
theorem getElem?_values_of_rowsByWeight {n k i : Nat} {values : List Bool} {x : BitVec (2 ^ n)}
    (hx : (rowsByWeight n values)[k]? = some x) (hi : i < 2 ^ n) :
    values[k + weight n i]? = some (x.getLsbD i) := by
  induction n generalizing k i with
  | zero =>
    obtain rfl : i = 0 := by simpa using hi
    rw [rowsByWeight, List.getElem?_map, Option.map_eq_some_iff] at hx
    obtain ⟨b, hb, rfl⟩ := hx
    simpa [weight] using hb
  | succ n ih =>
    rw [Nat.pow_succ] at hi
    rw [rowsByWeight, List.getElem?_zipWith_eq_some] at hx
    obtain ⟨low, high, hlow, hhigh, rfl⟩ := hx
    rw [List.getElem?_tail] at hhigh
    by_cases hlt : i < 2 ^ n
    · simp [BitVec.getLsbD_append, hlt, weight_of_lt hlt, ih hlow hlt]
    · obtain ⟨j, rfl⟩ := Nat.exists_eq_add_of_le (Nat.le_of_not_lt hlt)
      have hj : j < 2 ^ n := by omega
      have := ih hhigh hj
      simp only [BitVec.getLsbD_cast, BitVec.getLsbD_append, hlt, Nat.add_sub_cancel_left,
        weight_add hj, ↓reduceIte, ← this]
      congr 1
      omega

/-- A table is symmetric if each row has the value of the row of the same weight whose true
variables come first. -/
theorem isSymmetric_iff (t : TruthTable) :
    t.isSymmetric = true ↔ ∀ i < t.numRows, t.bit i = t.bit (2 ^ weight t.numVars i - 1) := by
  let values := (List.range (t.numVars + 1)).map fun w => t.bit (2 ^ w - 1)
  have hlength : (rowsByWeight t.numVars values).length = 1 := by
    simp [length_rowsByWeight, values]
  obtain ⟨x, hx⟩ := List.length_eq_one_iff.1 hlength
  have hbits : ∀ i < t.numRows, x.getLsbD i = t.bit (2 ^ weight t.numVars i - 1) := by
    intro i hi
    have h := getElem?_values_of_rowsByWeight (k := 0) (x := x) (by rw [hx]; rfl) hi
    have hle := weight_le t.numVars i
    rw [Nat.zero_add, List.getElem?_map, List.getElem?_range (by omega)] at h
    exact (Option.some.inj h).symm
  have hdef : t.isSymmetric = true ↔ x = t.rows := by
    rw [isSymmetric]
    simp only [show (List.range (t.numVars + 1)).map (fun w => t.bit (2 ^ w - 1)) = values from rfl,
      hx, List.head?_cons, beq_iff_eq, Option.some.injEq]
  rw [hdef]
  constructor
  · rintro rfl i hi
    exact hbits i hi
  · intro h
    exact BitVec.eq_of_getLsbD_eq fun i hi => (hbits i hi).trans (h i hi).symm

/-- The slots after the first `k` rows: they hold the values on these rows and no other ones. -/
structure Noted (t : TruthTable) (slots : Array (Option Bool)) (k : Nat) : Prop where
  size : slots.size = t.numVars + 1
  held : ∀ i < k, slots[weight t.numVars i]? = some (some (t.bit i))
  seen : ∀ w b, slots[w]? = some (some b) → ∃ i < k, weight t.numVars i = w ∧ t.bit i = b

/-- Two of the first `k` rows have one weight and different values. -/
def Clash (t : TruthTable) (k : Nat) : Prop :=
  ∃ i < k, ∃ j < k, weight t.numVars i = weight t.numVars j ∧ t.bit i ≠ t.bit j

theorem noted_replicate (t : TruthTable) : t.Noted (Array.replicate (t.numVars + 1) none) 0 where
  size := Array.size_replicate
  held _ hi := absurd hi (Nat.not_lt_zero _)
  seen w b h := by
    rw [Array.getElem?_replicate] at h
    split at h <;> cases h

/-- A value that the rows of its weight share, if there are any yet, may be noted. -/
theorem Noted.put {t : TruthTable} {slots : Array (Option Bool)} {k : Nat} (noted : t.Noted slots k)
    (agree : ∀ i < k, weight t.numVars i = weight t.numVars k → t.bit i = t.bit k) :
    t.Noted (slots.setIfInBounds (weight t.numVars k) (some (t.bit k))) (k + 1) where
  size := Array.size_setIfInBounds.trans noted.size
  held i hi := by
    have inBounds : weight t.numVars i < slots.size :=
      noted.size ▸ Nat.lt_succ_of_le (weight_le t.numVars i)
    rw [Array.getElem?_setIfInBounds]
    split
    · next same =>
      have value : t.bit i = t.bit k := by
        rcases Nat.lt_succ_iff_lt_or_eq.1 hi with before | rfl
        · exact agree i before same.symm
        · rfl
      rw [if_pos (same ▸ inBounds), value]
    · next other =>
      have before : i < k := Nat.lt_of_le_of_ne (Nat.le_of_lt_succ hi) fun h => other (by rw [h])
      exact noted.held i before
  seen w b h := by
    rw [Array.getElem?_setIfInBounds] at h
    split at h
    · next same =>
      split at h <;> cases h
      exact ⟨k, Nat.lt_succ_self k, same, rfl⟩
    · obtain ⟨i, hi, row⟩ := noted.seen w b h
      exact ⟨i, Nat.lt_succ_of_lt hi, row⟩

/-- The next row is noted, or its value is not the one that a row of its weight had. -/
theorem Noted.step {t : TruthTable} {slots : Array (Option Bool)} {k : Nat} (noted : t.Noted slots k) :
    (∃ slots', t.noteRow slots k = some slots' ∧ t.Noted slots' (k + 1)) ∨
      t.noteRow slots k = none ∧ t.Clash (k + 1) := by
  rw [noteRow, Array.getD_eq_getD_getElem?]
  by_cases agree : ∀ i < k, weight t.numVars i = weight t.numVars k → t.bit i = t.bit k
  · refine .inl ⟨_, if_neg fun differs => ?_, noted.put agree⟩
    cases hslot : slots[weight t.numVars k]? with
    | none => simp [hslot] at differs
    | some slot =>
      cases slot with
      | none => simp [hslot] at differs
      | some b =>
        obtain ⟨i, hi, same, rfl⟩ := noted.seen _ _ hslot
        simp [hslot, agree i hi same] at differs
  · simp only [Classical.not_forall] at agree
    obtain ⟨i, hi, same, differs⟩ := agree
    have held := noted.held i hi
    rw [same] at held
    refine .inr ⟨if_pos ?_, i, Nat.lt_succ_of_lt hi, k, Nat.lt_succ_self k, same, differs⟩
    simpa [held] using differs

/-- The first rows are noted unless two of them clash. -/
theorem noted_or_clash (t : TruthTable) (k : Nat) :
    (∃ slots, (List.range k).foldlM t.noteRow (Array.replicate (t.numVars + 1) none) = some slots ∧
      t.Noted slots k) ∨
    (List.range k).foldlM t.noteRow (Array.replicate (t.numVars + 1) none) = none ∧ t.Clash k := by
  induction k with
  | zero => exact .inl ⟨_, rfl, noted_replicate t⟩
  | succ k ih =>
    rw [List.range_succ, List.foldlM_append]
    rcases ih with ⟨slots, run, noted⟩ | ⟨run, i, hi, j, hj, clash⟩
    · rw [run]
      simpa using noted.step
    · rw [run]
      exact .inr ⟨rfl, i, Nat.lt_succ_of_lt hi, j, Nat.lt_succ_of_lt hj, clash⟩

/-- Both tests for symmetry find the same tables. -/
theorem isSymmetricByRows_eq (t : TruthTable) : t.isSymmetricByRows = t.isSymmetric := by
  rw [isSymmetricByRows, Bool.eq_iff_iff, isSymmetric_iff]
  rcases t.noted_or_clash t.numRows with ⟨slots, run, noted⟩ | ⟨run, i, hi, j, hj, same, differs⟩
  · rw [run]
    refine iff_of_true rfl fun i hi => ?_
    -- The row whose true variables come first has the weight of row `i`, and so the same slot.
    have le := weight_le t.numVars i
    have pow := Nat.pow_le_pow_right Nat.zero_lt_two le
    have pos := Nat.two_pow_pos (weight t.numVars i)
    have first := noted.held (2 ^ weight t.numVars i - 1) (by rw [numRows]; omega)
    rw [weight_two_pow_sub_one, Nat.min_eq_right le, noted.held i hi] at first
    exact Option.some.inj (Option.some.inj first)
  · rw [run]
    refine iff_of_false Bool.false_ne_true fun symmetric => differs ?_
    rw [symmetric i hi, symmetric j hj, same]

theorem lowBits_eq (x k : Nat) (rest : List Bool) :
    lowBits x k rest = (List.range k).map x.testBit ++ rest := by
  induction k generalizing rest with
  | zero => rfl
  | succ k ih => rw [lowBits, ih, List.range_succ, List.map_append, List.append_assoc]; rfl

theorem bitsBefore_eq (n : Nat) (x : BitVec (2 ^ n)) (rest : List Bool) :
    bitsBefore n x rest = (List.range (2 ^ n)).map x.getLsbD ++ rest := by
  induction n generalizing rest with
  | zero => exact lowBits_eq x.toNat 1 rest
  | succ n ih =>
    rw [bitsBefore]
    split
    · exact lowBits_eq x.toNat (2 ^ (n + 1)) rest
    · have hsplit : List.range (2 ^ (n + 1))
          = List.range (2 ^ n) ++ (List.range (2 ^ n)).map (2 ^ n + ·) := by
        rw [Nat.pow_succ, Nat.mul_two, List.range_add]
      rw [ih, ih, hsplit, List.map_append, List.map_map, List.append_assoc]
      have hlow : ∀ i ∈ List.range (2 ^ n), (x.setWidth (2 ^ n)).getLsbD i = x.getLsbD i :=
        fun i hi => by simp [List.mem_range.1 hi]
      have hhigh : ∀ i ∈ List.range (2 ^ n),
          (x.extractLsb' (2 ^ n) (2 ^ n)).getLsbD i = x.getLsbD (2 ^ n + i) :=
        fun i hi => by simp [List.mem_range.1 hi]
      rw [List.map_congr_left hlow, List.map_congr_left hhigh]
      rfl

theorem toList_eq (t : TruthTable) : t.toList = (List.range t.numRows).map t.bit := by
  rw [toList, bitsBefore_eq, List.append_nil]
  rfl

theorem bit_complement {t : TruthTable} {i : Nat} (h : i < t.numRows) :
    t.complement.bit i = !t.bit i := by
  have h' : i < 2 ^ t.numVars := h
  simp [complement, bit, h']

@[simp] theorem complement_complement (t : TruthTable) : t.complement.complement = t :=
  congrArg (TruthTable.mk t.numVars) BitVec.not_not

theorem rowOf_lt : ∀ bits : List Bool, rowOf bits < 2 ^ bits.length
  | [] => by simp [rowOf]
  | b :: rest => by
    have := rowOf_lt rest
    have := Bool.toNat_lt b
    simp only [rowOf, List.length_cons, Nat.pow_succ]
    omega

end TruthTable

end LogicNet
