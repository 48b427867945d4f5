import LogicNet.Network.Basic

/-! # Fanout indexes

A fanout index lists, for every node, the live gates with a fanin on it.  It describes the network
as it was when the index was made or last brought up to date.
-/

namespace LogicNet

structure FanoutIndex where
  parents : Array (List Nat)
deriving Repr, DecidableEq

namespace FanoutIndex

def size (index : FanoutIndex) : Nat := index.parents.size

/-- Gates listed for a node; none for a node that the index does not know. -/
def fanout (index : FanoutIndex) (n : Nat) : List Nat := index.parents.getD n []

/-- Puts a gate at the end of a list, unless it is there already. -/
def listOnce (p : Nat) (gates : List Nat) : List Nat :=
  if gates.getLast? = some p then gates else gates ++ [p]

/-- Lists a gate for the nodes of its fanins. -/
def register (net : Network) (parents : Array (List Nat)) (p : Nat) : Array (List Nat) :=
  match net.nodes[p]? with
  | some nd => nd.fanins.foldl (fun parents s => parents.modify s.node (listOnce p)) parents
  | none => parents

def ofNetwork (net : Network) : FanoutIndex :=
  ⟨net.liveGates.foldl (register net) (Array.replicate net.size [])⟩

/-- Adds the nodes that the network has and the index does not know. -/
def catchUp (index : FanoutIndex) (net : Network) : FanoutIndex :=
  if net.size ≤ index.size then index
  else
    let parents := index.parents ++ Array.replicate (net.size - index.size) []
    ⟨(net.liveGates.filter (index.size ≤ ·)).foldl (register net) parents⟩

/-- The given gates that have a fanin on `n`. -/
def usersAmong (net : Network) (gates : List Nat) (n : Nat) : List Nat :=
  gates.filter fun p => net.nodes[p]?.any (·.fanins.any (·.node == n))

variable {net : Network} {n p : Nat}

theorem listOnce_listOnce (p : Nat) (gates : List Nat) :
    listOnce p (listOnce p gates) = listOnce p gates := by
  by_cases h : gates.getLast? = some p <;> simp [listOnce, h]

theorem getElem?_foldl_listOnce (fanins : List Signal) (parents : Array (List Nat)) (p n : Nat) :
    (fanins.foldl (fun parents s => parents.modify s.node (listOnce p)) parents)[n]?
      = parents[n]?.map fun gates => if fanins.any (·.node == n) then listOnce p gates else gates := by
  induction fanins generalizing parents with
  | nil => simp
  | cons s fanins ih =>
    rw [List.foldl_cons, ih, Array.getElem?_modify, List.any_cons]
    by_cases h : s.node = n
    · simp only [h, beq_self_eq_true, Bool.true_or, if_true, Option.map_map]
      congr 1
      funext gates
      simp [listOnce_listOnce]
    · simp [h]

/-- A gate is listed once for a node, through however many fanins it refers to it. -/
theorem getElem?_register (net : Network) (parents : Array (List Nat)) (p n : Nat) :
    (register net parents p)[n]? = parents[n]?.map fun gates =>
      if net.nodes[p]?.any (·.fanins.any (·.node == n)) then listOnce p gates else gates := by
  unfold register
  cases net.nodes[p]? with
  | none => simp
  | some nd => exact getElem?_foldl_listOnce nd.fanins parents p n

/-- Gates are listed in the order in which they come, if none of them ends a list already. -/
theorem getElem?_foldl_register (net : Network) {gates : List Nat} (nodup : gates.Nodup)
    (parents : Array (List Nat)) (n : Nat)
    (fresh : ∀ listed, parents[n]? = some listed → ∀ p ∈ gates, listed.getLast? ≠ some p) :
    (gates.foldl (register net) parents)[n]? = parents[n]?.map (· ++ usersAmong net gates n) := by
  induction gates generalizing parents with
  | nil => simp [usersAmong]
  | cons p gates ih =>
    obtain ⟨hp, nodup⟩ := List.nodup_cons.1 nodup
    cases hlisted : parents[n]? with
    | none =>
      have absent : (register net parents p)[n]? = none := by rw [getElem?_register, hlisted]; rfl
      rw [List.foldl_cons, ih nodup _ (by simp [absent]), absent]
      rfl
    | some listed =>
      have notLast := fresh listed hlisted p List.mem_cons_self
      have step : (register net parents p)[n]? = some (listed ++ usersAmong net [p] n) := by
        rw [getElem?_register, hlisted]
        cases huses : net.nodes[p]?.any (·.fanins.any (·.node == n)) <;>
          simp [usersAmong, huses, listOnce, notLast]
      have split : usersAmong net (p :: gates) n = usersAmong net [p] n ++ usersAmong net gates n :=
        List.filter_append [p] gates
      rw [List.foldl_cons, ih nodup, step, split]
      · simp
      · intro listed' hlisted' q hq last
        cases step.symm.trans hlisted'
        have ne : p ≠ q := fun h => hp (h ▸ hq)
        cases huses : net.nodes[p]?.any (·.fanins.any (·.node == n)) with
        | true => simp [usersAmong, huses, ne] at last
        | false =>
          simp only [usersAmong, huses, List.filter_cons, Bool.false_eq_true, if_false,
            List.filter_nil, List.append_nil] at last
          exact fresh listed hlisted q (List.mem_cons_of_mem _ hq) last

theorem getElem?_ofNetwork (net : Network) (n : Nat) :
    (ofNetwork net).parents[n]? = if n < net.size then some (net.parents n) else none := by
  have nodup : net.liveGates.Nodup := List.nodup_range.filter _
  rw [ofNetwork, getElem?_foldl_register net nodup]
  · by_cases h : n < net.size
    · simp [h, usersAmong, Network.parents]
    · simp [h]
  · intro listed hlisted p _
    have empty : listed = [] := by
      rw [Array.getElem?_replicate] at hlisted
      split at hlisted
      · exact (Option.some.inj hlisted).symm
      · cases hlisted
    simp [empty]

theorem fanout_ofNetwork (h : n < net.size) : (ofNetwork net).fanout n = net.parents n := by
  rw [fanout, Array.getD_eq_getD_getElem?, getElem?_ofNetwork, if_pos h]
  rfl

end FanoutIndex

end LogicNet
