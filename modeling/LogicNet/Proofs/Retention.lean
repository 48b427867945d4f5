import LogicNet.Proofs.Calls

/-! # Creations retain what there is

Whatever signals a creation is given, it takes no entry of a live gate out of the table, no function out of
the cache, and no node out of use.  So a canonical form whose signal the network has keeps that signal, and
to make it again changes nothing.
-/

namespace LogicNet.Network

variable {net net' net'' : Network} {g : GateFunction} {l l' : List Signal} {s : Signal} {c : Canonical}

/-- Everything that creations look up in the first network is in the second one too. -/
structure Retains (net net' : Network) : Prop where
  family : net'.family = net.family
  functions : net.functions.Extends net'.functions
  wellFormed : net.functions.WellFormed → net'.functions.WellFormed
  live : ∀ n, net.isLive n = true → net'.isLive n = true
  entries : ∀ key s, net.gateTable.get? key = some s → net.isLive s.node = true →
    net'.gateTable.get? key = some s

namespace Retains

theorem refl (net : Network) : Retains net net := ⟨rfl, .refl _, id, fun _ => id, fun _ _ hget _ => hget⟩

theorem trans (h : Retains net net') (h' : Retains net' net'') : Retains net net'' where
  family := h'.family.trans h.family
  functions := h.functions.trans h'.functions
  wellFormed := h'.wellFormed ∘ h.wellFormed
  live n hn := h'.live n (h.live n hn)
  entries key s hget hlive := h'.entries key s (h.entries key s hget hlive) (h.live _ hlive)

/-- Changes that leave the marks, the functions and the table alone. -/
theorem of_eq (family : net'.family = net.family) (functions : net'.functions = net.functions)
    (live : net'.isLive = net.isLive) (table : net'.gateTable = net.gateTable) : Retains net net' where
  family := family
  functions := functions ▸ .refl _
  wellFormed := functions ▸ id
  live n := by
    rw [live]
    exact id
  entries key s hget _ := table ▸ hget

theorem append (net : Network) (nd : Node) (inputs : List Nat) :
    Retains net { net.append nd with inputs } where
  family := rfl
  functions := .refl _
  wellFormed := id
  live n hn := ((grows_append net nd).live n (lt_size_of_isLive hn)).trans hn
  entries _ _ hget _ := hget

end Retains

/-- A gate is added over live nodes only. -/
theorem live_of_addReferences {signals : List Signal} : ∀ {net net' : Network},
    signals.foldlM addReference net = .ok net' → ∀ s ∈ signals, net.isLive s.node = true := by
  induction signals with
  | nil => exact fun _ s hs => absurd hs List.not_mem_nil
  | cons t rest ih =>
    intro net net' ok
    obtain ⟨net₁, first, others⟩ := bind_eq_ok.1 ((List.foldlM_cons ..).symm.trans ok)
    obtain ⟨nd, hnd, counted⟩ := bind_eq_ok.1 first
    cases dead : nd.dead with
    | true =>
      rw [dead] at counted
      cases counted
    | false =>
      rw [dead] at counted
      cases counted
      refine List.forall_mem_cons.2 ⟨isLive_iff.2 ⟨nd, node_eq_ok.1 hnd, dead⟩, ?_⟩
      have sameLive := isLive_modifyNode (f := fun nd => { nd with fanout := nd.fanout + 1 })
        (by intro nd; rfl) net t.node
      exact sameLive ▸ ih others

/-- The signal of a canonical form is there: none is needed, or the table has a live gate of the key. -/
inductive Holds (net : Network) : Canonical → Signal → Prop
  | trivial (s : Signal) : Holds net (.trivial s) s
  | entry {key : GateKey} {t : Signal} (hget : net.gateTable.get? key = some t)
      (live : net.isLive t.node = true) (flip : Bool) : Holds net (.gate key flip) (t.complementIf flip)

namespace Holds

theorem retained (h : net.Holds c s) (retains : Retains net net') : net'.Holds c s := by
  cases h with
  | trivial => exact .trivial s
  | entry hget live flip => exact .entry (retains.entries _ _ hget live) (retains.live _ live) flip

theorem complementIf (h : net.Holds c s) (flip : Bool) :
    net.Holds (c.complementIf flip) (s.complementIf flip) := by
  cases h with
  | trivial => exact .trivial _
  | entry hget live b =>
    rw [Signal.complementIf_complementIf]
    exact .entry hget live (b ^^ flip)

/-- A signal that is there is found, and nothing is changed. -/
theorem hashCons_run (h : net.Holds c s) (hc : Canonical.ofGate net.functions g l = .ok c) :
    (hashCons g l).run net = .ok s net := by
  rw [hashCons, Edit.run_get_bind, hc]
  cases h with
  | trivial => rfl
  | @entry key t hget live flip =>
    obtain ⟨nd, hnd, hdead⟩ := isLive_iff.1 live
    have found : net.findOrAdd key = .ok (t, net) := by
      simp only [findOrAdd, hget, node_eq_ok.2 hnd, ok_bind, hdead]
      rfl
    simp only [Edit.lift_ok_fault, pure_bind, found]
    rfl

end Holds

theorem Added.retains {key : GateKey} (added : Added net key net')
    (free : ∀ s, net.gateTable.get? key = some s → net.isLive s.node = false) : Retains net net' where
  family := added.grows.family
  functions := added.grows.functions
  wellFormed := added.functions ▸ id
  live n hn := (added.grows.live n (lt_size_of_isLive hn)).trans hn
  entries k s hget hlive := by
    rw [added.get?, if_neg]
    · exact hget
    · rintro rfl
      cases (free s hget).symm.trans hlive

/-- What finding or adding the gate of a key comes to.  A new gate is entered under a key that no live gate
has, once the entry of a dead one is taken out. -/
inductive FoundOrAdded (net : Network) (key : GateKey) : Signal → Network → Prop
  | found {s : Signal} (hget : net.gateTable.get? key = some s) (live : net.isLive s.node = true) :
      FoundOrAdded net key s net
  | added {base net' : Network} (same : Retains net base) (size : base.size = net.size)
      (free : ∀ t, base.gateTable.get? key = some t → base.isLive t.node = false)
      (added : Added base key net') : FoundOrAdded net key (.ofNode base.size) net'

theorem foundOrAdded {key : GateKey} (ok : net.findOrAdd key = .ok (s, net')) :
    FoundOrAdded net key s net' := by
  have added (base : Network) (same : Retains net base) (size : base.size = net.size)
      (free : ∀ t, base.gateTable.get? key = some t → base.isLive t.node = false)
      (ok : base.addGate key = .ok (s, net')) : FoundOrAdded net key s net' := by
    obtain ⟨counted, count, -⟩ := bind_eq_ok.1 ok
    obtain ⟨_, ok', added⟩ := addGate_eq_ok (live_of_addReferences count)
    cases ok.symm.trans ok'
    exact .added same size free added
  unfold findOrAdd at ok
  cases hget : net.gateTable.get? key with
  | none =>
    rw [hget] at ok
    exact added net (.refl net) rfl (fun t ht => by cases hget.symm.trans ht) ok
  | some hit =>
    rw [hget] at ok
    obtain ⟨nd, hnd, ok⟩ := bind_eq_ok.1 ok
    have live := isLive_of_getElem? (node_eq_ok.1 hnd)
    cases dead : nd.dead with
    | false =>
      rw [dead] at ok live
      cases ok
      exact .found hget live
    | true =>
      rw [dead] at live
      rw [dead, if_pos rfl] at ok
      have erased (k : GateKey) : (net.gateTable.erase key).get? k
          = if k = key then none else net.gateTable.get? k := GateTable.get?_erase ..
      refine added { net with gateTable := net.gateTable.erase key }
        ⟨rfl, .refl _, id, fun _ => id, fun k t ht hlive => ?_⟩ rfl (fun t ht => ?_) ok
      · refine (erased k).trans ((if_neg ?_).trans ht)
        rintro rfl
        cases hget.symm.trans ht
        cases live.symm.trans hlive
      · cases ((erased key).trans (if_pos rfl)).symm.trans ht

/-- The signal of a key is that of a live gate in the table, and stays there. -/
theorem retains_of_findOrAdd {key : GateKey} (ok : net.findOrAdd key = .ok (s, net')) :
    Retains net net' ∧ net'.gateTable.get? key = some s ∧ net'.isLive s.node = true := by
  cases foundOrAdded ok with
  | found hget live => exact ⟨.refl net, hget, live⟩
  | added same _ free added =>
    exact ⟨same.trans (added.retains free), (added.get? key).trans (if_pos rfl), added.live⟩

/-- At most one gate is added. -/
theorem size_le_of_findOrAdd {key : GateKey} (ok : net.findOrAdd key = .ok (s, net')) :
    net'.size ≤ net.size + 1 := by
  cases foundOrAdded ok with
  | found => exact Nat.le_succ _
  | added _ size _ added => rw [added.size, size]

/-- An edit that retains everything, from wherever it begins. -/
structure Retaining {α : Type} (e : Edit α) : Prop where
  ensures : ∀ net, Ensures (Retains net) net e

theorem Retaining.retains {α : Type} {e : Edit α} {a : α} (h : Retaining e)
    (run : e.run net = .ok a net') : Retains net net' :=
  h.ensures net net' (.done run)

theorem retaining_hashCons (g : GateFunction) (l : List Signal) : Retaining (hashCons g l) := by
  refine ⟨fun net => .get_bind (.fault_bind fun c _ => ?_)⟩
  cases c with
  | trivial s => exact .pure (.refl net)
  | gate key flip =>
    exact .fault_bind fun _ found => .set_bind (.pure (retains_of_findOrAdd found).1)

/-- A gate that was made has a canonical form, whose signal is there from then on. -/
theorem holds_of_hashCons_run (run : (hashCons g l).run net = .ok s net') :
    ∃ c, Canonical.ofGate net.functions g l = .ok c ∧ net'.Holds c s := by
  rw [hashCons, Edit.run_get_bind] at run
  cases hc : Canonical.ofGate net.functions g l with
  | error cause =>
    rw [hc] at run
    cases run
  | ok c =>
    rw [hc, Edit.lift_ok_fault, pure_bind] at run
    cases c with
    | trivial t =>
      cases run
      exact ⟨_, rfl, .trivial s⟩
    | gate key flip =>
      dsimp only at run
      cases found : net.findOrAdd key with
      | error cause =>
        rw [found] at run
        cases run
      | ok result =>
        rw [found] at run
        cases run
        obtain ⟨-, hget, live⟩ := retains_of_findOrAdd found
        exact ⟨_, rfl, .entry hget live flip⟩

/-- A gate over fanins that are alike to those of a gate made earlier is that gate, or its complement. -/
theorem hashCons_run_of_alike (run : (hashCons g l).run net = .ok s net') (later : Retains net' net'')
    {flip : Bool} (alike : Canonical.Alike net''.functions g flip l' l) :
    (hashCons g l').run net'' = .ok (s.complementIf flip) net'' := by
  have retains := ((retaining_hashCons g l).retains run).trans later
  obtain ⟨c, hc, holds⟩ := holds_of_hashCons_run run
  have form := Canonical.ofGate_of_extends retains.functions hc
  exact ((holds.retained later).complementIf flip).hashCons_run (Canonical.ofGate_of_alike alike form)

namespace Retaining

variable {α β : Type} {e : Edit α} {f : α → Edit β}

theorem pure (a : α) : Retaining (Pure.pure a : Edit α) := ⟨fun net => .pure (.refl net)⟩

theorem bind (h : Retaining e) (next : ∀ a, Retaining (f a)) : Retaining (e >>= f) where
  ensures net := (h.ensures net).bind fun a net' retains net'' leads =>
    retains.trans ((next a).ensures net' net'' leads)

theorem get_bind {f : Network → Edit β} (h : ∀ net, Retaining (f net)) : Retaining (get >>= f) :=
  ⟨fun net => .get_bind ((h net).ensures net)⟩

theorem fault_bind {x : Except Fault α} (h : ∀ a, Retaining (f a)) :
    Retaining ((liftM x : Edit α) >>= f) :=
  ⟨fun net => .fault_bind fun a _ => (h a).ensures net⟩

theorem refusal_bind {x : Except NetworkError α} (h : ∀ a, Retaining (f a)) :
    Retaining ((liftM x : Edit α) >>= f) :=
  ⟨fun net => .refusal_bind (.refl net) fun a _ => (h a).ensures net⟩

theorem requireFamily_bind {family : Family} {f : Unit → Edit β} (h : Retaining (f ())) :
    Retaining (requireFamily family >>= f) :=
  ⟨fun net => .requireFamily_bind fun _ => h.ensures net⟩

theorem discard (h : Retaining e) : Retaining (discard e) := ⟨fun net => .discard (h.ensures net)⟩

end Retaining

section calls

variable (a b c : Signal) (nodes : List Nat) (t : TruthTable)

theorem retaining_createInput : Retaining createInput :=
  ⟨fun net => .get_bind (.set_bind (.pure (.append net _ _)))⟩

theorem retaining_createOutput : Retaining (createOutput a) := by
  refine ⟨fun net => .get_bind (.fault_bind fun _ _ => .set_bind (.pure ?_))⟩
  exact .of_eq rfl rfl (isLive_modifyNode (by intro nd; rfl) net a.node) rfl

theorem retaining_internFunction : Retaining (internFunction t) := by
  refine ⟨fun net => .get_bind (.set_bind (.pure ?_))⟩
  exact ⟨rfl, FunctionCache.extends_insert _ _, fun wf => wf.insert t, fun _ => id, fun _ _ hget _ => hget⟩

/-- The cache names an interned table by its literal. -/
theorem get_of_internFunction_run {t : TruthTable} {f : FunctionLiteral}
    (run : (internFunction t).run net = .ok f net') : net'.functions.get f = .ok t := by
  cases run
  exact FunctionCache.get_insert net.functions t

theorem retaining_tableGate (f : FunctionLiteral) : Retaining (tableGate f nodes) :=
  retaining_hashCons _ _

theorem retaining_wordGate (word : BitVec 64) (operands : List Signal) :
    Retaining (wordGate word operands) :=
  (retaining_internFunction _).bind (retaining_tableGate _)

theorem retaining_createNot : Retaining (createNot a) := by
  refine .get_bind fun net => ?_
  cases net.family with
  | klut => exact retaining_tableGate ..
  | _ => exact .pure _

theorem retaining_createAnd : Retaining (createAnd a b) := by
  refine .get_bind fun net => ?_
  cases net.family <;> exact retaining_hashCons ..

theorem retaining_createOr : Retaining (createOr a b) := by
  refine .get_bind fun net => ?_
  cases net.family with
  | aig => exact (retaining_hashCons ..).bind fun _ => .pure _
  | mig => exact retaining_hashCons ..
  | klut => exact retaining_wordGate ..

theorem retaining_createXor : Retaining (createXor a b) := by
  refine .get_bind fun net => ?_
  cases net.family with
  | klut => exact retaining_wordGate ..
  | _ =>
    exact (retaining_createAnd ..).bind fun _ => (retaining_createAnd ..).bind fun _ =>
      retaining_createOr ..

theorem retaining_createMaj : Retaining (createMaj a b c) := by
  refine .get_bind fun net => ?_
  cases net.family with
  | aig =>
    exact (retaining_createAnd ..).bind fun _ => (retaining_createOr ..).bind fun _ =>
      (retaining_createAnd ..).bind fun _ => retaining_createOr ..
  | mig => exact retaining_hashCons ..
  | klut => exact retaining_wordGate ..

theorem retaining_createNand : Retaining (createNand a b) :=
  (retaining_createAnd a b).bind retaining_createNot

theorem retaining_createXor3 (x y z : Nat) : Retaining (createXor3 x y z) :=
  .requireFamily_bind (retaining_wordGate ..)

theorem retaining_createTable : Retaining (createTable nodes t) := by
  refine .requireFamily_bind (.get_bind fun net => .refusal_bind fun _ => ?_)
  split
  · exact .pure _
  · exact (retaining_internFunction t).bind fun f => retaining_tableGate nodes f

theorem retaining_cloneGate (source : Network) (n : Nat) (fanins : List Signal) :
    Retaining (cloneGate source n fanins) := by
  refine .refusal_bind fun slots => ?_
  by_cases length : slots.length = fanins.length
  · simp only [length, ne_eq, not_true_eq_false, if_false]
    refine .get_bind fun net => ?_
    cases net.family with
    | klut => exact .fault_bind fun t => retaining_createTable _ t
    | _ => exact retaining_hashCons ..
  · simp only [length, ne_eq, not_false_eq_true, if_true]
    exact ⟨fun net => .refuse (.refl net)⟩

end calls

/-- The calls that create nodes or outputs. -/
def Call.creates : Call → Bool
  | input | output _ | not _ | and .. | or .. | nand .. | xor .. | maj .. | xor3 .. | table .. | clone .. =>
    true
  | _ => false

theorem Call.retaining {call : Call} (creates : call.creates = true) : Retaining call.edit := by
  cases call with
  | input => exact retaining_createInput.discard
  | output s => exact (retaining_createOutput s).discard
  | not a => exact (retaining_createNot a).discard
  | and a b => exact (retaining_createAnd a b).discard
  | or a b => exact (retaining_createOr a b).discard
  | nand a b => exact (retaining_createNand a b).discard
  | xor a b => exact (retaining_createXor a b).discard
  | maj a b c => exact (retaining_createMaj a b c).discard
  | xor3 a b c => exact (retaining_createXor3 a b c).discard
  | table nodes t => exact (retaining_createTable nodes t).discard
  | clone source n fanins => exact (retaining_cloneGate source n fanins).discard
  | _ => cases creates

/-- Creations and outputs lead from the first network to the second, over whatever signals. -/
def Extended : Network → Network → Prop :=
  Relation.ReflTransGen fun net net' => ∃ call : Call, call.creates = true ∧ Leads call.edit net net'

theorem Extended.retains (h : net.Extended net') : Retains net net' := by
  induction h with
  | refl => exact .refl net
  | tail _ call ih =>
    obtain ⟨call, creates, leads⟩ := call
    exact ih.trans ((Call.retaining creates).ensures _ _ leads)

end LogicNet.Network
