import LogicNet.Proofs.Retention
import LogicNet.Proofs.Workspaces

/-! # Sharing of gates

In every network of every workspace that actions lead to, the table holds the live gates and nothing
else.  So a gate that is made again over the fanins of a live one is that very gate.
-/

namespace LogicNet

namespace Network

variable {net : Network} {n g : Nat} {fanins : List Signal}

theorem fanins_eq_ok (gate : net.IsGate g) (h : net.fanins g = .ok fanins) :
    ∃ f, net.kind? g = some (.gate f fanins) := by
  obtain ⟨f, l, hkind⟩ := gate
  obtain ⟨nd, hnd, heq⟩ := bind_eq_ok.1 h
  cases heq
  have hnode := node_eq_ok.1 hnd
  rw [← slots_of_getElem? hnode, slots_of_kind? hkind]
  exact ⟨f, hkind⟩

namespace HashConsed

/-- The key of a live gate is found, and nothing is made. -/
theorem hashCons_of_live (consed : net.HashConsed) (live : net.isLive g = true) {f : GateFunction}
    (hkind : net.kind? g = some (.gate f fanins)) :
    (hashCons f fanins).run net = .ok (.ofNode g) net := by
  obtain ⟨key, flip, hc, hget⟩ := consed.hashed g live ⟨f, fanins, hkind⟩
  rw [canonical_of_kind? hkind] at hc
  have holds : net.Holds (.gate key flip) ((Signal.mk g flip).complementIf flip) :=
    .entry hget live flip
  have undone : (Signal.mk g flip).complementIf flip = .ofNode g := by
    cases flip <;> rfl
  exact undone ▸ holds.hashCons_run hc

/-- The function of a table gate is interned already. -/
theorem createTable_of_live (consed : net.HashConsed) (family : net.family = .klut)
    (live : net.isLive g = true) {f : FunctionLiteral} {t : TruthTable}
    (hkind : net.kind? g = some (.gate (.table f) fanins)) (hf : net.functions.get f = .ok t) :
    (createTable (fanins.map (·.node)) t).run net = .ok (.ofNode g) net := by
  have fits := consed.fits g (.table f) fanins hkind
  obtain ⟨t', ht', hvars⟩ := FunctionCache.arity?_table.1 fits.arity
  cases hf.symm.trans ht'
  have checked : net.checkTable (fanins.map (·.node)) t = .ok () := by
    apply checkTable_eq_ok.2
    rw [List.length_map]
    refine ⟨hvars, fits.bounded, ?_⟩
    intro m hm
    obtain ⟨s, hs, rfl⟩ := List.mem_map.1 hm
    exact consed.live_fanins g live s ((slots_of_kind? hkind).symm ▸ hs)
  have nonempty : (fanins.map (·.node)).isEmpty = false := by
    cases fanins with
    | nil => exact absurd rfl fits.nonempty
    | cons s rest => rfl
  have plain : (fanins.map (·.node)).map Signal.ofNode = fanins := by
    rw [List.map_map]
    refine (List.map_congr_left ?_).trans (List.map_id fanins)
    intro s hs
    cases hpolarity : s.complemented with
    | true =>
      have edges := (fits.typed s hs).polarity hpolarity
      rw [family] at edges
      cases edges
    | false => exact congrArg (Signal.mk s.node) hpolarity.symm
  have interned : (internFunction t).run net = .ok f net := by
    unfold internFunction
    rw [Edit.run_get_bind, FunctionCache.insert_get consed.functions hf]
    rfl
  unfold createTable
  rw [Edit.run_bind_ok (Edit.run_requireFamily family), Edit.run_get_bind]
  simp only [checked, Edit.lift_ok_refusal, pure_bind, nonempty]
  have made := consed.hashCons_of_live live hkind
  rw [← plain] at made
  exact (Edit.run_bind_ok interned _).trans made

theorem cloneGate_of_live (consed : net.HashConsed) (live : net.isLive g = true)
    (gate : net.IsGate g) (h : net.fanins g = .ok fanins) :
    (cloneGate net g fanins).run net = .ok (.ofNode g) net := by
  obtain ⟨f, hkind⟩ := fanins_eq_ok gate h
  have fits := consed.fits g f fanins hkind
  unfold cloneGate
  simp only [checkGate_eq_ok hkind, Edit.lift_ok_refusal, pure_bind, ne_eq, not_true_eq_false,
    if_false]
  rw [Edit.run_get_bind]
  have family := Family.eq_of_hasGate fits.hasGate
  cases f with
  | and =>
    rw [family]
    exact consed.hashCons_of_live live hkind
  | maj =>
    rw [family]
    exact consed.hashCons_of_live live hkind
  | table f =>
    obtain ⟨t, ht, -⟩ := FunctionCache.arity?_table.1 fits.arity
    have hfunction : net.nodeFunction g = .ok t := (nodeFunction_of_kind? hkind).trans ht
    rw [family]
    simp only [hfunction, Edit.lift_ok_fault, pure_bind]
    exact consed.createTable_of_live family live hkind ht

/-- Two live gates never have the same key. -/
theorem eq_of_key (consed : net.HashConsed) {key : GateKey} {flip flip' : Bool} {h : Nat}
    (liveG : net.isLive g = true) (liveH : net.isLive h = true)
    (hg : net.canonical g = .ok (.gate key flip)) (hh : net.canonical h = .ok (.gate key flip')) :
    g = h := by
  have entry {m : Nat} {a : Bool} (live : net.isLive m = true)
      (hm : net.canonical m = .ok (.gate key a)) : net.gateTable.get? key = some ⟨m, a⟩ := by
    obtain ⟨f, l, hkind, -⟩ := canonical_eq_ok.1 hm
    obtain ⟨key', b, hc, hget⟩ := consed.hashed m live ⟨f, l, hkind⟩
    cases hm.symm.trans hc
    exact hget
  have same := (entry liveG hg).symm.trans (entry liveH hh)
  exact congrArg Signal.node (Option.some.inj same)

end HashConsed

end Network

open Network Workspace

variable {w : Workspace} {id : Nat} {net : Network}

namespace View

/-- An edit that changes nothing in the network of a view changes no network. -/
theorem create_of_unchanged {α : Type} {e : Edit α} {a : α} {v : View}
    (hnet : w.networks[v.networkId]? = some net) (run : e.run net = .ok a net) :
    ∃ w', (v.create e).run w = .ok a w' ∧ w'.networks = w.networks := by
  have unchanged : w.networks.setIfInBounds v.networkId net = w.networks := by
    obtain ⟨inBounds, rfl⟩ := Array.getElem?_eq_some_iff.1 hnet
    apply Array.ext_getElem?
    intro i
    rw [Array.getElem?_setIfInBounds]
    split
    · next heq => rw [← heq, Array.getElem?_eq_getElem inBounds]
    · rfl
  obtain ⟨indexes, created⟩ := create_run hnet run
  exact ⟨_, created, unchanged⟩

theorem cloneGate_run {v source : View} (hnet : w.networks[source.networkId]? = some net) (n : Nat)
    (fanins : List Signal) : (v.cloneGate source n fanins).run w
      = (v.create (Network.cloneGate net n fanins)).run w := by
  unfold View.cloneGate current
  simp only [bind_assoc, Edit.run_get_bind, network_eq_ok.2 hnet, Edit.lift_ok_fault, pure_bind]

end View

/-- The table is that of the live gates, each under its key and with its polarity.  Two live gates share
no key, and a gate over the fanins of a live one is that one. -/
theorem Workspace.Reachable.table_holds_live_gates (hw : w.Reachable)
    (hnet : w.networks[id]? = some net) :
    (∀ g, net.isLive g = true → net.IsGate g → ∃ key flip,
      net.canonical g = .ok (.gate key flip) ∧ net.gateTable.get? key = some ⟨g, flip⟩) ∧
    (∀ g h key flip flip', net.isLive g = true → net.isLive h = true →
      net.canonical g = .ok (.gate key flip) → net.canonical h = .ok (.gate key flip') → g = h) ∧
    (∀ key s, net.gateTable.get? key = some s →
      net.isLive s.node = true ∧ net.canonical s.node = .ok (.gate key s.complemented)) ∧
    ∀ g fanins, net.isLive g = true → net.IsGate g → net.fanins g = .ok fanins →
      (cloneGate net g fanins).run net = .ok (.ofNode g) net ∧
      ∀ v : View, v.networkId = id →
        ∃ w', (v.cloneGate v g fanins).run w = .ok (.ofNode g) w' ∧ w'.networks = w.networks := by
  have consed := (hw.sound id net hnet).hashConsed
  refine ⟨consed.hashed, ?_, consed.entered, ?_⟩
  · intro g h key flip flip' liveG liveH hg hh
    exact consed.eq_of_key liveG liveH hg hh
  · intro g fanins live gate hfanins
    have found := consed.cloneGate_of_live live gate hfanins
    refine ⟨found, ?_⟩
    rintro v rfl
    rw [View.cloneGate_run hnet]
    exact View.create_of_unchanged hnet found

/-- The majority gate of the sample is found again, although it was inverted. -/
theorem sample_gate_found_again : sample.Reachable ∧ sample.networks[0]? = some sampleNetwork ∧
    ∃ fanins, sampleNetwork.fanins 4 = .ok fanins ∧
      (cloneGate sampleNetwork 4 fanins).run sampleNetwork = .ok (.ofNode 4) sampleNetwork := by
  obtain ⟨-, -, -, again⟩ := reachable_sample.table_holds_live_gates getElem?_sample
  have live : sampleNetwork.isLive 4 = true := by decide +kernel
  have gate : sampleNetwork.kind? 4 = some (.gate .maj [⟨1, true⟩, ⟨2, true⟩, ⟨3, true⟩]) := by
    decide +kernel
  have hfanins : sampleNetwork.fanins 4 = .ok [⟨1, true⟩, ⟨2, true⟩, ⟨3, true⟩] := by
    decide +kernel
  exact ⟨reachable_sample, getElem?_sample, _, hfanins, (again 4 _ live ⟨_, _, gate⟩ hfanins).1⟩

end LogicNet
