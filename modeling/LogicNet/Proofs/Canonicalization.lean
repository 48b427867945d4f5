import LogicNet.Proofs.Interning
import LogicNet.Proofs.Workspaces

/-! # Laws of canonical forms

A canonical form has the value of the gate.  Operands whose order or common polarity does not matter have one
canonical form, operands with one key are related in no other way, and a key is the canonical form of itself.
-/

namespace LogicNet

namespace Canonical

variable {functions : FunctionCache} {g : GateFunction} {f : FunctionLiteral} {t : TruthTable}
  {l l' : List Signal} {c : Canonical} {key : GateKey} {flip flip' : Bool} {v : Nat → Bool}

/-- Value of a canonical form, given the values of nodes: that of the signal, or of the gate of the key,
complemented if the flag is set. -/
def value (functions : FunctionCache) (v : Nat → Bool) : Canonical → Bool
  | .gate key flip => key.function.value functions (key.fanins.map (Signal.value v)) ^^ flip
  | .trivial s => s.value v

theorem value_ofGate (wf : functions.WellFormed) (arity : functions.arity? g = some l.length)
    (hc : ofGate functions g l = .ok c) (hzero : g = .and → v 0 = false) :
    c.value functions v = g.value functions (l.map (Signal.value v)) := by
  cases c with
  | trivial s => exact (value_of_trivial hc hzero).symm
  | gate key flip =>
    obtain ⟨rfl, alike⟩ := alike_key hc
    exact (value_of_alike wf arity alike v).symm

/-- Operands with one key are alike, up to the complement between their flags. -/
theorem alike_of_key (h : ofGate functions g l = .ok (.gate key flip))
    (h' : ofGate functions g l' = .ok (.gate key flip')) : Alike functions g (flip ^^ flip') l l' :=
  (alike_key h).2.trans (alike_key h').2.symm

/-- Permuted operands of a symmetric table have one key. -/
theorem ofTable_of_perm (wf : functions.WellFormed) (ht : functions.get f = .ok t)
    (symmetric : t.isSymmetric = true) (perm : l.Perm l') :
    ofGate functions (.table f) l = ofGate functions (.table f) l' := by
  have marked := (wf.isSymmetric_of_get ht).trans (congrArg _ symmetric)
  have alike : Alike functions (.table f) false l l' := ⟨rfl, .inr ⟨marked, perm⟩⟩
  obtain ⟨key, hkey⟩ := exists_ofTable ht l'
  rw [hkey, ofGate_of_alike alike hkey, complementIf_false]

/-- What canonical forms are good for.  The operands of `complete` are alike in no other way than `Alike`
says: those of a conjunction are permuted, those of a majority are permuted and all complemented where the
flags differ, and those of a table are equal or, if it is symmetric, permuted. -/
structure Lawful (functions : FunctionCache) : Prop where
  defined : ∀ g (l : List Signal), functions.arity? g = some l.length → ∃ c, ofGate functions g l = .ok c
  cached : ∀ f t l, functions.get f = .ok t →
    ∃ key, ofGate functions (.table f) l = .ok (.gate key false)
  /-- Constants are folded in conjunctions only, so only these read the constant node. -/
  sound : ∀ g (l : List Signal) c, functions.arity? g = some l.length → ofGate functions g l = .ok c →
    ∀ v : Nat → Bool, (g = .and → v 0 = false) →
      c.value functions v = g.value functions (l.map (Signal.value v))
  and_comm : ∀ a b, ofGate functions .and [a, b] = ofGate functions .and [b, a]
  maj_perm : ∀ a b c a' b' c', [a, b, c].Perm [a', b', c'] →
    ofGate functions .maj [a, b, c] = ofGate functions .maj [a', b', c']
  maj_complement : ∀ a b c, ofGate functions .maj [a.complement, b.complement, c.complement]
    = (·.complementIf true) <$> ofGate functions .maj [a, b, c]
  table_perm : ∀ f t l l', functions.get f = .ok t → t.isSymmetric = true → l.Perm l' →
    ofGate functions (.table f) l = ofGate functions (.table f) l'
  complete : ∀ g l l' key flip flip', ofGate functions g l = .ok (.gate key flip) →
    ofGate functions g l' = .ok (.gate key flip') → Alike functions g (flip ^^ flip') l l'
  idempotent : ∀ g l key flip, ofGate functions g l = .ok (.gate key flip) →
    key.function = g ∧ ofGate functions g key.fanins = .ok (.gate key false)

theorem lawful (wf : functions.WellFormed) : Lawful functions where
  defined _ _ := exists_ofGate
  cached _ _ l ht := exists_ofTable ht l
  sound _ _ _ arity hc _ hzero := value_ofGate wf arity hc hzero
  and_comm a b := congrArg Except.ok (ofAnd_of_perm (.swap b a []))
  maj_perm _ _ _ _ _ _ perm := congrArg Except.ok (ofMaj_of_perm perm)
  maj_complement a b c := congrArg Except.ok (ofMaj_complement a b c)
  table_perm _ _ _ _ ht symmetric perm := ofTable_of_perm wf ht symmetric perm
  complete _ _ _ _ _ _ h h' := alike_of_key h h'
  idempotent _ _ _ _ h := by
    obtain ⟨rfl, -⟩ := alike_key h
    exact ⟨rfl, ofGate_key h⟩

/-- Two of three complemented operands are paid for by the flag. -/
example : ofGate .empty .maj [⟨3, true⟩, ⟨1, true⟩, ⟨2, false⟩]
    = .ok (.gate ⟨.maj, [⟨1, false⟩, ⟨2, true⟩, ⟨3, false⟩]⟩ true) := by decide

end Canonical

/-- Canonical forms are lawful over every cache that insertions make and over those of all networks. -/
theorem canonical_lawful :
    (∀ log functions, FunctionCache.History log functions → Canonical.Lawful functions) ∧
    ∀ (w : Workspace) (id : Nat) (net : Network), w.Reachable → w.networks[id]? = some net →
      Canonical.Lawful net.functions :=
  ⟨fun _ _ history => Canonical.lawful history.records.wellFormed, fun _ id net hw hnet =>
    Canonical.lawful (hw.sound id net hnet).hashConsed.functions⟩

open Workspace in
/-- The cache that networks of tables start with, and that of the sample, which is empty. -/
theorem sample_canonical_lawful : ∃ log, FunctionCache.History log .seeded ∧
    Canonical.Lawful .seeded ∧ sample.Reachable ∧ sample.networks[0]? = some sampleNetwork ∧
    Canonical.Lawful sampleNetwork.functions := by
  have history : FunctionCache.History _ .seeded :=
    ((FunctionCache.History.empty.insert (.const 0 false)).insert (.var 1 0)).insert (.word 2 0x8)
  exact ⟨_, history, canonical_lawful.1 _ _ history, reachable_sample, getElem?_sample,
    canonical_lawful.2 sample 0 sampleNetwork reachable_sample getElem?_sample⟩

end LogicNet
