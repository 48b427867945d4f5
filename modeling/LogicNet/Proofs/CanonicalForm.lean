import LogicNet.Gate
import LogicNet.Proofs.Computation
import LogicNet.Proofs.SortedFanins

/-! # Canonical forms

Fanins are alike for a gate function if they differ by what the canonical form forgets: the order,
where it does not matter, and for majority the polarity of all three.  Two lists of fanins have one
key exactly when they are alike, and alike they stay when signals are renamed.
-/

namespace LogicNet

namespace Signal

/-- A renaming of signals that keeps complements. -/
def Renaming (σ : Signal → Signal) : Prop := ∀ s, σ s.complement = (σ s).complement

theorem Renaming.complementIf {σ : Signal → Signal} (h : Renaming σ) (s : Signal) (flip : Bool) :
    σ (s.complementIf flip) = (σ s).complementIf flip := by
  cases flip with
  | false => simp
  | true => simpa using h s

theorem eq_complementIf_of_node_eq {s t : Signal} (h : s.node = t.node) :
    s = t.complementIf (s.complemented ^^ t.complemented) := by
  obtain ⟨m, p⟩ := s
  obtain ⟨n, q⟩ := t
  obtain rfl : m = n := h
  cases p <;> cases q <;> rfl

@[simp] theorem complementIf_complemented (s : Signal) (flip : Bool) :
    (s.complementIf flip).complemented = (s.complemented ^^ flip) := rfl

theorem Renaming.node_eq {σ : Signal → Signal} (h : Renaming σ) {s t : Signal}
    (hnode : s.node = t.node) : (σ s).node = (σ t).node := by
  rw [eq_complementIf_of_node_eq hnode, h.complementIf, complementIf_node]

theorem Renaming.complemented_eq_iff {σ : Signal → Signal} (h : Renaming σ) {s t : Signal}
    (hnode : s.node = t.node) :
    (σ s).complemented = (σ t).complemented ↔ s.complemented = t.complemented := by
  have hs := congrArg σ (eq_complementIf_of_node_eq hnode)
  rw [h.complementIf] at hs
  rw [hs, complementIf_complemented]
  cases s.complemented <;> cases t.complemented <;> simp

/-- Two signals can be put into ascending order of nodes. -/
theorem exists_perm_of_two (a b : Signal) : ∃ x y, [a, b].Perm [x, y] ∧ x.node ≤ y.node := by
  rcases Nat.le_total a.node b.node with h | h
  · exact ⟨a, b, .refl _, h⟩
  · exact ⟨b, a, .swap b a [], h⟩

/-- Three signals either have two on one node, or can be put into ascending order of nodes. -/
theorem exists_perm_of_three (a b c : Signal) :
    (∃ x y z, [a, b, c].Perm [x, y, z] ∧ x.node = y.node) ∨
      ∃ x y z, [a, b, c].Perm [x, y, z] ∧ x.node < y.node ∧ y.node < z.node := by
  have hsort := sort3_eq_sort a b c
  generalize sort3 a b c = sorted at hsort
  obtain ⟨x, y, z⟩ := sorted
  have hperm : [a, b, c].Perm [x, y, z] := hsort ▸ (sort_perm [a, b, c]).symm
  have hsorted : [x, y, z].Pairwise (· ≤ ·) := hsort ▸ pairwise_sort [a, b, c]
  simp only [List.pairwise_cons, List.mem_cons, List.not_mem_nil, or_false, forall_eq_or_imp,
    forall_eq, le_iff] at hsorted
  obtain ⟨⟨hxy, -⟩, hyz, -⟩ := hsorted
  rcases hxy with hxy | ⟨hxy, -⟩
  · rcases hyz with hyz | ⟨hyz, -⟩
    · exact .inr ⟨x, y, z, hperm, hxy, hyz⟩
    · have rotate : ([x] ++ [y, z]).Perm ([y, z] ++ [x]) := List.perm_append_comm
      exact .inl ⟨y, z, x, hperm.trans rotate, hyz⟩
  · exact .inl ⟨x, y, z, hperm, hxy⟩

end Signal

namespace Canonical

/-- The canonical form of the complement. -/
def complementIf (c : Canonical) (flip : Bool) : Canonical :=
  match c with
  | .gate key b => .gate key (b ^^ flip)
  | .trivial s => .trivial (s.complementIf flip)

@[simp] theorem complementIf_false (c : Canonical) : c.complementIf false = c := by
  cases c <;> simp [complementIf]

theorem ofAnd_of_perm {a b a' b' : Signal} (h : [a, b].Perm [a', b']) : ofAnd a b = ofAnd a' b' := by
  rw [ofAnd, ofAnd, Signal.sort2_eq_of_perm h]

theorem ofMaj_of_perm {a b c a' b' c' : Signal} (h : [a, b, c].Perm [a', b', c']) :
    ofMaj a b c = ofMaj a' b' c' := by
  rw [ofMaj, ofMaj, Signal.sort3_eq_of_perm h]

theorem ofAnd_of_node_eq {a b : Signal} (h : a.node = b.node) :
    ofAnd a b = .trivial (if a.complemented = b.complemented then a else constant false) := by
  obtain ⟨m, p⟩ := a
  obtain ⟨n, q⟩ := b
  obtain rfl : m = n := h
  have ht : ¬ (true ≤ false) := by decide
  cases p <;> cases q <;> simp [ofAnd, Signal.sort2, Signal.le_iff, ht]

theorem ofAnd_of_node_eq_zero {a b : Signal} (h : a.node = 0) :
    ofAnd a b = .trivial (if a.complemented then b else constant false) := by
  by_cases hb : b.node = 0
  · rw [ofAnd_of_node_eq (h.trans hb.symm)]
    obtain ⟨m, p⟩ := a
    obtain ⟨n, q⟩ := b
    obtain rfl : m = 0 := h
    obtain rfl : n = 0 := hb
    cases p <;> cases q <;> rfl
  · have hpos : 0 < b.node := Nat.pos_of_ne_zero hb
    simp [ofAnd, Signal.sort2, Signal.le_iff, h, hpos, Ne.symm hb]

theorem ofAnd_of_lt {a b : Signal} (ha : a.node ≠ 0) (h : a.node < b.node) :
    ofAnd a b = .gate ⟨.and, [a, b]⟩ false := by
  simp [ofAnd, Signal.sort2, Signal.le_iff, h, ha, Nat.ne_of_lt h]

theorem ofMaj_of_node_eq {a b : Signal} (c : Signal) (h : a.node = b.node) :
    ofMaj a b c = .trivial (if a.complemented = b.complemented then a else c) := by
  obtain ⟨m, p⟩ := a
  obtain ⟨n, q⟩ := b
  obtain ⟨k, r⟩ := c
  obtain rfl : m = n := h
  have ht : ¬ (true ≤ false) := by decide
  rcases Nat.lt_trichotomy m k with hlt | rfl | hlt
  · cases p <;> cases q <;>
      simp [ofMaj, Signal.sort3, Signal.sort2, Signal.le_iff, ht, hlt, Nat.ne_of_lt hlt]
  · cases p <;> cases q <;> cases r <;>
      simp [ofMaj, Signal.sort3, Signal.sort2, Signal.le_iff, ht]
  · cases p <;> cases q <;>
      simp [ofMaj, Signal.sort3, Signal.sort2, Signal.le_iff, ht, Nat.lt_asymm hlt,
        Nat.ne_of_lt hlt, Nat.ne_of_gt hlt]

theorem ofMaj_of_lt {x y z : Signal} (hxy : x.node < y.node) (hyz : y.node < z.node) {flip : Bool}
    (hflip : flip = decide (2 ≤ [x, y, z].countP (·.complemented))) :
    ofMaj x y z = .gate ⟨.maj, [x, y, z].map (·.complementIf flip)⟩ flip := by
  simp [ofMaj, Signal.sort3, Signal.sort2, Signal.le_iff, hxy, hyz, Nat.ne_of_lt hxy,
    Nat.ne_of_lt hyz, hflip]

/-- Majority is self-dual. -/
theorem ofMaj_complement (a b c : Signal) :
    ofMaj a.complement b.complement c.complement = (ofMaj a b c).complementIf true := by
  rcases Signal.exists_perm_of_three a b c with ⟨x, y, z, hperm, hnode⟩ | ⟨x, y, z, hperm, hxy, hyz⟩
  · have hperm' := hperm.map Signal.complement
    simp only [List.map_cons, List.map_nil] at hperm'
    rw [ofMaj_of_perm hperm, ofMaj_of_perm hperm', ofMaj_of_node_eq z hnode,
      ofMaj_of_node_eq z.complement (by simpa using hnode)]
    cases hx : x.complemented <;> cases hy : y.complemented <;>
      simp [complementIf, Signal.complement, Signal.complementIf, hx, hy]
  · have hperm' := hperm.map Signal.complement
    simp only [List.map_cons, List.map_nil] at hperm'
    have hcount : decide (2 ≤ [x.complement, y.complement, z.complement].countP (·.complemented))
        = !decide (2 ≤ [x, y, z].countP (·.complemented)) := by
      cases hx : x.complemented <;> cases hy : y.complemented <;> cases hz : z.complemented <;>
        simp [Signal.complement, hx, hy, hz]
    rw [ofMaj_of_perm hperm, ofMaj_of_perm hperm', ofMaj_of_lt hxy hyz rfl,
      ofMaj_of_lt (by simpa using hxy) (by simpa using hyz) rfl, hcount]
    cases decide (2 ≤ [x, y, z].countP (·.complemented)) <;>
      simp [complementIf, Signal.complement, Signal.complementIf]

theorem ofMaj_complementIf (a b c : Signal) (flip : Bool) :
    ofMaj (a.complementIf flip) (b.complementIf flip) (c.complementIf flip)
      = (ofMaj a b c).complementIf flip := by
  cases flip with
  | false => simp
  | true => simpa using ofMaj_complement a b c

/-- Fanins over which a gate function gives one gate, or its complement if the flag is set. -/
def Alike (functions : FunctionCache) :
    GateFunction → Bool → List Signal → List Signal → Prop
  | .and, flip, l, l' => flip = false ∧ l.Perm l'
  | .maj, flip, l, l' => l.Perm (l'.map (·.complementIf flip))
  | .table f, flip, l, l' =>
    flip = false ∧ (l = l' ∨ functions.isSymmetric f = .ok true ∧ l.Perm l')

namespace Alike

variable {functions : FunctionCache} {g : GateFunction} {a b : Bool} {l l' l'' : List Signal}

theorem complementIf_perm (h : Alike functions g a l l') :
    l.Perm (l'.map (·.complementIf a)) := by
  cases g with
  | and =>
    obtain ⟨rfl, hperm⟩ := h
    simpa using hperm
  | maj => exact h
  | table f =>
    obtain ⟨rfl, rfl | ⟨-, hperm⟩⟩ := h
    · simp
    · simpa using hperm

theorem length_eq (h : Alike functions g a l l') : l.length = l'.length := by
  simpa using h.complementIf_perm.length_eq

/-- Only a majority is alike to the complement of one. -/
theorem eq_maj (h : Alike functions g true l l') : g = .maj := by
  cases g with
  | and => cases h.1
  | maj => rfl
  | table f => cases h.1

theorem symm (h : Alike functions g a l l') : Alike functions g a l' l := by
  cases g with
  | and => exact ⟨h.1, h.2.symm⟩
  | maj =>
    have back := h.symm.map (·.complementIf a)
    simpa [Alike, List.map_map, Function.comp_def, Signal.complementIf_complementIf] using back
  | table f =>
    refine ⟨h.1, ?_⟩
    rcases h.2 with rfl | ⟨hsymmetric, hperm⟩
    · exact .inl rfl
    · exact .inr ⟨hsymmetric, hperm.symm⟩

theorem trans (h : Alike functions g a l l') (h' : Alike functions g b l' l'') :
    Alike functions g (a ^^ b) l l'' := by
  cases g with
  | and =>
    obtain ⟨rfl, hperm⟩ := h
    obtain ⟨rfl, hperm'⟩ := h'
    exact ⟨rfl, hperm.trans hperm'⟩
  | maj =>
    have next := h'.map (·.complementIf a)
    simp only [List.map_map, Function.comp_def, Signal.complementIf_complementIf] at next
    rw [Bool.xor_comm]
    exact h.trans next
  | table f =>
    obtain ⟨rfl, hl⟩ := h
    obtain ⟨rfl, hl'⟩ := h'
    refine ⟨rfl, ?_⟩
    rcases hl with rfl | ⟨hsymmetric, hperm⟩
    · exact hl'
    · rcases hl' with rfl | ⟨-, hperm'⟩
      · exact .inr ⟨hsymmetric, hperm⟩
      · exact .inr ⟨hsymmetric, hperm.trans hperm'⟩

/-- Fanins that are alike stay alike when signals are renamed. -/
theorem map {σ : Signal → Signal} (hσ : Signal.Renaming σ) (h : Alike functions g a l l') :
    Alike functions g a (l.map σ) (l'.map σ) := by
  cases g with
  | and => exact ⟨h.1, h.2.map σ⟩
  | maj =>
    have hmap := List.Perm.map σ h
    simpa [Alike, List.map_map, Function.comp_def, hσ.complementIf] using hmap
  | table f =>
    refine ⟨h.1, ?_⟩
    rcases h.2 with rfl | ⟨hsymmetric, hperm⟩
    · exact .inl rfl
    · exact .inr ⟨hsymmetric, hperm.map σ⟩

end Alike

/-- The fanins of a key are alike to the fanins that it is the key of. -/
theorem alike_key {functions : FunctionCache} {g : GateFunction} {l : List Signal} {key : GateKey}
    {flip : Bool} (h : ofGate functions g l = .ok (.gate key flip)) :
    key.function = g ∧ Alike functions g flip l key.fanins := by
  match g, l with
  | .and, [a, b] =>
    obtain ⟨x, y, hperm, hle⟩ := Signal.exists_perm_of_two a b
    simp only [ofGate, ofAnd_of_perm hperm, Except.ok.injEq] at h
    rcases Nat.eq_or_lt_of_le hle with hxy | hxy
    · rw [ofAnd_of_node_eq hxy] at h
      cases h
    · by_cases hx : x.node = 0
      · rw [ofAnd_of_node_eq_zero hx] at h
        cases h
      · rw [ofAnd_of_lt hx hxy] at h
        cases h
        exact ⟨rfl, rfl, hperm⟩
  | .maj, [a, b, c] =>
    simp only [ofGate, Except.ok.injEq] at h
    rcases Signal.exists_perm_of_three a b c with ⟨x, y, z, hperm, hxy⟩ | ⟨x, y, z, hperm, hxy, hyz⟩
    · rw [ofMaj_of_perm hperm, ofMaj_of_node_eq z hxy] at h
      cases h
    · rw [ofMaj_of_perm hperm, ofMaj_of_lt hxy hyz rfl] at h
      cases h
      refine ⟨rfl, ?_⟩
      simpa [Alike, Signal.complementIf_complementIf] using hperm
  | .table f, l =>
    obtain ⟨symmetric, hsymmetric, h⟩ := bind_eq_ok.1 h
    cases h
    refine ⟨rfl, rfl, ?_⟩
    cases symmetric with
    | false => exact .inl rfl
    | true => exact .inr ⟨hsymmetric, (Signal.sort_perm l).symm⟩
  | .and, [] | .and, [_] | .and, _ :: _ :: _ :: _ => cases h
  | .maj, [] | .maj, [_] | .maj, [_, _] | .maj, _ :: _ :: _ :: _ :: _ => cases h

/-- Alike fanins have the same canonical form, up to the complement between them. -/
theorem ofGate_of_alike {functions : FunctionCache} {g : GateFunction} {flip : Bool}
    {l l' : List Signal} {c : Canonical} (h : Alike functions g flip l l')
    (hc : ofGate functions g l' = .ok c) : ofGate functions g l = .ok (c.complementIf flip) := by
  have hlength := h.length_eq
  match g, l', l with
  | .and, [a', b'], [a, b] =>
    obtain ⟨rfl, hperm⟩ := h
    cases hc
    simp [ofGate, ofAnd_of_perm hperm]
  | .maj, [a', b', c'], [a, b, c] =>
    have hperm : [a, b, c].Perm
        [a'.complementIf flip, b'.complementIf flip, c'.complementIf flip] := h
    cases hc
    simp only [ofGate, ofMaj_of_perm hperm, ofMaj_complementIf]
  | .table f, l', l =>
    obtain ⟨rfl, rfl | ⟨hsymmetric, hperm⟩⟩ := h
    · simpa using hc
    · rw [complementIf_false, ← hc]
      simp [ofGate, ofTable, hsymmetric, Signal.sort_eq_of_perm hperm]
  | .and, [], _ | .and, [_], _ | .and, _ :: _ :: _ :: _, _ => cases hc
  | .maj, [], _ | .maj, [_], _ | .maj, [_, _], _ | .maj, _ :: _ :: _ :: _ :: _, _ => cases hc

/-- A key is its own canonical form. -/
theorem ofGate_key {functions : FunctionCache} {g : GateFunction} {l : List Signal} {key : GateKey}
    {flip : Bool} (h : ofGate functions g l = .ok (.gate key flip)) :
    ofGate functions key.function key.fanins = .ok (.gate key false) := by
  obtain ⟨rfl, alike⟩ := alike_key h
  rw [ofGate_of_alike alike.symm h, complementIf, Bool.xor_self]

/-- A gate that needs no gate is one of its fanins, or the constant if it is a conjunction. -/
theorem mem_of_trivial {functions : FunctionCache} {g : GateFunction} {l : List Signal}
    {s : Signal} (h : ofGate functions g l = .ok (.trivial s)) :
    s ∈ l ∨ g = .and ∧ s = constant false := by
  match g, l with
  | .and, [a, b] =>
    obtain ⟨x, y, hperm, hle⟩ := Signal.exists_perm_of_two a b
    simp only [ofGate, ofAnd_of_perm hperm, Except.ok.injEq] at h
    rcases Nat.eq_or_lt_of_le hle with hxy | hxy
    · rw [ofAnd_of_node_eq hxy] at h
      cases h
      split
      · exact .inl (hperm.mem_iff.2 (by simp))
      · exact .inr ⟨rfl, rfl⟩
    · by_cases hx : x.node = 0
      · rw [ofAnd_of_node_eq_zero hx] at h
        cases h
        split
        · exact .inl (hperm.mem_iff.2 (by simp))
        · exact .inr ⟨rfl, rfl⟩
      · rw [ofAnd_of_lt hx hxy] at h
        cases h
  | .maj, [a, b, c] =>
    simp only [ofGate, Except.ok.injEq] at h
    rcases Signal.exists_perm_of_three a b c with ⟨x, y, z, hperm, hxy⟩ | ⟨x, y, z, hperm, hxy, hyz⟩
    · rw [ofMaj_of_perm hperm, ofMaj_of_node_eq z hxy] at h
      cases h
      refine .inl (hperm.mem_iff.2 ?_)
      split <;> simp
    · rw [ofMaj_of_perm hperm, ofMaj_of_lt hxy hyz rfl] at h
      cases h
  | .table f, l =>
    obtain ⟨symmetric, hsymmetric, h⟩ := bind_eq_ok.1 h
    cases h
  | .and, [] | .and, [_] | .and, _ :: _ :: _ :: _ => cases h
  | .maj, [] | .maj, [_] | .maj, [_, _] | .maj, _ :: _ :: _ :: _ :: _ => cases h

/-- A gate that needs no gate needs none when its signals are renamed. -/
theorem ofGate_map_of_trivial {functions : FunctionCache} {g : GateFunction} {l : List Signal}
    {s : Signal} {σ : Signal → Signal} (hσ : Signal.Renaming σ)
    (hzero : g = .and → σ (constant false) = constant false)
    (h : ofGate functions g l = .ok (.trivial s)) :
    ofGate functions g (l.map σ) = .ok (.trivial (σ s)) := by
  match g, l with
  | .and, [a, b] =>
    have hzero := hzero rfl
    simp only [ofGate, Except.ok.injEq] at h
    simp only [List.map_cons, List.map_nil, ofGate, Except.ok.injEq]
    obtain ⟨x, y, hperm, hle⟩ := Signal.exists_perm_of_two a b
    have hperm' := hperm.map σ
    simp only [List.map_cons, List.map_nil] at hperm'
    rw [ofAnd_of_perm hperm] at h
    rw [ofAnd_of_perm hperm']
    rcases Nat.eq_or_lt_of_le hle with hxy | hxy
    · rw [ofAnd_of_node_eq hxy] at h
      rw [ofAnd_of_node_eq (hσ.node_eq hxy)]
      cases h
      simp only [hσ.complemented_eq_iff hxy, apply_ite σ, hzero]
    · by_cases hx : x.node = 0
      · have hfix : σ x = x := by
          have hcomplement : x = (constant false).complementIf x.complemented := by
            obtain ⟨_, p⟩ := x
            obtain rfl := hx
            cases p <;> rfl
          rw [hcomplement, hσ.complementIf, hzero]
        rw [ofAnd_of_node_eq_zero hx] at h
        rw [ofAnd_of_node_eq_zero (by rw [hfix, hx]), hfix]
        cases h
        rw [apply_ite σ, hzero]
      · rw [ofAnd_of_lt hx hxy] at h
        cases h
  | .maj, [a, b, c] =>
    simp only [ofGate, Except.ok.injEq] at h
    simp only [List.map_cons, List.map_nil, ofGate, Except.ok.injEq]
    rcases Signal.exists_perm_of_three a b c with ⟨x, y, z, hperm, hxy⟩ | ⟨x, y, z, hperm, hxy, hyz⟩
    · have hperm' := hperm.map σ
      simp only [List.map_cons, List.map_nil] at hperm'
      rw [ofMaj_of_perm hperm, ofMaj_of_node_eq z hxy] at h
      rw [ofMaj_of_perm hperm', ofMaj_of_node_eq _ (hσ.node_eq hxy)]
      cases h
      simp only [hσ.complemented_eq_iff hxy, apply_ite σ]
    · rw [ofMaj_of_perm hperm, ofMaj_of_lt hxy hyz rfl] at h
      cases h
  | .table f, l =>
    obtain ⟨symmetric, hsymmetric, h⟩ := bind_eq_ok.1 h
    cases h
  | .and, [] | .and, [_] | .and, _ :: _ :: _ :: _ => cases h
  | .maj, [] | .maj, [_] | .maj, [_, _] | .maj, _ :: _ :: _ :: _ :: _ => cases h

end Canonical

end LogicNet
