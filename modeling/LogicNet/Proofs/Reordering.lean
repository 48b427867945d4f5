import LogicNet.Proofs.Primitives
import LogicNet.Proofs.Retention
import Mathlib.Data.List.Permutation

/-! # Sharing under reordered operands

What a primitive has made is found again by the same call with its operands in another order, at once and
after any creations that follow.  Where edges carry polarities, the dual call finds the complement.
-/

namespace LogicNet

open Network Workspace

variable {net net' net'' : Network} {a b c a' b' c' s : Signal}

/-- The same call with its operands in another order.  The children of a table may be moved if only the
number of true ones counts. -/
inductive Primitive.Reorders : Primitive → Primitive → Prop
  | not (a : Signal) : Reorders (.not a) (.not a)
  | and {a b a' b' : Signal} (perm : [a', b'].Perm [a, b]) : Reorders (.and a' b') (.and a b)
  | or {a b a' b' : Signal} (perm : [a', b'].Perm [a, b]) : Reorders (.or a' b') (.or a b)
  | nand {a b a' b' : Signal} (perm : [a', b'].Perm [a, b]) : Reorders (.nand a' b') (.nand a b)
  | xor {a b a' b' : Signal} (perm : [a', b'].Perm [a, b]) : Reorders (.xor a' b') (.xor a b)
  | maj {a b c a' b' c' : Signal} (perm : [a', b', c'].Perm [a, b, c]) :
    Reorders (.maj a' b' c') (.maj a b c)
  | xor3 {a b c a' b' c' : Nat} (perm : [a', b', c'].Perm [a, b, c]) :
    Reorders (.xor3 a' b' c') (.xor3 a b c)
  | table {nodes nodes' : List Nat} {t : TruthTable}
    (moved : nodes' = nodes ∨ t.CountsOnly ∧ nodes'.Perm nodes) :
    Reorders (.table nodes' t) (.table nodes t)

/-- The call for the dual function over the complements of the operands, in whatever order. -/
inductive Primitive.Dual (family : Family) : Primitive → Primitive → Prop
  | maj {a b c a' b' c' : Signal} (mig : family = .mig)
    (perm : [a', b', c'].Perm [a.complement, b.complement, c.complement]) :
    Dual family (.maj a' b' c') (.maj a b c)
  | and {a b a' b' : Signal} (edges : family.hasComplementedEdges = true)
    (perm : [a', b'].Perm [a.complement, b.complement]) : Dual family (.and a' b') (.or a b)
  | or {a b a' b' : Signal} (edges : family.hasComplementedEdges = true)
    (perm : [a', b'].Perm [a.complement, b.complement]) : Dual family (.or a' b') (.and a b)

namespace Network

/-- Literals name their tables, those of the functions that every network of tables has too. -/
structure Interned (net : Network) : Prop where
  wellFormed : net.functions.WellFormed
  seeded : net.family = .klut → FunctionCache.seeded.Extends net.functions

theorem WellFormed.interned (wf : net.WellFormed) : net.Interned := ⟨wf.functions, wf.seeded⟩

namespace Retains

theorem interned (h : Retains net net') (interned : net.Interned) : net'.Interned where
  wellFormed := h.wellFormed interned.wellFormed
  seeded family := (interned.seeded (h.family.symm.trans family)).trans h.functions

theorem constant (h : Retains net net') (value : Bool) : net'.constant value = net.constant value := by
  rw [Network.constant, Network.constant, h.family]

end Retains

/-- The second edit finds what the first one makes, in whatever network retains it, and changes nothing. -/
def Repeats {α : Type} (net : Network) (e e' : Edit α) : Prop :=
  ∀ a net', e.run net = .ok a net' →
    Retains net net' ∧ ∀ net'', Retains net' net'' → e'.run net'' = .ok a net''

namespace Repeats

section combinators

variable {α β : Type} {e e' : Edit α} {f f' : α → Edit β}

theorem pure (net : Network) (a : α) : Repeats net (Pure.pure a : Edit α) (Pure.pure a) := by
  rintro _ _ ⟨⟩
  exact ⟨.refl net, fun _ _ => rfl⟩

theorem bind (h : Repeats net e e') (next : ∀ a net', e.run net = .ok a net' → Retains net net' →
    Repeats net' (f a) (f' a)) : Repeats net (e >>= f) (e' >>= f') := by
  intro b net' run
  obtain ⟨a, net₁, first, rest⟩ := Edit.run_bind_eq_ok.1 run
  obtain ⟨retains, again⟩ := h a net₁ first
  obtain ⟨retains', again'⟩ := next a net₁ first retains b net' rest
  refine ⟨retains.trans retains', fun net'' later => ?_⟩
  rw [Edit.run_bind_ok (again net'' (retains'.trans later)), again' net'' later]

/-- An edit that looks at the network is repeated in one that has retained what it looks at. -/
theorem get_bind {f f' : Network → Edit β}
    (retains : ∀ {b : β} {net' : Network}, (f net).run net = .ok b net' → Retains net net')
    (h : ∀ later, Retains net later → Repeats net (f net) (f' later)) :
    Repeats net (get >>= f) (get >>= f') := by
  intro b net' run
  refine ⟨retains run, fun net'' later => ?_⟩
  exact (h net'' ((retains run).trans later) b net' run).2 net'' later

theorem refusal_bind {x x' : Except NetworkError α}
    (h : ∀ a, x = .ok a → x' = .ok a ∧ Repeats net (f a) (f' a)) :
    Repeats net ((liftM x : Edit α) >>= f) ((liftM x' : Edit α) >>= f') := by
  cases hx : x with
  | ok a =>
    obtain ⟨hx', rest⟩ := h a hx
    rw [hx']
    exact rest
  | error cause => exact fun _ _ run => by cases run

theorem requireFamily_bind {family : Family} {f f' : Unit → Edit β}
    (h : net.family = family → Repeats net (f ()) (f' ())) :
    Repeats net (requireFamily family >>= f) (requireFamily family >>= f') := by
  intro b net' run
  by_cases hfamily : net.family = family
  · rw [Edit.run_bind_ok (Edit.run_requireFamily hfamily)] at run
    obtain ⟨retains, again⟩ := h hfamily b net' run
    refine ⟨retains, fun net'' later => ?_⟩
    rw [Edit.run_bind_ok (Edit.run_requireFamily ((retains.trans later).family.trans hfamily)),
      again net'' later]
  · rw [Edit.run_bind_error (Edit.run_requireFamily_of_ne hfamily)] at run
    cases run

end combinators

section gates

variable {g : GateFunction} {l l' : List Signal} {f : FunctionLiteral} {nodes nodes' : List Nat}
  {t : TruthTable}

theorem hashCons (alike : Canonical.Alike net.functions g false l' l) :
    Repeats net (hashCons g l) (hashCons g l') := by
  intro s net' run
  have retains := (retaining_hashCons g l).retains run
  refine ⟨retains, fun net'' later => ?_⟩
  rw [hashCons_run_of_alike run later (alike.of_extends (retains.trans later).functions),
    Signal.complementIf_false]

theorem conjunction (net : Network) (perm : l'.Perm l) :
    Repeats net (Network.hashCons .and l) (Network.hashCons .and l') :=
  hashCons ⟨rfl, perm⟩

theorem majority (net : Network) (perm : l'.Perm l) :
    Repeats net (Network.hashCons .maj l) (Network.hashCons .maj l') :=
  hashCons (g := .maj) (show l'.Perm (l.map (·.complementIf false)) by simpa using perm)

theorem tableGate (moved : nodes' = nodes ∨
      net.functions.isSymmetric f = .ok true ∧ nodes'.Perm nodes) :
    Repeats net (tableGate f nodes) (tableGate f nodes') :=
  hashCons ⟨rfl, moved.imp (congrArg _) fun ⟨symmetric, perm⟩ => ⟨symmetric, perm.map _⟩⟩

/-- A table that was interned is found under its literal. -/
theorem internFunction (interned : net.Interned) (t : TruthTable) :
    Repeats net (internFunction t) (internFunction t) := by
  intro f net' run
  have retains := (retaining_internFunction t).retains run
  refine ⟨retains, fun net'' later => ?_⟩
  have named := later.functions.get (get_of_internFunction_run run)
  have wf := ((retains.trans later).interned interned).wellFormed
  rw [Network.internFunction, Edit.run_get_bind, FunctionCache.insert_get wf named]
  rfl

theorem intern_tableGate (interned : net.Interned)
    (moved : nodes' = nodes ∨ t.CountsOnly ∧ nodes'.Perm nodes) :
    Repeats net (Network.internFunction t >>= fun f => Network.tableGate f nodes)
      (Network.internFunction t >>= fun f => Network.tableGate f nodes') := by
  refine (internFunction interned t).bind fun f net' run retains => tableGate (moved.imp_right ?_)
  rintro ⟨counts, perm⟩
  refine ⟨?_, perm⟩
  rw [(retains.interned interned).wellFormed.isSymmetric_of_get (get_of_internFunction_run run),
    t.isSymmetric_iff_countsOnly.2 counts]

theorem wordGate (interned : net.Interned) {word : BitVec 64} {n : Nat} (length : l.length = n)
    (symmetric : (TruthTable.word n word).isSymmetric = true) (perm : l'.Perm l) :
    Repeats net (wordGate word l) (wordGate word l') := by
  rw [Network.wordGate, Network.wordGate, perm.length_eq, length]
  exact intern_tableGate interned
    (.inr ⟨(TruthTable.isSymmetric_iff_countsOnly _).1 symmetric, perm.map _⟩)

end gates

theorem createNot (net : Network) (a : Signal) : Repeats net (createNot a) (createNot a) := by
  refine get_bind (retaining_createNot a).retains fun later retains => ?_
  rw [retains.family]
  cases net.family with
  | klut => exact tableGate (.inl rfl)
  | _ => exact pure net _

theorem createAnd (interned : net.Interned) (perm : [a', b'].Perm [a, b]) :
    Repeats net (createAnd a b) (createAnd a' b') := by
  refine get_bind (retaining_createAnd a b).retains fun later retains => ?_
  rw [retains.family, retains.constant]
  cases family : net.family with
  | aig => exact conjunction net perm
  | mig => exact majority net (perm.cons _)
  | klut =>
    have symmetric : FunctionCache.seeded.isSymmetric .conjunction = .ok true := by decide +kernel
    exact tableGate (.inr ⟨(interned.seeded family).isSymmetric symmetric, perm.map Signal.node⟩)

theorem createOr (interned : net.Interned) (perm : [a', b'].Perm [a, b]) :
    Repeats net (createOr a b) (createOr a' b') := by
  refine get_bind (retaining_createOr a b).retains fun later retains => ?_
  rw [retains.family, retains.constant]
  cases net.family with
  | aig => exact (conjunction net (perm.map Signal.complement)).bind fun _ net' _ _ => pure net' _
  | mig => exact majority net (perm.cons _)
  | klut => exact wordGate (n := 2) interned rfl (by decide +kernel) perm

theorem createNand (interned : net.Interned) (perm : [a', b'].Perm [a, b]) :
    Repeats net (createNand a b) (createNand a' b') :=
  (createAnd interned perm).bind fun s net' _ _ => createNot net' s

/-- Exchanging the operands exchanges the two conjunctions. -/
theorem composedXor (interned : net.Interned) (perm : [a', b'].Perm [a, b]) :
    Repeats net
      (do
        let left ← Network.createAnd a b.complement
        let right ← Network.createAnd a.complement b
        Network.createOr left right)
      (do
        let left ← Network.createAnd a' b'.complement
        let right ← Network.createAnd a'.complement b'
        Network.createOr left right) := by
  rcases List.perm_pair.1 perm with same | swapped
  · cases same
    refine (createAnd interned (.refl _)).bind fun left net₁ _ retains₁ => ?_
    have interned₁ := retains₁.interned interned
    refine (createAnd interned₁ (.refl _)).bind fun right net₂ _ retains₂ => ?_
    exact createOr (retains₂.interned interned₁) (.refl _)
  · cases swapped
    intro s net₃ run
    obtain ⟨left, net₁, run₁, run⟩ := Edit.run_bind_eq_ok.1 run
    obtain ⟨right, net₂, run₂, run₃⟩ := Edit.run_bind_eq_ok.1 run
    obtain ⟨retains₁, againLeft⟩ := createAnd interned (.swap a b.complement []) left net₁ run₁
    have interned₁ := retains₁.interned interned
    obtain ⟨retains₂, againRight⟩ := createAnd interned₁ (.swap a.complement b []) right net₂ run₂
    obtain ⟨retains₃, again⟩ :=
      createOr (retains₂.interned interned₁) (.swap left right []) s net₃ run₃
    refine ⟨(retains₁.trans retains₂).trans retains₃, fun net'' later => ?_⟩
    rw [Edit.run_bind_ok (againRight net'' (retains₃.trans later)),
      Edit.run_bind_ok (againLeft net'' ((retains₂.trans retains₃).trans later)), again net'' later]

theorem createXor (interned : net.Interned) (perm : [a', b'].Perm [a, b]) :
    Repeats net (createXor a b) (createXor a' b') := by
  refine get_bind (retaining_createXor a b).retains fun later retains => ?_
  rw [retains.family]
  cases net.family with
  | klut => exact wordGate (n := 2) interned rfl (by decide +kernel) perm
  | _ => exact composedXor interned perm

theorem createMaj (interned : net.Interned) (perm : [a', b', c'].Perm [a, b, c]) :
    Repeats net (createMaj a b c) (createMaj a' b' c') := by
  refine get_bind (retaining_createMaj a b c).retains fun later retains => ?_
  rw [retains.family, Signal.sort3_eq_of_perm perm]
  cases net.family with
  | aig =>
    refine (createAnd interned (.refl _)).bind fun both net₁ _ retains₁ => ?_
    have interned₁ := retains₁.interned interned
    refine (createOr interned₁ (.refl _)).bind fun either net₂ _ retains₂ => ?_
    have interned₂ := retains₂.interned interned₁
    refine (createAnd interned₂ (.refl _)).bind fun withLast net₃ _ retains₃ => ?_
    exact createOr (retains₃.interned interned₂) (.refl _)
  | mig => exact majority net perm
  | klut => exact wordGate (n := 3) interned rfl (by decide +kernel) perm

theorem createXor3 (interned : net.Interned) {x y z x' y' z' : Nat}
    (perm : [x', y', z'].Perm [x, y, z]) : Repeats net (createXor3 x y z) (createXor3 x' y' z') :=
  requireFamily_bind fun _ => wordGate (n := 3) interned rfl (by decide +kernel) (perm.map Signal.ofNode)

theorem createTable (interned : net.Interned) {nodes nodes' : List Nat} {t : TruthTable}
    (moved : nodes' = nodes ∨ t.CountsOnly ∧ nodes'.Perm nodes) :
    Repeats net (createTable nodes t) (createTable nodes' t) := by
  have perm : nodes'.Perm nodes := moved.elim List.Perm.of_eq And.right
  refine requireFamily_bind fun family => get_bind (fun run => ?_) fun later retains =>
    refusal_bind fun _ checked => ?_
  · exact (retaining_createTable nodes t).retains
      ((Edit.run_bind_ok (Edit.run_requireFamily family) _).trans run)
  · obtain ⟨hvars, bounded, live⟩ := checkTable_eq_ok.1 checked
    refine ⟨checkTable_eq_ok.2 ⟨hvars.trans perm.length_eq.symm, perm.length_eq ▸ bounded,
      fun n hn => retains.live n (live n (perm.mem_iff.1 hn))⟩, ?_⟩
    rw [retains.constant, perm.isEmpty_eq]
    split
    · exact pure net _
    · exact intern_tableGate interned moved

end Repeats

section dual

theorem createAnd_run_of_aig (family : net.family = .aig) :
    (createAnd a b).run net = (hashCons .and [a, b]).run net := by
  rw [createAnd, Edit.run_get_bind, family]

theorem createAnd_run_of_mig (family : net.family = .mig) :
    (createAnd a b).run net = (hashCons .maj [⟨0, false⟩, a, b]).run net := by
  rw [createAnd, Edit.run_get_bind, family, constant, family]
  rfl

theorem createOr_run_of_aig (family : net.family = .aig) : (createOr a b).run net
    = (hashCons .and [a.complement, b.complement] >>= fun s => pure s.complement).run net := by
  rw [createOr, Edit.run_get_bind, family]

theorem createOr_run_of_mig (family : net.family = .mig) :
    (createOr a b).run net = (hashCons .maj [⟨0, true⟩, a, b]).run net := by
  rw [createOr, Edit.run_get_bind, family, constant, family]
  rfl

theorem createMaj_run_of_mig (family : net.family = .mig) :
    (createMaj a b c).run net = (hashCons .maj [a, b, c]).run net := by
  rw [createMaj, Edit.run_get_bind, family]

/-- Fanins and their complements make the same majority gate, up to its own complement. -/
theorem majority_run_of_complemented {l l' : List Signal} (run : (hashCons .maj l).run net = .ok s net')
    (later : Retains net' net'') (perm : l'.Perm (l.map Signal.complement)) :
    (hashCons .maj l').run net'' = .ok s.complement net'' := by
  have alike : Canonical.Alike net''.functions .maj true l' l := by
    simpa [Canonical.Alike] using perm
  rw [hashCons_run_of_alike run later alike, Signal.complementIf_true]

/-- The complement of a disjunction is the conjunction of the complements. -/
theorem createAnd_run_of_dual (edges : net.family.hasComplementedEdges = true)
    (run : (createOr a b).run net = .ok s net') (later : Retains net' net'')
    (perm : [a', b'].Perm [a.complement, b.complement]) :
    (createAnd a' b').run net'' = .ok s.complement net'' := by
  have family := ((retaining_createOr a b).retains run |>.trans later).family
  cases hfamily : net.family with
  | aig =>
    rw [createOr_run_of_aig hfamily] at run
    obtain ⟨u, net₁, made, returned⟩ := Edit.run_bind_eq_ok.1 run
    cases returned
    rw [createAnd_run_of_aig (family.trans hfamily), Signal.complement_complement]
    exact (Repeats.conjunction net perm u _ made).2 net'' later
  | mig =>
    rw [createOr_run_of_mig hfamily] at run
    rw [createAnd_run_of_mig (family.trans hfamily)]
    exact majority_run_of_complemented run later (perm.cons ⟨0, false⟩)
  | klut =>
    rw [hfamily] at edges
    cases edges

/-- The complement of a conjunction is the disjunction of the complements. -/
theorem createOr_run_of_dual (edges : net.family.hasComplementedEdges = true)
    (run : (createAnd a b).run net = .ok s net') (later : Retains net' net'')
    (perm : [a', b'].Perm [a.complement, b.complement]) :
    (createOr a' b').run net'' = .ok s.complement net'' := by
  have family := ((retaining_createAnd a b).retains run |>.trans later).family
  cases hfamily : net.family with
  | aig =>
    rw [createAnd_run_of_aig hfamily] at run
    have back : [a'.complement, b'.complement].Perm [a, b] := by
      simpa using perm.map Signal.complement
    rw [createOr_run_of_aig (family.trans hfamily),
      Edit.run_bind_ok ((Repeats.conjunction net back s _ run).2 net'' later)]
    rfl
  | mig =>
    rw [createAnd_run_of_mig hfamily] at run
    rw [createOr_run_of_mig (family.trans hfamily)]
    exact majority_run_of_complemented run later (perm.cons ⟨0, true⟩)
  | klut =>
    rw [hfamily] at edges
    cases edges

end dual

end Network

namespace Primitive

variable {p q : Primitive}

theorem Reorders.repeats (h : q.Reorders p) (interned : net.Interned) : Repeats net p.edit q.edit := by
  cases h with
  | not a => exact .createNot net a
  | and perm => exact .createAnd interned perm
  | or perm => exact .createOr interned perm
  | nand perm => exact .createNand interned perm
  | xor perm => exact .createXor interned perm
  | maj perm => exact .createMaj interned perm
  | xor3 perm => exact .createXor3 interned perm
  | table moved => exact .createTable interned moved

/-- The dual call over the complements gives the complement. -/
theorem Dual.run (h : q.Dual net.family p) (run : p.edit.run net = .ok s net')
    (later : Retains net' net'') : q.edit.run net'' = .ok s.complement net'' := by
  cases h with
  | maj mig perm =>
    have family := ((retaining_createMaj ..).retains run |>.trans later).family
    rw [edit, createMaj_run_of_mig mig] at run
    rw [edit, createMaj_run_of_mig (family.trans mig)]
    exact majority_run_of_complemented run later perm
  | and edges perm => exact createAnd_run_of_dual edges run later perm
  | or edges perm => exact createOr_run_of_dual edges run later perm

end Primitive

variable {w : Workspace} {id : Nat} {p : Primitive}

/-- What a primitive has made is shared: the same call, with its operands in whatever order, gives the same
signal and changes nothing, and the dual call gives the complement. -/
theorem Workspace.Reachable.sharing_complete (hw : w.Reachable) (hnet : w.networks[id]? = some net)
    (made : p.edit.run net = .ok s net') (later : net'.Extended net'') :
    (∀ q : Primitive, q.Reorders p → q.edit.run net'' = .ok s net'') ∧
    ∀ q : Primitive, q.Dual net.family p → q.edit.run net'' = .ok s.complement net'' := by
  have interned := (hw.sound id net hnet).hashConsed.toWellFormed.interned
  refine ⟨fun q reorders => ?_, fun q dual => dual.run made later.retains⟩
  obtain ⟨-, again⟩ := reorders.repeats interned s net' made
  exact again net'' later.retains

/-- A conjunction over two inputs of the sample is found again after another input was made. -/
theorem sample_conjunction_shared : sample.Reachable ∧ sample.networks[0]? = some sampleNetwork ∧
    ∃ s net' net'', (Primitive.and (.ofNode 2) (.ofNode 3)).edit.run sampleNetwork = .ok s net' ∧
      net'.Extended net'' ∧ net'.size < net''.size ∧
      (Primitive.and (.ofNode 3) (.ofNode 2)).edit.run net'' = .ok s net'' ∧
      (Primitive.or ⟨2, true⟩ ⟨3, true⟩).edit.run net'' = .ok s.complement net'' := by
  have live : ∀ n ∈ [2, 3], sampleNetwork.isLive n = true := by decide +kernel
  have admissible : (Primitive.and (.ofNode 2) (.ofNode 3)).Admissible sampleNetwork := by
    refine ⟨fun s hs => ?_, fun h => by cases h⟩
    obtain ⟨n, hn, rfl⟩ := List.mem_map.1 (show s ∈ [2, 3].map Signal.ofNode from hs)
    exact ⟨live n hn, fun h => by cases h⟩
  have consed := (reachable_sample.sound 0 _ getElem?_sample).hashConsed
  obtain ⟨s, net', made, -⟩ := admissible.computes consed trivial
  have another : Call.input.edit.run net' = .ok () net'.withInput := Edit.run_discard createInput
  have later : net'.Extended net'.withInput := .single ⟨.input, rfl, .done another⟩
  have grown : net'.size < net'.withInput.size := by
    rw [size_withInput]
    exact Nat.lt_succ_self _
  have family : sampleNetwork.family.hasComplementedEdges = true := by decide +kernel
  obtain ⟨shared, dual⟩ := reachable_sample.sharing_complete getElem?_sample made later
  exact ⟨reachable_sample, getElem?_sample, s, net', net'.withInput, made, later, grown,
    shared _ (.and (.swap _ _ _)), dual _ (.or family (.refl _))⟩

end LogicNet
