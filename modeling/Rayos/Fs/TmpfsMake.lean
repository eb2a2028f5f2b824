import Rayos.Fs.TmpfsResolve

/-!
# Making files and directories

`tmpfs_creat` and `tmpfs_mkdir` walk along a path and add the nodes that are missing.

* `Grows` — nodes have been added and nothing else has happened; what was there is reached as before.
* `NamedRun` — a run of one of the two loops, with the component that each round is about.
* `namedRun_of_makeRun` — every run is such a run when no component gets another length by the conversion to
  `int`, or when the call succeeds: a component whose length has changed is never used up.
-/

namespace Rayos

open Program CString Tmpfs NameTree

variable {s s' : Tmpfs}

/-! ## Nodes that have been added -/

/-- Nodes have been added at the ends of the lists of children; nothing that was there has been put below
a new node. -/
structure Grows (s s' : Tmpfs) : Prop where
  old : ∀ x d, s.node x = some d →
    ∃ more, s'.node x = some { d with children := d.children ++ more } ∧ ∀ y ∈ more, s.node y = none
  new : ∀ x e y, s.node x = none → s'.node x = some e → y ∈ e.children → s.node y = none

namespace Grows

theorem of_node_eq (h : s'.node = s.node) : Grows s s' := by
  refine ⟨fun x d hd => ⟨[], ?_, nofun⟩, fun x e y hx he hy => ?_⟩
  · rw [h, hd, List.append_nil]
  · rw [h, hx] at he
    cases he

theorem none_of_none {x : Nat} (h : Grows s s') (hx : s'.node x = none) : s.node x = none := by
  cases hd : s.node x with
  | none => rfl
  | some d =>
      obtain ⟨more, he, -⟩ := h.old x d hd
      rw [hx] at he
      cases he

theorem trans {t : Tmpfs} (h : Grows s t) (h' : Grows t s') : Grows s s' := by
  refine ⟨fun x d hd => ?_, fun x e y hx he hy => ?_⟩
  · obtain ⟨more, hMore, hFresh⟩ := h.old x d hd
    obtain ⟨more', hMore', hFresh'⟩ := h'.old x _ hMore
    refine ⟨more ++ more', ?_, fun y hy => ?_⟩
    · rw [hMore']
      simp only [List.append_assoc]
    · rcases List.mem_append.mp hy with hy | hy
      · exact hFresh y hy
      · exact h.none_of_none (hFresh' y hy)
  · cases ht : t.node x with
    | none => exact h.none_of_none (h'.new x e y ht he hy)
    | some d =>
        obtain ⟨more, hMore, hFresh⟩ := h'.old x d ht
        rw [he, Option.some.injEq] at hMore
        rw [hMore] at hy
        rcases List.mem_append.mp hy with hy | hy
        · exact h.new x d y hx ht hy
        · exact h.none_of_none (hFresh y hy)

theorem alloc {cur td : Nat} {p : Str} {type : DentryType} (hLists : ListInv s)
    (hStep : AllocStep s s' cur p type td) : Grows s s' := by
  have hFree : s.node td = none := by rw [hStep.fresh]; exact hLists.free
  refine ⟨fun x d hd => ⟨if x = cur then [td] else [], ?_, fun y hy => ?_⟩, fun x e y hx he hy => ?_⟩
  · exact (hStep.node_eq_some hFree).mpr (Or.inr ⟨d, hd, rfl⟩)
  · split at hy
    · rw [List.mem_singleton.mp hy]
      exact hFree
    · cases hy
  · rcases (hStep.node_eq_some hFree).mp he with ⟨-, rfl⟩ | ⟨d, hd, -⟩
    · cases hy
    · rw [hx] at hd
      cases hd

/-- What was there has the same name, type, size and data. -/
theorem same {x : Nat} {d : TmpfsDentry} (h : Grows s s') (hd : s.node x = some d) :
    ∃ e, s'.node x = some e ∧ e.name = d.name ∧ e.type = d.type ∧ e.size = d.size ∧ e.data = d.data := by
  obtain ⟨more, he, -⟩ := h.old x d hd
  exact ⟨_, he, rfl, rfl, rfl, rfl⟩

theorem childNamed_mono (h : Grows s s') (hs : NamedTree s) (hs' : NamedTree s') {p x : Nat} {b : Str}
    (hFind : s.childNamed p b = some x) : s'.childNamed p b = some x := by
  obtain ⟨d, e, hd, hx, he, hName⟩ := hs.childNamed_eq_some.mp hFind
  obtain ⟨more, hd', -⟩ := h.old p d hd
  obtain ⟨e', he', hName', -⟩ := h.same he
  exact hs'.childNamed_eq_some.mpr
    ⟨_, e', hd', List.mem_append_left _ hx, he', hName'.trans hName⟩

theorem childNamed_back (h : Grows s s') (hs : NamedTree s) (hs' : NamedTree s') {p x : Nat} {b : Str}
    (hFind : s'.childNamed p b = some x) :
    s.node x = none ∨ (¬ s.node p = none ∧ s.childNamed p b = some x) := by
  obtain ⟨d', e', hd', hx, he', hName⟩ := hs'.childNamed_eq_some.mp hFind
  cases he : s.node x with
  | none => exact Or.inl rfl
  | some e =>
      right
      have hOldX : s.node x ≠ none := by rw [he]; nofun
      cases hd : s.node p with
      | none => exact absurd (h.new p d' x hd hd' hx) hOldX
      | some d =>
          obtain ⟨more, hMore, hFresh⟩ := h.old p d hd
          rw [hd', Option.some.injEq] at hMore
          rw [hMore] at hx
          obtain ⟨e'', he'', hSame, -⟩ := h.same he
          rw [he', Option.some.injEq] at he''
          refine ⟨nofun, hs.childNamed_eq_some.mpr ⟨d, e, hd, ?_, he, ?_⟩⟩
          · rcases List.mem_append.mp hx with hx | hx
            · exact hx
            · exact absurd (hFresh x hx) hOldX
          · rw [← hSame, ← he'']
            exact hName

/-- What was there is reached by the same names. -/
theorem reach_iff (h : Grows s s') (hs : NamedTree s) (hs' : NamedTree s') {x : Nat} (hx : s.Live x)
    (names : List Str) : s'.reach names = some x ↔ s.reach names = some x := by
  constructor
  · intro hReach
    have hBack : ∀ p b y, s'.childNamed p b = some y →
        s.node y = none ∨ (¬ s.node p = none ∧ s.childNamed p b = some y) :=
      fun p b y => h.childNamed_back hs hs'
    refine follow_back hBack hReach fun hNone => ?_
    rw [Live, hNone] at hx
    cases hx
  · exact follow_mono fun p b y => h.childNamed_mono hs hs'

end Grows

/-! ## The component a round is about -/

/-- `b` is the first component of `p`, `q` is `p` from there on and `rest` is what follows it. -/
structure Front (p q b rest : Str) : Prop where
  skip : q = skipSlashes p
  cut : q = b ++ rest
  good : b ≠ [] ∧ slash ∉ b
  edge : rest = [] ∨ rest.head? = some slash
  names : pathNames p = b :: pathNames rest

theorem front_of_skip {p : Str} (hp : skipSlashes p ≠ []) :
    Front p (skipSlashes p) ((skipSlashes p).take (blockLen (skipSlashes p)))
      ((skipSlashes p).drop (blockLen (skipSlashes p))) := by
  have hNames := pathNames_skipSlashes p
  have hHead := skipSlashes_head p
  obtain ⟨hLe, hSlash, hRest⟩ := blockLen_spec (skipSlashes p)
  have hPos := blockLen_pos hp hHead
  rw [pathNames_block hp hHead] at hNames
  refine ⟨rfl, (List.take_append_drop _ _).symm, ⟨fun hNil => ?_, hSlash⟩, hRest, hNames.symm⟩
  have hLength := congrArg List.length hNil
  rw [List.length_take, Nat.min_eq_left hLe, List.length_nil] at hLength
  omega

namespace Front

variable {p q b rest : Str}

theorem strchr_none (h : Front p q b rest) : strchr q slash = none ↔ rest = [] := by
  rw [h.cut, strchr_append_of_not_mem h.good.2, Option.map_eq_none_iff]
  constructor
  · intro hNone
    rcases h.edge with hNil | hHead
    · exact hNil
    · exact absurd (List.mem_of_head? hHead) (strchr_eq_none hNone)
  · intro hNil
    rw [hNil]
    rfl

theorem length (h : Front p q b rest) : b.length + rest.length = (skipSlashes p).length ∧ 0 < b.length := by
  rw [← h.skip, h.cut, List.length_append]
  exact ⟨rfl, List.length_pos_iff.mpr h.good.1⟩

/-- A path ends with a slash when what follows its first component does. -/
theorem getLast (h : Front p q b rest) :
    p.getLast? = some slash ↔ rest.getLast? = some slash := by
  obtain ⟨slashes, hCut, -, -⟩ := skipSlashes_cut p
  rw [hCut, ← h.skip, h.cut, ← List.append_assoc, List.getLast?_append]
  cases hLast : rest.getLast? with
  | some c => rfl
  | none =>
      have hNil : rest = [] := List.getLast?_eq_none_iff.mp hLast
      rw [Option.none_or, List.getLast?_append]
      cases hb : b.getLast? with
      | none => exact absurd (List.getLast?_eq_none_iff.mp hb) h.good.1
      | some c =>
          rw [Option.some_or, Option.some.injEq]
          constructor
          · intro hc
            exact absurd (hc ▸ List.mem_of_getLast? hb) h.good.2
          · nofun

end Front

/-- A path without components is made of slashes. -/
theorem pathNames_eq_nil {p : Str} : pathNames p = [] ↔ skipSlashes p = [] := by
  constructor
  · intro hNames
    by_contra hp
    rw [(front_of_skip hp).names] at hNames
    cases hNames
  · intro hp
    rw [← pathNames_skipSlashes, hp, pathNames_nil]

/-! ## Runs with their components -/

/-- A run of the loop of `tmpfs_creat` or `tmpfs_mkdir` in which every round is about the next component. -/
inductive NamedRun (rule : MakeRule) : Tmpfs → Nat → Str → Int → Tmpfs → Prop where
  | done {s : Tmpfs} {cur : Nat} {p : Str} (hNames : pathNames p = []) : NamedRun rule s cur p 0 s
  | failed {s s' : Tmpfs} {cur : Nat} {p q b rest : Str} {r : Int} (hFront : Front p q b rest)
      (hErr : r < 0) (hQuiet : Quiet s s') : NamedRun rule s cur p r s'
  | new {s t s' : Tmpfs} {cur td : Nat} {p q b rest : Str} {r : Int} (hFront : Front p q b rest)
      (hTree : NamedTree t) (hGrows : Grows s t)
      (hOnly : ∀ x, s.node x = none → t.Live x → x = td) (hAbsent : s.childNamed cur b = none)
      (hNew : t.node td = some ⟨b, b.length, rule.newType q, 0, some cur, [], none⟩)
      (hFind : t.childNamed cur b = some td) (hRest : NamedRun rule t td rest r s') :
      NamedRun rule s cur p r s'
  | old {s s' : Tmpfs} {cur child : Nat} {p q b rest : Str} {d : TmpfsDentry} {r : Int}
      (hFront : Front p q b rest) (hFind : s.childNamed cur b = some child)
      (hd : s.node child = some d) (hStops : ¬ rule.stops q d.type)
      (hRest : NamedRun rule s child rest r s') : NamedRun rule s cur p r s'

/-- No component of the path gets the length of a name by the conversion to `int`. -/
def NamesIntSized (p : Str) : Prop := ∀ b ∈ pathNames p, IntSized b.length

theorem length_of_mem_pathNames {n : Nat} {b : Str} :
    ∀ {p : Str}, p.length ≤ n → b ∈ pathNames p → b.length ≤ p.length := by
  induction n with
  | zero =>
      intro p hp hb
      rw [List.length_eq_zero_iff.mp (Nat.le_zero.mp hp), pathNames_nil] at hb
      cases hb
  | succ n ih =>
      intro p hp hb
      by_cases hNil : skipSlashes p = []
      · rw [pathNames_eq_nil.mpr hNil] at hb
        cases hb
      have hFront := front_of_skip hNil
      have hLength := hFront.length
      have hSkip := skipSlashes_length p
      rw [hFront.names] at hb
      rcases List.mem_cons.mp hb with rfl | hb
      · omega
      · have hRest := ih (by omega) hb
        omega

theorem namesIntSized_of_length {p : Str} (h : p.length < 2 ^ 32) : NamesIntSized p := fun _ hb =>
  Or.inl (lt_of_le_of_lt (length_of_mem_pathNames (le_refl _) hb) h)

theorem NamesIntSized.rest {p q b rest : Str} (h : NamesIntSized p) (hFront : Front p q b rest) :
    NamesIntSized rest := by
  intro c hc
  refine h c ?_
  rw [hFront.names]
  exact List.mem_cons_of_mem _ hc

/-- A component of the length 0 is never used up: the loop adds nodes without names until there is no
memory left. -/
theorem Tmpfs.MakeRun.stuck {rule : MakeRule} {cur : Nat} {p : Str} {r : Int}
    (h : MakeRun rule s cur p r s') (hLists : ListInv s) (hp : p ≠ []) (hHead : p.head? ≠ some slash)
    (hZero : componentLen p = 0) (hAbsent : s.findChild cur p 0 = none) : r ≠ 0 := by
  have hSkip : skipSlashes p = p := skipSlashes_of_head hHead
  induction h with
  | done hNil =>
      rw [hSkip] at hNil
      exact absurd hNil hp
  | tooLong _ hLong =>
      rw [hSkip, hZero] at hLong
      exact absurd hLong (by decide)
  | noMemory => decide
  | stopped _ _ hFind =>
      rw [hSkip, hZero, hAbsent] at hFind
      cases hFind
  | old _ _ hFind =>
      rw [hSkip, hZero, hAbsent] at hFind
      cases hFind
  | @new s t s' cur td p r hStep hRest ih =>
      have hFree : s.node td = none := by rw [hStep.fresh]; exact hLists.free
      have hNew := (hStep.node_eq_some hFree).mpr (Or.inl ⟨rfl, rfl⟩)
      rw [hSkip, hZero, Int.toNat_zero, List.drop_zero] at ih
      refine ih (hLists.alloc hStep) hp hHead hZero ?_ hSkip
      simp only [findChild, hNew, addedNode, List.find?_nil]

/-- In every round of a run the length of the component is what it is as an `int`, if no component gets the
length of a name by the conversion or if the run succeeds. -/
theorem componentLen_eq_of_step {rule : MakeRule} {next : Nat} {p : Str} {r : Int} {t : Tmpfs}
    (hSized : NamesIntSized p ∨ r = 0) (hp : skipSlashes p ≠ [])
    (hShort : componentLen (skipSlashes p) ≤ fsNameMax) (hNonneg : 0 ≤ componentLen (skipSlashes p))
    (hRest : MakeRun rule t next ((skipSlashes p).drop (componentLen (skipSlashes p)).toNat) r s')
    (hLists : ListInv t) (hNoEmpty : ∀ q, t.findChild next q 0 = none) :
    componentLen (skipSlashes p) = blockLen (skipSlashes p) := by
  rcases hSized with hSized | hZero
  · have hFront := front_of_skip hp
    have hInt := hSized _ (by rw [hFront.names]; exact List.mem_cons_self)
    rw [List.length_take, Nat.min_eq_left (blockLen_spec _).1] at hInt
    rw [componentLen_eq] at hNonneg hShort ⊢
    exact hInt.intOfLength hNonneg hShort
  · by_contra hNe
    obtain ⟨hNil, hHead, hLen⟩ := componentLen_left hNonneg hNe
    exact hRest.stuck hLists hNil hHead hLen (hNoEmpty _) hZero

theorem namedRun_of_makeRun {rule : MakeRule} {cur : Nat} {p : Str} {r : Int} (hErr : rule.err < 0)
    (h : MakeRun rule s cur p r s') (hTree : NamedTree s) (hSized : NamesIntSized p ∨ r = 0) :
    NamedRun rule s cur p r s' := by
  induction h with
  | done hp => exact .done (pathNames_eq_nil.mpr hp)
  | tooLong hp _ => exact .failed (front_of_skip hp) (by decide) .refl
  | noMemory hp _ _ hQuiet => exact .failed (front_of_skip hp) (by decide) hQuiet
  | stopped hp => exact .failed (front_of_skip hp) hErr .refl
  | @new s t s' cur td p r hStep hRest ih =>
      have hp := hStep.starts.1
      have hFront := front_of_skip hp
      have hFree : s.node td = none := by rw [hStep.fresh]; exact hTree.tree.lists.free
      have hNode := fun i e => hStep.node_eq_some (i := i) (e := e) hFree
      have hNew := (hNode td _).mpr (Or.inl ⟨rfl, rfl⟩)
      have hLen : componentLen (skipSlashes p) = blockLen (skipSlashes p) := by
        refine componentLen_eq_of_step hSized hp hStep.short hStep.fits.1 hRest
          (hTree.tree.lists.alloc hStep) fun q => ?_
        simp only [findChild, hNew, addedNode, List.find?_nil]
      have hToNat : (componentLen (skipSlashes p)).toNat = blockLen (skipSlashes p) := by omega
      have hLength : ((skipSlashes p).take (blockLen (skipSlashes p))).length =
          blockLen (skipSlashes p) := by
        rw [List.length_take, Nat.min_eq_left (blockLen_spec _).1]
      have hGood : GoodName ((skipSlashes p).take (blockLen (skipSlashes p))) := by
        have hShort := hStep.short
        have hMax : fsNameMax = 255 := rfl
        exact ⟨hFront.good.1, by omega, hFront.good.2⟩
      have hTree' : NamedTree t :=
        ⟨hTree.tree.alloc hStep, hTree.names.alloc hStep (by rw [hToNat]; exact hGood)⟩
      have hAbsent := hStep.absent
      rw [hTree.findChild_eq hStep.fits, hToNat] at hAbsent
      have hAdded : t.node td = some ⟨(skipSlashes p).take (blockLen (skipSlashes p)),
          ((skipSlashes p).take (blockLen (skipSlashes p))).length, rule.newType (skipSlashes p), 0,
          some cur, [], none⟩ := by
        rw [hNew, addedNode, hToNat, hLength, hLen]
      refine .new hFront hTree' (.alloc hTree.tree.lists hStep) (fun x hx hLive => ?_) hAbsent hAdded ?_ ?_
      · obtain ⟨e, he⟩ := live_iff.mp hLive
        rcases (hNode x e).mp he with ⟨hEq, -⟩ | ⟨d, hd, -⟩
        · exact hEq
        · rw [hx] at hd
          cases hd
      · obtain ⟨d, hd⟩ := live_iff.mp hStep.curLive
        refine hTree'.childNamed_eq_some.mpr
          ⟨_, _, (hNode cur _).mpr (Or.inr ⟨d, hd, rfl⟩), ?_, hAdded, rfl⟩
        rw [if_pos rfl]
        exact List.mem_append_right _ (List.mem_singleton_self td)
      · rw [hToNat] at ih
        exact ih hTree' (hSized.imp_left fun hInt => hInt.rest hFront)
  | @old s s' cur child p d r hp hShort hFind hd hStops hRest ih =>
      have hFront := front_of_skip hp
      have hNonneg := hTree.tree.lists.componentLen_nonneg hFind
      have hLen := componentLen_eq_of_step hSized hp hShort hNonneg hRest hTree.tree.lists
        (hTree.findChild_zero child)
      have hToNat : (componentLen (skipSlashes p)).toNat = blockLen (skipSlashes p) := by omega
      rw [hTree.findChild_eq ⟨hNonneg, hToNat ▸ (blockLen_spec _).1⟩, hToNat] at hFind
      rw [hToNat] at ih
      exact .old hFront hFind hd hStops (ih hTree (hSized.imp_left fun hInt => hInt.rest hFront))

/-! ## What a run does -/

namespace NamedRun

variable {rule : MakeRule} {cur : Nat} {p : Str} {r : Int}

theorem grows (h : NamedRun rule s cur p r s') (hTree : NamedTree s) : Grows s s' ∧ NamedTree s' := by
  induction h with
  | done => exact ⟨.of_node_eq rfl, hTree⟩
  | failed _ _ hQuiet => exact ⟨.of_node_eq hQuiet.node, hTree.quiet hQuiet⟩
  | new _ hTree' hGrows _ _ _ _ _ ih =>
      obtain ⟨hGrows', hEnd⟩ := ih hTree'
      exact ⟨hGrows.trans hGrows', hEnd⟩
  | old _ _ _ _ _ ih => exact ih hTree

theorem names_ne_nil (h : NamedRun rule s cur p r s') (hErr : r < 0) : pathNames p ≠ [] := by
  cases h with
  | done => cases hErr
  | failed hFront => rw [hFront.names]; nofun
  | new hFront => rw [hFront.names]; nofun
  | old hFront => rw [hFront.names]; nofun

/-- A new node is where the names led nowhere before; its type is the one for what the path is from its
component on. -/
theorem new_node (h : NamedRun rule s cur p r s') (hTree : NamedTree s) {x : Nat}
    (hOld : s.node x = none) (hLive : s'.Live x) :
    ∃ names q b rest e, names ++ [b] ++ pathNames rest = pathNames p ∧
      follow s'.childNamed cur (names ++ [b]) = some x ∧ follow s.childNamed cur (names ++ [b]) = none ∧
      (r < 0 → pathNames rest ≠ []) ∧ s'.node x = some e ∧ Front q q b rest ∧ e.type = rule.newType q := by
  induction h with
  | done =>
      rw [Live, hOld] at hLive
      cases hLive
  | failed _ _ hQuiet =>
      rw [Live, hQuiet.node, hOld] at hLive
      cases hLive
  | @new s t s' cur td p q b rest r hFront hTree' hGrows hOnly hAbsent hNew hFind hRest ih =>
      obtain ⟨hGrows', hEnd⟩ := hRest.grows hTree'
      have hFind' := hGrows'.childNamed_mono hTree' hEnd hFind
      cases hx : t.node x with
      | none =>
          obtain ⟨names, q', b', rest', e, hNames, hReach, -, hErr, he, hFront', hType⟩ :=
            ih hTree' hx hLive
          refine ⟨b :: names, q', b', rest', e, ?_, ?_, ?_, hErr, he, hFront', hType⟩
          · rw [hFront.names, ← hNames]
            rfl
          · rw [List.cons_append, follow_cons, hFind']
            exact hReach
          · rw [List.cons_append, follow_cons, hAbsent]
            rfl
      | some e =>
          -- the node of this round
          obtain rfl := hOnly x hOld (live_iff.mpr ⟨e, hx⟩)
          obtain ⟨e', he', -, hType, -⟩ := hGrows'.same hNew
          have hHead : q.head? ≠ some slash := hFront.skip ▸ skipSlashes_head p
          have hSkip : skipSlashes q = q := skipSlashes_of_head hHead
          refine ⟨[], q, b, rest, e', ?_, ?_, ?_, fun hErr => hRest.names_ne_nil hErr, he', ?_, hType⟩
          · rw [hFront.names]
            rfl
          · rw [List.nil_append, follow_cons, hFind']
            rfl
          · rw [List.nil_append, follow_cons, hAbsent]
            rfl
          · refine ⟨hSkip.symm, hFront.cut, hFront.good, hFront.edge, ?_⟩
            rw [← hFront.names, hFront.skip, pathNames_skipSlashes]
  | @old s s' cur child p q b rest d r hFront hFind hd hStops hRest ih =>
      obtain ⟨hGrows, hEnd⟩ := hRest.grows hTree
      obtain ⟨names, q', b', rest', e, hNames, hReach, hNone, hErr, he, hFront', hType⟩ :=
        ih hTree hOld hLive
      refine ⟨b :: names, q', b', rest', e, ?_, ?_, ?_, hErr, he, hFront', hType⟩
      · rw [hFront.names, ← hNames]
        rfl
      · rw [List.cons_append, follow_cons, hGrows.childNamed_mono hTree hEnd hFind]
        exact hReach
      · rw [List.cons_append, follow_cons, hFind]
        exact hNone

end NamedRun

/-- The components of `p` lead from `cur` to `x`, by way of nodes at which the loop does not stop. -/
inductive PathWalked (rule : MakeRule) (s : Tmpfs) : Nat → Str → Nat → Prop where
  | done {cur : Nat} {p : Str} (hNames : pathNames p = []) : PathWalked rule s cur p cur
  | next {cur child x : Nat} {p q b rest : Str} {d : TmpfsDentry} (hFront : Front p q b rest)
      (hFind : s.childNamed cur b = some child) (hd : s.node child = some d)
      (hStops : ¬ rule.stops q d.type) (hRest : PathWalked rule s child rest x) : PathWalked rule s cur p x

/-- After a run that succeeds the path can be walked along. -/
theorem NamedRun.walked {rule : MakeRule} {cur : Nat} {p : Str} {r : Int}
    (hRule : ∀ q, ¬ rule.stops q (rule.newType q)) (h : NamedRun rule s cur p r s') (hZero : r = 0)
    (hTree : NamedTree s) : ∃ x, PathWalked rule s' cur p x := by
  induction h with
  | done hNames => exact ⟨_, .done hNames⟩
  | failed _ hErr => omega
  | new hFront hTree' _ _ _ hNew hFind hRest ih =>
      obtain ⟨hGrows', hEnd⟩ := hRest.grows hTree'
      obtain ⟨e, he, -, hType, -⟩ := hGrows'.same hNew
      obtain ⟨x, hx⟩ := ih hZero hTree'
      refine ⟨x, .next hFront (hGrows'.childNamed_mono hTree' hEnd hFind) he ?_ hx⟩
      rw [hType]
      exact hRule _
  | old hFront hFind hd hStops hRest ih =>
      obtain ⟨hGrows', hEnd⟩ := hRest.grows hTree
      obtain ⟨e, he, -, hType, -⟩ := hGrows'.same hd
      obtain ⟨x, hx⟩ := ih hZero hTree
      refine ⟨x, .next hFront (hGrows'.childNamed_mono hTree hEnd hFind) he ?_ hx⟩
      rw [hType]
      exact hStops

theorem PathWalked.follow_eq {rule : MakeRule} {cur x : Nat} {p : Str} (h : PathWalked rule s cur p x) :
    follow s.childNamed cur (pathNames p) = some x := by
  induction h with
  | done hNames => rw [hNames, follow_nil]
  | next hFront hFind _ _ _ ih =>
      rw [hFront.names, follow_cons, hFind]
      exact ih

/-! ## The calls -/

theorem pathNames_drop_one {path : Str} (h : badPath path = false) :
    pathNames (path.drop 1) = pathNames path := by
  conv_rhs => rw [(path_of_badPath h).2.1, pathNames_cons_slash]

theorem NamesIntSized.drop_one {path : Str} (h : NamesIntSized path) (hPath : badPath path = false) :
    NamesIntSized (path.drop 1) := by
  intro b hb
  rw [pathNames_drop_one hPath] at hb
  exact h b hb

/-- What `tmpfs_mkdir` does, for a path with proper components or when it succeeds. -/
theorem NamedTree.mkdir_run (h : NamedTree s) {fuel : Nat} {path : Str} {r : Int}
    (hCall : tmpfsMkdir fuel path s = .ok r s') (hSized : NamesIntSized path ∨ r = 0) :
    (badPath path = true ∧ r = errInval ∧ s' = s) ∨
      (badPath path = false ∧ NamedRun mkdirRule s tmpfsRoot (path.drop 1) r s') := by
  unfold tmpfsMkdir at hCall
  split at hCall
  · rename_i hBad
    cases hCall
    exact Or.inl ⟨hBad, rfl, rfl⟩
  · rename_i hPath
    have hPath : badPath path = false := by simpa using hPath
    have hRun := makeRun_of_mkdirFrom fuel tmpfsRoot _ s s' r hCall h.tree.lists.rootLive
    exact Or.inr ⟨hPath, namedRun_of_makeRun (by decide) hRun h
      (hSized.imp_left fun hInt => hInt.drop_one hPath)⟩

/-- What `tmpfs_creat` does, for a path with proper components or when it succeeds. -/
theorem NamedTree.creat_run (h : NamedTree s) {fuel : Nat} {path : Str} {r : Int}
    (hCall : tmpfsCreat fuel path s = .ok r s') (hSized : NamesIntSized path ∨ r = 0) :
    (badPath path = true ∧ r = errInval ∧ s' = s) ∨
      (badPath path = false ∧ NamedRun creatRule s tmpfsRoot (path.drop 1) r s') := by
  unfold tmpfsCreat at hCall
  split at hCall
  · rename_i hBad
    cases hCall
    exact Or.inl ⟨hBad, rfl, rfl⟩
  · rename_i hPath
    have hPath : badPath path = false := by simpa using hPath
    have hRun := makeRun_of_creatFrom fuel tmpfsRoot _ s s' r hCall h.tree.lists.rootLive
    exact Or.inr ⟨hPath, namedRun_of_makeRun (by decide) hRun h
      (hSized.imp_left fun hInt => hInt.drop_one hPath)⟩

/-! ## `tmpfs_mkdir` -/

/-- The loop does not stop at what it has made. -/
theorem mkdirRule_stable (q : Str) : ¬ mkdirRule.stops q (mkdirRule.newType q) := fun hStops => hStops rfl

theorem Front.ne_nil {p q b rest : Str} (h : Front p q b rest) : p ≠ [] := by
  rintro rfl
  have hNames := h.names
  rw [pathNames_nil] at hNames
  cases hNames

theorem Front.blockLen_eq {p q b rest : Str} (h : Front p q b rest) : blockLen q = b.length := by
  rw [h.cut, blockLen_append_of_not_mem h.good.2]
  rcases h.edge with hNil | hHead
  · rw [hNil]
    rfl
  · cases rest with
    | nil => cases hHead
    | cons x rest =>
        rw [List.head?_cons, Option.some.injEq] at hHead
        rw [blockLen, strchr, if_pos hHead]
        rfl

/-- A path whose components are there is walked along once more by `tmpfs_mkdir`. -/
theorem PathWalked.mkdirFrom {cur x : Nat} {p : Str} (h : PathWalked mkdirRule s cur p x) (hTree : NamedTree s) :
    ∀ {fuel : Nat}, p.length < fuel → mkdirFrom fuel cur p s = .ok 0 s := by
  induction h with
  | @done cur p hNames =>
      intro fuel hFuel
      obtain ⟨fuel, rfl⟩ : ∃ k, fuel = k + 1 := ⟨fuel - 1, by omega⟩
      rw [Tmpfs.mkdirFrom]
      simp only [if_pos (pathNames_eq_nil.mp hNames), pure_apply]
  | @next cur child x p q b rest d hFront hFind hd hStops hRest ih =>
      intro fuel hFuel
      obtain ⟨fuel, rfl⟩ : ∃ k, fuel = k + 1 := ⟨fuel - 1, by omega⟩
      have hLength := hFront.length
      have hSkip := skipSlashes_length p
      have hq : skipSlashes p ≠ [] := by
        intro hNil
        rw [hNil, List.length_nil] at hLength
        omega
      obtain ⟨e, c, he, hMem, hc, hName⟩ := hTree.childNamed_eq_some.mp hFind
      have hShort := (hTree.good_child he hMem hc).short
      rw [hName] at hShort
      -- the component has the length of a name
      have hLen : componentLen (skipSlashes p) = b.length := by
        rw [componentLen_eq, ← hFront.skip, hFront.blockLen_eq, intOfLength, BitVec.toInt_eq_toNat_cond,
          BitVec.toNat_ofNat, Nat.mod_eq_of_lt (by omega), if_pos (by omega)]
      have hMax : fsNameMax = 255 := rfl
      have hTake : (skipSlashes p).take b.length = b := by
        rw [← hFront.skip, hFront.cut, List.take_left]
      have hDrop : (skipSlashes p).drop b.length = rest := by
        rw [← hFront.skip, hFront.cut, List.drop_left]
      have hFound : s.findChild cur (skipSlashes p) b.length = some child := by
        rw [hTree.findChild_eq ⟨by omega, by omega⟩, Int.toNat_natCast, hTake, hFind]
      have hDir : ¬ d.type ≠ .dir := hStops
      rw [Tmpfs.mkdirFrom]
      simp only [if_neg hq, hLen]
      rw [if_neg (by omega), bind_ok (get_apply s)]
      simp only [hFound]
      rw [bind_ok (nodeAt_ok hd), if_neg hDir, Int.toNat_natCast, hDrop]
      exact ih (by omega)

/-- Every part of the path leads to a directory. -/
theorem PathWalked.dirs {cur x : Nat} {p : Str} (h : PathWalked mkdirRule s cur p x) {names : List Str}
    (hNames : names <+: pathNames p) (hNe : names ≠ []) :
    ∃ y d, follow s.childNamed cur names = some y ∧ s.node y = some d ∧ d.type = .dir := by
  induction h generalizing names with
  | done hNil =>
      rw [hNil] at hNames
      exact absurd (List.prefix_nil.mp hNames) hNe
  | @next cur child x p q b rest d hFront hFind hd hStops hRest ih =>
      rw [hFront.names] at hNames
      cases names with
      | nil => exact absurd rfl hNe
      | cons c names =>
          obtain ⟨rfl, hRestNames⟩ := List.cons_prefix_cons.mp hNames
          rw [follow_cons, hFind]
          by_cases hEnd : names = []
          · rw [hEnd]
            exact ⟨child, d, rfl, hd, not_not.mp hStops⟩
          · exact ih hRestNames hEnd

/-- What was in `s` is in `s'`, reached by the same names, with the same name, type, size and data. -/
def KeepsNodes (s s' : Tmpfs) : Prop :=
  ∀ x d, s.node x = some d → (∀ names, s'.reach names = some x ↔ s.reach names = some x) ∧
    ∃ e, s'.node x = some e ∧ e.name = d.name ∧ e.type = d.type ∧ e.size = d.size ∧ e.data = d.data

theorem Grows.keepsNodes (h : Grows s s') (hs : NamedTree s) (hs' : NamedTree s') : KeepsNodes s s' :=
  fun _ d hd => ⟨h.reach_iff hs hs' (live_iff.mpr ⟨d, hd⟩), h.same hd⟩

/-- **`tmpfs_mkdir` makes the path.**  When the call returns 0, the path and every part of it lead to
directories, everything that was there is reached as before and has what it had, every new node is a part
of the path that led nowhere, and the same call once more returns 0 and changes nothing. -/
theorem tmpfsMkdir_makes (h : WellFormed s) {fuel : Nat} {path : Str}
    (hCall : tmpfsMkdir fuel path s = .ok 0 s') :
    (∀ names, names <+: pathNames path →
      ∃ x d, s'.reach names = some x ∧ s'.node x = some d ∧ d.type = .dir) ∧
    KeepsNodes s s' ∧
    (∀ x, s.node x = none → s'.Live x →
      ∃ names, names <+: pathNames path ∧ s.reach names = none ∧ s'.reach names = some x) ∧
    ∀ fuel', path.length ≤ fuel' → tmpfsMkdir fuel' path s' = .ok 0 s' := by
  rcases h.toNamedTree.mkdir_run hCall (Or.inr rfl) with ⟨-, hErr, -⟩ | ⟨hPath, hRun⟩
  · cases hErr
  obtain ⟨hGrows, hTree⟩ := hRun.grows h.toNamedTree
  obtain ⟨x, hWalk⟩ := hRun.walked mkdirRule_stable rfl h.toNamedTree
  have hNames := pathNames_drop_one hPath
  refine ⟨fun names hPart => ?_, hGrows.keepsNodes h.toNamedTree hTree, fun y hOld hLive => ?_,
    fun fuel' hFuel => ?_⟩
  · by_cases hNil : names = []
    · obtain ⟨d, hd⟩ := live_iff.mp h.tree.lists.rootLive
      obtain ⟨e, he, -, hType, -⟩ := hGrows.same hd
      exact ⟨tmpfsRoot, e, by rw [hNil]; rfl, he, hType.trans (h.types.rootDir d hd)⟩
    · rw [← hNames] at hPart
      exact hWalk.dirs hPart hNil
  · obtain ⟨names, q, b, rest, e, hCut, hReach, hNone, -⟩ := hRun.new_node h.toNamedTree hOld hLive
    rw [hNames] at hCut
    exact ⟨names ++ [b], ⟨_, hCut⟩, hNone, hReach⟩
  · rw [tmpfsMkdir, hPath, if_neg (by decide)]
    refine hWalk.mkdirFrom hTree ?_
    have hLength := List.length_pos_iff.mpr (path_of_badPath hPath).2.2
    rw [List.length_drop] at hLength ⊢
    omega

/-- `/a/b` is made. -/
theorem tmpfsMkdir_makes_ab : tmpfsMkdir 4 pathAB tmpfsAB = .ok 0 tmpfsAB := by
  have hCall : tmpfsMkdir 5 pathAB (tmpfsEmpty fun _ => true) = .ok 0 tmpfsAB := eq_ok_of_value (by decide)
  exact (tmpfsMkdir_makes (wellFormed_empty _) hCall).2.2.2 4 (by decide)

/-! ## `tmpfs_creat` -/

theorem creatRule_stable (q : Str) : ¬ creatRule.stops q (creatRule.newType q) := by
  rintro ⟨hLast, hDir⟩
  have hFile : creatRule.newType q = .file := if_pos hLast
  rw [hFile] at hDir
  cases hDir

/-- A path without components is empty or ends with a slash. -/
theorem getLast_of_names_nil {p : Str} (h : pathNames p = []) : p = [] ∨ p.getLast? = some slash := by
  obtain ⟨slashes, hCut, -, hLast⟩ := skipSlashes_cut p
  rw [pathNames_eq_nil.mp h, List.append_nil] at hCut
  rw [hCut]
  exact hLast

/-- A path that does not end with a slash leads to a file. -/
theorem PathWalked.file {cur x : Nat} {p : Str} (h : PathWalked creatRule s cur p x) (hp : p ≠ [])
    (hLast : p.getLast? ≠ some slash) : ∃ d, s.node x = some d ∧ d.type = .file := by
  induction h with
  | done hNames =>
      rcases getLast_of_names_nil hNames with hNil | hSlash
      · exact absurd hNil hp
      · exact absurd hSlash hLast
  | @next cur child x p q b rest d hFront hFind hd hStops hRest ih =>
      have hRestLast : rest.getLast? ≠ some slash := fun hSlash => hLast (hFront.getLast.mpr hSlash)
      by_cases hNil : rest = []
      · have hEnd := hRest.follow_eq
        rw [hNil, pathNames_nil, follow_nil, Option.some.injEq] at hEnd
        refine ⟨d, hEnd ▸ hd, ?_⟩
        cases hType : d.type with
        | file => rfl
        | dir => exact absurd ⟨hFront.strchr_none.mpr hNil, hType⟩ hStops
      · exact ih hNil hRestLast

/-- A path that ends with a slash leads to what it led to, or to a new directory. -/
theorem NamedRun.creat_slash {cur : Nat} {p : Str} {r : Int} (h : NamedRun creatRule s cur p r s')
    (hTree : NamedTree s) (hZero : r = 0) (hLast : p = [] ∨ p.getLast? = some slash) :
    ∃ x, follow s'.childNamed cur (pathNames p) = some x ∧
      (follow s.childNamed cur (pathNames p) = some x ∨ ∃ e, s'.node x = some e ∧ e.type = .dir) := by
  induction h with
  | @done s cur p hNames =>
      rw [hNames]
      exact ⟨cur, rfl, Or.inl rfl⟩
  | failed _ hErr => omega
  | @new s t s' cur td p q b rest r hFront hTree' hGrows hOnly hAbsent hNew hFind hRest ih =>
      have hRestLast : rest.getLast? = some slash :=
        hFront.getLast.mp (hLast.resolve_left hFront.ne_nil)
      obtain ⟨hGrows', hEnd⟩ := hRest.grows hTree'
      obtain ⟨x, hx, hOr⟩ := ih hTree' hZero (Or.inr hRestLast)
      rw [hFront.names, follow_cons, follow_cons, hGrows'.childNamed_mono hTree' hEnd hFind]
      refine ⟨x, hx, Or.inr ?_⟩
      rcases hOr with hOld | hDir
      · -- the new node itself: a slash follows its component
        rw [follow_childless hNew rfl hOld, follow_nil, Option.some.injEq] at hOld
        rw [← hOld]
        obtain ⟨e, he, -, hType, -⟩ := hGrows'.same hNew
        refine ⟨e, he, hType.trans ?_⟩
        refine if_neg fun hNone => ?_
        rw [hFront.strchr_none.mp hNone] at hRestLast
        cases hRestLast
      · exact hDir
  | @old s s' cur child p q b rest d r hFront hFind hd hStops hRest ih =>
      obtain ⟨hGrows', hEnd⟩ := hRest.grows hTree
      obtain ⟨x, hx, hOr⟩ := ih hTree hZero (Or.inr (hFront.getLast.mp (hLast.resolve_left hFront.ne_nil)))
      rw [hFront.names, follow_cons, follow_cons, hGrows'.childNamed_mono hTree hEnd hFind, hFind]
      exact ⟨x, hx, hOr⟩

/-- The path leads to a file. -/
def ResolvesToFile (s : Tmpfs) (path : Str) : Prop :=
  ∃ x d, s.resolve path = some x ∧ s.node x = some d ∧ d.type = .file

/-- **`tmpfs_creat` makes a file.**  When the call returns 0, the path leads to a file afterwards, and all
that was there is as before, exactly when the path does not end with a slash or has led to a file
already. -/
theorem tmpfsCreat_makes_file (h : WellFormed s) {fuel : Nat} {path : Str}
    (hCall : tmpfsCreat fuel path s = .ok 0 s') :
    (ResolvesToFile s' path ∧ KeepsNodes s s') ↔ path.getLast? ≠ some slash ∨ ResolvesToFile s path := by
  rcases h.toNamedTree.creat_run hCall (Or.inr rfl) with ⟨-, hErr, -⟩ | ⟨hPath, hRun⟩
  · cases hErr
  obtain ⟨hGrows, hTree⟩ := hRun.grows h.toNamedTree
  have hKeeps := hGrows.keepsNodes h.toNamedTree hTree
  have hNames := pathNames_drop_one hPath
  obtain ⟨-, hCut, hNe⟩ := path_of_badPath hPath
  have hLast : path.getLast? = (path.drop 1).getLast? := by
    conv_lhs => rw [hCut]
    rw [List.getLast?_cons_of_ne_nil hNe]
  constructor
  · rintro ⟨⟨x, e, hx, he, hFile⟩, -⟩
    by_cases hSlash : path.getLast? = some slash
    · right
      obtain ⟨y, hy, hOr⟩ := hRun.creat_slash h.toNamedTree rfl (Or.inr (hLast ▸ hSlash))
      rw [hNames] at hy hOr
      cases hy.symm.trans hx
      rcases hOr with hOld | ⟨e', he', hDir⟩
      · obtain ⟨d, hd⟩ := live_iff.mp (h.live_of_reach hOld)
        obtain ⟨e', he', -, hType, -⟩ := hGrows.same hd
        cases he.symm.trans he'
        exact ⟨_, d, hOld, hd, hType.symm.trans hFile⟩
      · cases he.symm.trans he'
        rw [hDir] at hFile
        cases hFile
    · exact Or.inl hSlash
  · rintro (hSlash | ⟨x, d, hx, hd, hFile⟩)
    · refine ⟨?_, hKeeps⟩
      obtain ⟨x, hWalk⟩ := hRun.walked creatRule_stable rfl h.toNamedTree
      obtain ⟨d, hd, hFile⟩ := hWalk.file hNe (hLast ▸ hSlash)
      have hEnd := hWalk.follow_eq
      rw [hNames] at hEnd
      exact ⟨x, d, hEnd, hd, hFile⟩
    · obtain ⟨hReach, e, he, -, hType, -⟩ := hKeeps x d hd
      exact ⟨⟨x, e, (hReach _).mpr hx, he, hType.trans hFile⟩, hKeeps⟩

/-- `/a` is made as a file. -/
theorem tmpfsCreat_makes_file_a : ResolvesToFile tmpfsA [0x2f#8, 0x61#8] := by
  have hCall : tmpfsCreat 3 [0x2f#8, 0x61#8] (tmpfsEmpty fun _ => true) = .ok 0 tmpfsA :=
    eq_ok_of_value (by decide)
  exact ((tmpfsCreat_makes_file (wellFormed_empty _) hCall).mpr (Or.inl (by decide))).1

/-- `/a/` is made as a directory. -/
theorem tmpfs_creat_slash :
    ∃ s', tmpfsCreat 4 [0x2f#8, 0x61#8, 0x2f#8] (tmpfsEmpty fun _ => true) = .ok 0 s' ∧
      WellFormed (tmpfsEmpty fun _ => true) ∧ ¬ ResolvesToFile s' [0x2f#8, 0x61#8, 0x2f#8] := by
  refine ⟨_, eq_ok_of_value (by decide), wellFormed_empty _, ?_⟩
  rintro ⟨x, d, hx, hd, hFile⟩
  have hFound : (finalState (tmpfsCreat 4 [0x2f#8, 0x61#8, 0x2f#8] (tmpfsEmpty fun _ => true))).resolve
      [0x2f#8, 0x61#8, 0x2f#8] = some 1 := by decide
  have hDir : ((finalState (tmpfsCreat 4 [0x2f#8, 0x61#8, 0x2f#8] (tmpfsEmpty fun _ => true))).node 1).map
      (·.type) = some .dir := by decide
  rw [hFound, Option.some.injEq] at hx
  rw [hx, hd, Option.map_some, hFile] at hDir
  cases hDir

/-! ## Calls that fail -/

/-- Where there are no new nodes, nothing has changed. -/
theorem Grows.node_eq (h : Grows s s') (hs' : NamedTree s')
    (hNone : ∀ x, s.node x = none → s'.node x = none) : s'.node = s.node := by
  funext x
  cases hd : s.node x with
  | none => exact hNone x hd
  | some d =>
      obtain ⟨more, he, hFresh⟩ := h.old x d hd
      have hMore : more = [] := by
        refine List.eq_nil_iff_forall_not_mem.mpr fun y hy => ?_
        obtain ⟨e, hChild, -⟩ := hs'.tree.lists.child x _ y he (List.mem_append_right _ hy)
        rw [hNone y (hFresh y hy)] at hChild
        cases hChild
      rw [he, hMore, List.append_nil]

/-- What a call that fails leaves: the nodes that were there, and directories at the beginning of its
path. -/
structure LeavesDirectories (s s' : Tmpfs) (path : Str) : Prop where
  keeps : KeepsNodes s s'
  new : ∀ x e, s.node x = none → s'.node x = some e → e.type = .dir ∧
    ∃ names, names <+: pathNames path ∧ names ≠ pathNames path ∧ s.reach names = none ∧
      s'.reach names = some x
  same : (∀ names, names <+: pathNames path → names ≠ pathNames path → s.reach names ≠ none) →
    s'.node = s.node

theorem NamedRun.leavesDirectories {rule : MakeRule} {path : Str} {r : Int} (hPath : badPath path = false)
    (hDir : ∀ q b rest, Front q q b rest → rest ≠ [] → rule.newType q = .dir)
    (h : NamedRun rule s tmpfsRoot (path.drop 1) r s') (hTree : NamedTree s) (hErr : r < 0) :
    LeavesDirectories s s' path := by
  obtain ⟨hGrows, hTree'⟩ := h.grows hTree
  have hNew : ∀ x e, s.node x = none → s'.node x = some e → e.type = .dir ∧
      ∃ names, names <+: pathNames path ∧ names ≠ pathNames path ∧ s.reach names = none ∧
        s'.reach names = some x := by
    intro x e hOld he
    obtain ⟨names, q, b, rest, e', hCut, hReach, hNone, hMore, he', hFront, hType⟩ :=
      h.new_node hTree hOld (live_iff.mpr ⟨e, he⟩)
    cases he.symm.trans he'
    rw [pathNames_drop_one hPath] at hCut
    have hRest := hMore hErr
    refine ⟨?_, names ++ [b], ⟨_, hCut⟩, fun hAll => ?_, hNone, hReach⟩
    · rw [hType]
      refine hDir q b rest hFront ?_
      rintro rfl
      exact hRest pathNames_nil
    · rw [← hCut] at hAll
      exact hRest (List.self_eq_append_right.mp hAll)
  refine ⟨hGrows.keepsNodes hTree hTree', hNew, fun hAll => hGrows.node_eq hTree' fun x hOld => ?_⟩
  cases he : s'.node x with
  | none => rfl
  | some e =>
      obtain ⟨-, names, hPart, hProper, hNone, -⟩ := hNew x e hOld he
      exact absurd hNone (hAll names hPart hProper)

theorem leavesDirectories_refl (h : NamedTree s) (path : Str) : LeavesDirectories s s path := by
  refine ⟨(Grows.of_node_eq rfl).keepsNodes h h, fun x e hOld he => ?_, fun _ => rfl⟩
  rw [hOld] at he
  cases he

/-- **What `tmpfs_creat` and `tmpfs_mkdir` leave when they fail.**  Everything that was there is reached as
before and has what it had; every new node is a directory at a proper part of the path that led nowhere; and
where all proper parts of the path were there, nothing has changed. -/
theorem tmpfsMake_failure (h : WellFormed s) {fuel : Nat} {path : Str} {r : Int}
    (hSized : NamesIntSized path)
    (hCall : tmpfsCreat fuel path s = .ok r s' ∨ tmpfsMkdir fuel path s = .ok r s') (hErr : r < 0) :
    LeavesDirectories s s' path := by
  rcases hCall with hCreat | hMkdir
  · rcases h.toNamedTree.creat_run hCreat (Or.inl hSized) with ⟨-, -, rfl⟩ | ⟨hPath, hRun⟩
    · exact leavesDirectories_refl h.toNamedTree path
    · refine hRun.leavesDirectories hPath (fun q b rest hFront hNe => ?_) h.toNamedTree hErr
      exact if_neg fun hNone => hNe (hFront.strchr_none.mp hNone)
  · rcases h.toNamedTree.mkdir_run hMkdir (Or.inl hSized) with ⟨-, -, rfl⟩ | ⟨hPath, hRun⟩
    · exact leavesDirectories_refl h.toNamedTree path
    · exact hRun.leavesDirectories hPath (fun _ _ _ _ _ => rfl) h.toNamedTree hErr

/-- The file system after `tmpfs_creat("/a/b")`, with memory for one node. -/
def tmpfsHalf : Tmpfs := finalState (tmpfsCreat 5 pathAB (tmpfsEmpty oneNode))

/-- `/a/b` is to be made, and there is memory for `/a`: nothing but `/a` is left. -/
theorem tmpfsMake_failure_half : LeavesDirectories (tmpfsEmpty oneNode) tmpfsHalf pathAB := by
  have hCall : tmpfsCreat 5 pathAB (tmpfsEmpty oneNode) = .ok errNomem tmpfsHalf :=
    eq_ok_of_value (by decide)
  exact tmpfsMake_failure (wellFormed_empty _) (namesIntSized_of_length (by decide)) (Or.inl hCall)
    (by decide)

/-- There is memory for `/a` only: `tmpfs_creat("/a/b")` and `tmpfs_mkdir("/a/b")` fail, and `/a` is there
that was not there before. -/
theorem tmpfs_make_half :
    WellFormed (tmpfsEmpty oneNode) ∧
      (∃ s', tmpfsCreat 5 pathAB (tmpfsEmpty oneNode) = .ok errNomem s' ∧
        s'.node ≠ (tmpfsEmpty oneNode).node) ∧
      ∃ s', tmpfsMkdir 5 pathAB (tmpfsEmpty oneNode) = .ok errNomem s' ∧
        s'.node ≠ (tmpfsEmpty oneNode).node := by
  refine ⟨wellFormed_empty _, ⟨_, eq_ok_of_value (by decide), fun hEq => ?_⟩,
    ⟨_, eq_ok_of_value (by decide), fun hEq => ?_⟩⟩
  · exact absurd (congrFun hEq 1) (by decide)
  · exact absurd (congrFun hEq 1) (by decide)

end Rayos
