import Rayos.Fs.Tmpfs

/-!
# What the calls of the memory file system do

Every call is made of four changes of the nodes: a node is added below another one (`AllocStep`), a node
is given back (`RemoveStep`), a node gets a new name and a new parent (`MoveStep`), and the data of a file
are set (`WriteStep`).  `MakeRun` is what the loops of `tmpfs_creat` and `tmpfs_mkdir` do, with the invariant
rules `creatFrom_induct` and `mkdirFrom_induct`; the other calls make at most one change of each kind.
-/

namespace Rayos

open Program CString

namespace Tmpfs

variable {s s' : Tmpfs}

/-! ## Steps that leave the nodes alone -/

/-- The nodes are as before. -/
structure Quiet (s s' : Tmpfs) : Prop where
  node : s'.node = s.node
  kzallocs : s.heap.kzallocs ≤ s'.heap.kzallocs

theorem Quiet.refl : Quiet s s := ⟨rfl, le_refl _⟩

theorem Quiet.trans {t : Tmpfs} (h : Quiet s t) (h' : Quiet t s') : Quiet s s' :=
  ⟨h'.node.trans h.node, le_trans h.kzallocs h'.kzallocs⟩

theorem kzalloc_eq_ok {size : Nat} {ptr : Option Nat} (h : kzalloc size s = .ok ptr s') :
    Quiet s s' ∧ s'.heap.kzallocs = s.heap.kzallocs + 1 ∧
      (ptr = none ∨ ptr = some s.heap.kzallocs) := by
  unfold kzalloc at h
  cases hRun : s.heap.kzalloc size with
  | error e =>
      rw [hRun] at h
      cases h
  | ok r =>
      obtain ⟨ptr', heap⟩ := r
      rw [hRun] at h
      cases h
      obtain ⟨-, -, hCount, hPtr⟩ := KernelHeap.kzalloc_eq_ok hRun
      refine ⟨⟨rfl, ?_⟩, hCount, hPtr.imp And.left And.left⟩
      show s.heap.kzallocs ≤ heap.kzallocs
      omega

/-- What is left of the memory, and why a request has failed. -/
theorem kzalloc_memory {size : Nat} {ptr : Option Nat} (h : kzalloc size s = .ok ptr s') :
    s'.heap.memory = s.heap.memory ∧
      (ptr = none ↔ size = 0 ∨ s.heap.memory s.heap.kzallocs = false) := by
  unfold kzalloc KernelHeap.kzalloc at h
  by_cases hLock : s.heap.mmSpinlock = true
  · rw [if_pos hLock] at h
    cases h
  rw [if_neg hLock] at h
  by_cases hMemory : size ≠ 0 ∧ s.heap.memory s.heap.kzallocs = true
  · rw [if_pos hMemory] at h
    cases h
    refine ⟨rfl, by simp [hMemory.1, hMemory.2]⟩
  · rw [if_neg hMemory] at h
    cases h
    refine ⟨rfl, fun _ => ?_, fun _ => rfl⟩
    by_contra hNot
    simp only [not_or, Bool.not_eq_false] at hNot
    exact hMemory hNot

theorem kfree_eq_ok {u : Unit} (h : kfree s = .ok u s') : s' = s := by
  unfold kfree at h
  cases hRun : s.heap.kfree with
  | error e =>
      rw [hRun] at h
      cases h
  | ok heap =>
      rw [hRun] at h
      cases h
      rw [(KernelHeap.kfree_eq_ok hRun).1]

theorem unlocked_of_kfree {u : Unit} (h : kfree s = .ok u s') : s.heap.mmSpinlock = false := by
  unfold kfree at h
  cases hRun : s.heap.kfree with
  | error e =>
      rw [hRun] at h
      cases h
  | ok heap => exact (KernelHeap.kfree_eq_ok hRun).2

/-- After the name of the root has been given to `kfree`, the lock is held. -/
theorem locked_of_kfreeName_root {u : Unit} (h : kfreeName tmpfsRoot s = .ok u s') :
    s'.heap.mmSpinlock = true := by
  simp only [kfreeName, bind_eq_ok] at h
  obtain ⟨_, s1, -, h⟩ := h
  rw [if_pos trivial] at h
  cases h
  rfl

theorem kfreeName_eq_ok {td : Nat} {u : Unit} (h : kfreeName td s = .ok u s') : Quiet s s' := by
  simp only [kfreeName, bind_eq_ok] at h
  obtain ⟨_, s1, hFree, h⟩ := h
  rw [kfree_eq_ok hFree] at h
  split at h
  · cases h
    exact ⟨rfl, le_refl _⟩
  · cases h
    exact Quiet.refl

theorem memcpyStr_eq_ok {src name : Str} {len : Int} (h : memcpyStr src len s = .ok name s') :
    s' = s ∧ name = src.take len.toNat ∧ 0 ≤ len ∧ len.toNat ≤ src.length := by
  unfold memcpyStr at h
  split at h
  · rename_i hLen
    cases h
    exact ⟨rfl, rfl, hLen⟩
  · cases h

theorem nodeAt_eq_ok {td : Nat} {d : TmpfsDentry} (h : nodeAt td s = .ok d s') :
    s' = s ∧ s.node td = some d := by
  simp only [nodeAt, bind_eq_ok] at h
  obtain ⟨_, s1, hGet, h⟩ := h
  cases hGet
  cases hNode : s.node td with
  | none =>
      simp only [hNode] at h
      cases h
  | some e =>
      simp only [hNode] at h
      cases h
      exact ⟨rfl, rfl⟩

theorem nodeAt_ok {td : Nat} {d : TmpfsDentry} (hd : s.node td = some d) : nodeAt td s = .ok d s := by
  rw [nodeAt, bind_ok (get_apply s)]
  simp only [hd, pure_apply]

theorem tmpfsLookup_eq_ok {fuel : Nat} {path : Str} {r : Option Nat}
    (h : tmpfsLookup fuel path s = .ok r s') : s' = s ∧ s.lookup fuel path = some r := by
  simp only [tmpfsLookup, bind_eq_ok] at h
  obtain ⟨_, s1, hGet, h⟩ := h
  cases hGet
  cases hLookup : s.lookup fuel path with
  | none =>
      simp only [hLookup] at h
      cases h
  | some r' =>
      simp only [hLookup] at h
      cases h
      exact ⟨rfl, rfl⟩

theorem findChild_congr (hNode : s'.node = s.node) (cur : Nat) (p : Str) (len : Int) :
    s'.findChild cur p len = s.findChild cur p len := by
  have hName : s'.hasName p len = s.hasName p len := by
    funext td
    simp only [hasName, hNode]
  simp only [findChild, hNode, hName]

theorem lookupFrom_congr (hNode : s'.node = s.node) :
    ∀ (fuel cur : Nat) (p : Str), s'.lookupFrom fuel cur p = s.lookupFrom fuel cur p
  | 0, _, _ => rfl
  | fuel + 1, cur, p => by
      simp only [lookupFrom, findChild_congr hNode, lookupFrom_congr hNode fuel]

theorem lookup_congr (hNode : s'.node = s.node) (fuel : Nat) (path : Str) :
    s'.lookup fuel path = s.lookup fuel path := by
  simp only [lookup, lookupFrom_congr hNode]

/-- More fuel does not change what is found. -/
theorem lookupFrom_mono {fuel fuel' cur : Nat} {p : Str} {r : Option Nat}
    (h : s.lookupFrom fuel cur p = some r) (hFuel : fuel ≤ fuel') :
    s.lookupFrom fuel' cur p = some r := by
  induction fuel generalizing fuel' cur p with
  | zero => cases h
  | succ fuel ih =>
      obtain ⟨fuel', rfl⟩ : ∃ k, fuel' = k + 1 := ⟨fuel' - 1, by omega⟩
      rw [lookupFrom] at h ⊢
      simp only at h ⊢
      by_cases hp : skipSlashes p = []
      · rw [if_pos hp] at h ⊢
        exact h
      rw [if_neg hp] at h ⊢
      by_cases hLong : componentLen (skipSlashes p) > fsNameMax
      · rw [if_pos hLong] at h ⊢
        exact h
      rw [if_neg hLong] at h ⊢
      cases hFind : s.findChild cur (skipSlashes p) (componentLen (skipSlashes p)) with
      | none =>
          simp only [hFind] at h ⊢
          exact h
      | some child =>
          simp only [hFind] at h ⊢
          exact ih h (Nat.le_of_succ_le_succ hFuel)

theorem lookup_mono {fuel fuel' : Nat} {path : Str} {r : Option Nat}
    (h : s.lookup fuel path = some r) (hFuel : fuel ≤ fuel') : s.lookup fuel' path = some r := by
  unfold lookup at h ⊢
  by_cases hHead : path.head? ≠ some slash
  · rw [if_pos hHead] at h ⊢
    exact h
  rw [if_neg hHead] at h ⊢
  by_cases hOne : path.length = 1
  · rw [if_pos hOne] at h ⊢
    exact h
  · rw [if_neg hOne] at h ⊢
    exact lookupFrom_mono h hFuel

theorem lookup_unique {fuel fuel' : Nat} {path : Str} {r r' : Option Nat}
    (h : s.lookup fuel path = some r) (h' : s.lookup fuel' path = some r') : r = r' := by
  have hMax := lookup_mono h (le_max_left fuel fuel')
  rw [lookup_mono h' (le_max_right fuel fuel')] at hMax
  exact (Option.some.inj hMax).symm

/-! ## A new node -/

/-- A node `td` has been added below `cur`, with the first component of `p` as its name. -/
structure AllocStep (s s' : Tmpfs) (cur : Nat) (p : Str) (type : DentryType) (td : Nat) : Prop where
  curLive : (s.node cur).isSome
  starts : p ≠ [] ∧ p.head? ≠ some slash
  short : componentLen p ≤ fsNameMax
  fits : 0 ≤ componentLen p ∧ (componentLen p).toNat ≤ p.length
  absent : s.findChild cur p (componentLen p) = none
  fresh : td = s.heap.kzallocs
  node : s'.node = ((s.newNode td ⟨p.take (componentLen p).toNat, componentLen p, type, 0, some cur,
    [], none⟩).listAddTail td cur).node
  kzallocs : s.heap.kzallocs < s'.heap.kzallocs

theorem tmpfsAllocDentry_eq_ok {cur : Nat} {name : Str} {len : Int} {type : DentryType}
    {r : Option Nat} (h : tmpfsAllocDentry cur name len type s = .ok r s') :
    (r = none ∧ Quiet s s') ∨
      (r = some s.heap.kzallocs ∧ (0 ≤ len ∧ len.toNat ≤ name.length) ∧
        s'.node = ((s.newNode s.heap.kzallocs ⟨name.take len.toNat, len, type, 0, some cur, [],
          none⟩).listAddTail s.heap.kzallocs cur).node ∧
        s.heap.kzallocs < s'.heap.kzallocs) := by
  simp only [tmpfsAllocDentry, bind_eq_ok] at h
  obtain ⟨ptr, s1, hAlloc, h⟩ := h
  obtain ⟨hQuiet1, hCount1, hPtr⟩ := kzalloc_eq_ok hAlloc
  rcases hPtr with rfl | rfl
  · cases h
    exact Or.inl ⟨rfl, hQuiet1⟩
  simp only [bind_eq_ok] at h
  obtain ⟨ptr', s2, hAlloc', h⟩ := h
  obtain ⟨hQuiet2, hCount2, hPtr'⟩ := kzalloc_eq_ok hAlloc'
  have hQuiet := hQuiet1.trans hQuiet2
  rcases hPtr' with rfl | rfl
  · simp only [bind_eq_ok] at h
    obtain ⟨_, s3, hFree, h⟩ := h
    rw [kfree_eq_ok hFree] at h
    cases h
    exact Or.inl ⟨rfl, hQuiet⟩
  simp only [bind_eq_ok] at h
  obtain ⟨copied, s3, hCopy, _, s4, hModify, h⟩ := h
  obtain ⟨rfl, rfl, hLen⟩ := memcpyStr_eq_ok hCopy
  cases hModify
  cases h
  refine Or.inr ⟨rfl, hLen, ?_, ?_⟩
  · simp only [newNode, listAddTail, setNode, hQuiet.node]
  · show s.heap.kzallocs < s3.heap.kzallocs
    omega

/-! ## The loops -/

theorem skipSlashes_head (p : Str) : (skipSlashes p).head? ≠ some slash := by
  intro hHead
  have hNot := List.head?_dropWhile_not (· == slash) p
  rw [skipSlashes] at hHead
  rw [hHead] at hNot
  simp at hNot

/-- How a loop that makes the nodes of a path treats the component at the front of what is left of the path:
the type of a new node, the type of a node at which the loop stops, and the error it then returns. -/
structure MakeRule where
  newType : Str → DentryType
  stops : Str → DentryType → Prop
  err : Int

/-- `tmpfs_mkdir`. -/
def mkdirRule : MakeRule := ⟨fun _ => .dir, fun _ type => type ≠ .dir, errNotdir⟩

/-- `tmpfs_creat`. -/
def creatRule : MakeRule where
  newType := fun p => if strchr p slash = none then .file else .dir
  stops := fun p type => strchr p slash = none ∧ type = .dir
  err := errIsdir

/-- The runs of the two loops that return, from the node `cur` with the path `p` before them: the result and
the state. -/
inductive MakeRun (rule : MakeRule) : Tmpfs → Nat → Str → Int → Tmpfs → Prop where
  | done {s : Tmpfs} {cur : Nat} {p : Str} (hp : skipSlashes p = []) : MakeRun rule s cur p 0 s
  | tooLong {s : Tmpfs} {cur : Nat} {p : Str} (hp : skipSlashes p ≠ [])
      (hLong : fsNameMax < componentLen (skipSlashes p)) : MakeRun rule s cur p errToolong s
  | noMemory {s s' : Tmpfs} {cur : Nat} {p : Str} (hp : skipSlashes p ≠ [])
      (hShort : componentLen (skipSlashes p) ≤ fsNameMax)
      (hAbsent : s.findChild cur (skipSlashes p) (componentLen (skipSlashes p)) = none)
      (hQuiet : Quiet s s') : MakeRun rule s cur p errNomem s'
  | stopped {s : Tmpfs} {cur child : Nat} {p : Str} {d : TmpfsDentry} (hp : skipSlashes p ≠ [])
      (hShort : componentLen (skipSlashes p) ≤ fsNameMax)
      (hFind : s.findChild cur (skipSlashes p) (componentLen (skipSlashes p)) = some child)
      (hd : s.node child = some d) (hStops : rule.stops (skipSlashes p) d.type) :
      MakeRun rule s cur p rule.err s
  | new {s t s' : Tmpfs} {cur td : Nat} {p : Str} {r : Int}
      (hStep : AllocStep s t cur (skipSlashes p) (rule.newType (skipSlashes p)) td)
      (hRest : MakeRun rule t td ((skipSlashes p).drop (componentLen (skipSlashes p)).toNat) r s') :
      MakeRun rule s cur p r s'
  | old {s s' : Tmpfs} {cur child : Nat} {p : Str} {d : TmpfsDentry} {r : Int} (hp : skipSlashes p ≠ [])
      (hShort : componentLen (skipSlashes p) ≤ fsNameMax)
      (hFind : s.findChild cur (skipSlashes p) (componentLen (skipSlashes p)) = some child)
      (hd : s.node child = some d) (hStops : ¬ rule.stops (skipSlashes p) d.type)
      (hRest : MakeRun rule s child ((skipSlashes p).drop (componentLen (skipSlashes p)).toNat) r s') :
      MakeRun rule s cur p r s'

/-- The new node is in use. -/
theorem AllocStep.newLive {cur td : Nat} {p : Str} {type : DentryType}
    (h : AllocStep s s' cur p type td) : (s'.node td).isSome := by
  rw [h.node]
  simp only [newNode, listAddTail, setNode]
  by_cases hEq : td = cur <;> simp [hEq]

theorem makeRun_of_creatFrom :
    ∀ (fuel cur : Nat) (p : Str) (s s' : Tmpfs) (r : Int),
      creatFrom fuel cur p s = .ok r s' → (s.node cur).isSome → MakeRun creatRule s cur p r s'
  | 0, _, _, _, _, _, h, _ => by cases h
  | fuel + 1, cur, p, s, s', r, h, hLive => by
      rw [creatFrom] at h
      simp only at h
      by_cases hp : skipSlashes p = []
      · rw [if_pos hp] at h
        cases h
        exact .done hp
      rw [if_neg hp] at h
      by_cases hLong : componentLen (skipSlashes p) > fsNameMax
      · rw [if_pos hLong] at h
        cases h
        exact .tooLong hp hLong
      rw [if_neg hLong] at h
      have hShort := not_lt.mp hLong
      simp only [bind_eq_ok] at h
      obtain ⟨_, s1, hGet, h⟩ := h
      cases hGet
      cases hFind : s.findChild cur (skipSlashes p) (componentLen (skipSlashes p)) with
      | none =>
          simp only [hFind, bind_eq_ok] at h
          obtain ⟨ptr, s2, hAlloc, h⟩ := h
          rcases tmpfsAllocDentry_eq_ok hAlloc with ⟨rfl, hQuiet⟩ | ⟨rfl, hFits, hNode, hHeap⟩
          · cases h
            exact .noMemory hp hShort hFind hQuiet
          · have hStep : AllocStep s s2 cur (skipSlashes p) (creatRule.newType (skipSlashes p)) _ :=
              ⟨hLive, ⟨hp, skipSlashes_head p⟩, hShort, hFits, hFind, rfl, hNode, hHeap⟩
            exact .new hStep (makeRun_of_creatFrom fuel _ _ s2 s' r h hStep.newLive)
      | some child =>
          simp only [hFind, bind_eq_ok] at h
          obtain ⟨d, s2, hAt, h⟩ := h
          obtain ⟨rfl, hd⟩ := nodeAt_eq_ok hAt
          by_cases hDir : strchr (skipSlashes p) slash = none ∧ d.type = .dir
          · rw [if_pos hDir] at h
            cases h
            exact .stopped hp hShort hFind hd hDir
          · rw [if_neg hDir] at h
            exact .old hp hShort hFind hd hDir
              (makeRun_of_creatFrom fuel _ _ s2 s' r h (Option.isSome_iff_exists.mpr ⟨d, hd⟩))

theorem makeRun_of_mkdirFrom :
    ∀ (fuel cur : Nat) (p : Str) (s s' : Tmpfs) (r : Int),
      mkdirFrom fuel cur p s = .ok r s' → (s.node cur).isSome → MakeRun mkdirRule s cur p r s'
  | 0, _, _, _, _, _, h, _ => by cases h
  | fuel + 1, cur, p, s, s', r, h, hLive => by
      rw [mkdirFrom] at h
      simp only at h
      by_cases hp : skipSlashes p = []
      · rw [if_pos hp] at h
        cases h
        exact .done hp
      rw [if_neg hp] at h
      by_cases hLong : componentLen (skipSlashes p) > fsNameMax
      · rw [if_pos hLong] at h
        cases h
        exact .tooLong hp hLong
      rw [if_neg hLong] at h
      have hShort := not_lt.mp hLong
      simp only [bind_eq_ok] at h
      obtain ⟨_, s1, hGet, h⟩ := h
      cases hGet
      cases hFind : s.findChild cur (skipSlashes p) (componentLen (skipSlashes p)) with
      | none =>
          simp only [hFind, bind_eq_ok] at h
          obtain ⟨ptr, s2, hAlloc, h⟩ := h
          rcases tmpfsAllocDentry_eq_ok hAlloc with ⟨rfl, hQuiet⟩ | ⟨rfl, hFits, hNode, hHeap⟩
          · cases h
            exact .noMemory hp hShort hFind hQuiet
          · have hStep : AllocStep s s2 cur (skipSlashes p) (mkdirRule.newType (skipSlashes p)) _ :=
              ⟨hLive, ⟨hp, skipSlashes_head p⟩, hShort, hFits, hFind, rfl, hNode, hHeap⟩
            exact .new hStep (makeRun_of_mkdirFrom fuel _ _ s2 s' r h hStep.newLive)
      | some child =>
          simp only [hFind, bind_eq_ok] at h
          obtain ⟨d, s2, hAt, h⟩ := h
          obtain ⟨rfl, hd⟩ := nodeAt_eq_ok hAt
          by_cases hDir : d.type ≠ .dir
          · rw [if_pos hDir] at h
            cases h
            exact .stopped hp hShort hFind hd hDir
          · rw [if_neg hDir] at h
            exact .old hp hShort hFind hd hDir
              (makeRun_of_mkdirFrom fuel _ _ s2 s' r h (Option.isSome_iff_exists.mpr ⟨d, hd⟩))

/-- The invariant rule for both loops: `J` holds whenever the loop is at the node `cur` with the path `p`
before it, `I` when it has returned. -/
theorem MakeRun.induct {rule : MakeRule} {J : Tmpfs → Nat → Str → Prop} {I : Tmpfs → Prop}
    (hEnd : ∀ s s' cur p, J s cur p → Quiet s s' → I s')
    (hNew : ∀ s s' cur p td, J s cur p →
      AllocStep s s' cur (skipSlashes p) (rule.newType (skipSlashes p)) td →
      J s' td ((skipSlashes p).drop (componentLen (skipSlashes p)).toNat))
    (hOld : ∀ s cur p child d, J s cur p → skipSlashes p ≠ [] →
      componentLen (skipSlashes p) ≤ fsNameMax →
      s.findChild cur (skipSlashes p) (componentLen (skipSlashes p)) = some child →
      s.node child = some d → ¬ rule.stops (skipSlashes p) d.type →
      J s child ((skipSlashes p).drop (componentLen (skipSlashes p)).toNat))
    {cur : Nat} {p : Str} {r : Int} (h : MakeRun rule s cur p r s') (hJ : J s cur p) : I s' := by
  induction h with
  | done hp => exact hEnd _ _ _ _ hJ .refl
  | tooLong hp hLong => exact hEnd _ _ _ _ hJ .refl
  | noMemory hp hShort hAbsent hQuiet => exact hEnd _ _ _ _ hJ hQuiet
  | stopped hp hShort hFind hd hStops => exact hEnd _ _ _ _ hJ .refl
  | new hStep hRest ih => exact ih (hNew _ _ _ _ _ hJ hStep)
  | old hp hShort hFind hd hStops hRest ih => exact ih (hOld _ _ _ _ _ hJ hp hShort hFind hd hStops)

/-- The invariant rule for the loop of `tmpfs_creat`. -/
theorem creatFrom_induct {J : Tmpfs → Nat → Str → Prop} {I : Tmpfs → Prop}
    (hEnd : ∀ s s' cur p, J s cur p → Quiet s s' → I s')
    (hNew : ∀ s s' cur p td, J s cur p → AllocStep s s' cur (skipSlashes p)
      (if strchr (skipSlashes p) slash = none then .file else .dir) td →
      J s' td ((skipSlashes p).drop (componentLen (skipSlashes p)).toNat))
    (hOld : ∀ s cur p child d, J s cur p → skipSlashes p ≠ [] →
      componentLen (skipSlashes p) ≤ fsNameMax →
      s.findChild cur (skipSlashes p) (componentLen (skipSlashes p)) = some child →
      s.node child = some d → (strchr (skipSlashes p) slash = none → d.type = .file) →
      J s child ((skipSlashes p).drop (componentLen (skipSlashes p)).toNat))
    (hLive : ∀ s cur p, J s cur p → (s.node cur).isSome) (fuel cur : Nat) (p : Str) (s s' : Tmpfs)
    (r : Int) (h : creatFrom fuel cur p s = .ok r s') (hJ : J s cur p) : I s' := by
  refine (makeRun_of_creatFrom fuel cur p s s' r h (hLive s cur p hJ)).induct hEnd hNew ?_ hJ
  intro s cur p child d hJ hp hShort hFind hd hStops
  refine hOld s cur p child d hJ hp hShort hFind hd fun hLast => ?_
  cases hType : d.type with
  | file => rfl
  | dir => exact absurd ⟨hLast, hType⟩ hStops

/-- The invariant rule for the loop of `tmpfs_mkdir`. -/
theorem mkdirFrom_induct {J : Tmpfs → Nat → Str → Prop} {I : Tmpfs → Prop}
    (hEnd : ∀ s s' cur p, J s cur p → Quiet s s' → I s')
    (hNew : ∀ s s' cur p td, J s cur p → AllocStep s s' cur (skipSlashes p) .dir td →
      J s' td ((skipSlashes p).drop (componentLen (skipSlashes p)).toNat))
    (hOld : ∀ s cur p child d, J s cur p → skipSlashes p ≠ [] →
      componentLen (skipSlashes p) ≤ fsNameMax →
      s.findChild cur (skipSlashes p) (componentLen (skipSlashes p)) = some child →
      s.node child = some d → d.type = .dir →
      J s child ((skipSlashes p).drop (componentLen (skipSlashes p)).toNat))
    (hLive : ∀ s cur p, J s cur p → (s.node cur).isSome) (fuel cur : Nat) (p : Str) (s s' : Tmpfs)
    (r : Int) (h : mkdirFrom fuel cur p s = .ok r s') (hJ : J s cur p) : I s' := by
  refine (makeRun_of_mkdirFrom fuel cur p s s' r h (hLive s cur p hJ)).induct hEnd hNew ?_ hJ
  intro s cur p child d hJ hp hShort hFind hd hStops
  exact hOld s cur p child d hJ hp hShort hFind hd (not_not.mp hStops)

/-! ## Removing and moving -/

/-- The node `td` has been taken off its list and given back. -/
structure RemoveStep (s s' : Tmpfs) (td : Nat) (d : TmpfsDentry) : Prop where
  notRoot : td ≠ tmpfsRoot
  found : s.node td = some d
  empty : d.type = .dir → d.children = []
  node : s'.node = ((s.listDel td).dropNode td).node
  kzallocs : s.heap.kzallocs ≤ s'.heap.kzallocs

/-- The node `src` has got a new name and is on the list of `dir`. -/
structure MoveStep (s s' : Tmpfs) (src dir : Nat) (name : Str) : Prop where
  srcLive : (s.node src).isSome
  dirLive : (s.node dir).isSome
  nonempty : intOfLength name.length ≠ 0 ∧ intOfLength name.length ≤ fsNameMax
  fits : 0 ≤ intOfLength name.length ∧ (intOfLength name.length).toNat ≤ name.length
  node : s'.node = (((s.listDel src).setNode src fun d =>
    { d with
      name := name.take (intOfLength name.length).toNat
      nmlen := intOfLength name.length
      parent := some dir }).listAddTail src dir).node
  kzallocs : s.heap.kzallocs ≤ s'.heap.kzallocs

theorem tmpfsFreeDentry_eq_ok {td : Nat} {u : Unit} (h : tmpfsFreeDentry td s = .ok u s') :
    td ≠ tmpfsRoot ∧ ∃ d, s.node td = some d ∧ s'.node = ((s.listDel td).dropNode td).node ∧
      s.heap.kzallocs ≤ s'.heap.kzallocs := by
  simp only [tmpfsFreeDentry, bind_eq_ok] at h
  obtain ⟨d, s1, hAt, _, s2, hDel, _, s3, hName, h⟩ := h
  obtain ⟨rfl, hd⟩ := nodeAt_eq_ok hAt
  cases hDel
  have hQuiet := kfreeName_eq_ok hName
  -- the data may be freed too
  obtain ⟨hUnlocked, hDrop⟩ : s3.heap.mmSpinlock = false ∧ s' = s3.dropNode td := by
    split at h
    · simp only [bind_eq_ok] at h
      obtain ⟨_, s4, hData, _, s5, hFree, hDrop⟩ := h
      rw [kfree_eq_ok hData] at hFree
      rw [kfree_eq_ok hFree] at hDrop
      cases hDrop
      exact ⟨unlocked_of_kfree hData, rfl⟩
    · simp only [bind_eq_ok] at h
      obtain ⟨_, s4, hFree, hDrop⟩ := h
      rw [kfree_eq_ok hFree] at hDrop
      cases hDrop
      exact ⟨unlocked_of_kfree hFree, rfl⟩
  rw [hDrop]
  refine ⟨?_, d, hd, ?_, hQuiet.kzallocs⟩
  · rintro rfl
    rw [locked_of_kfreeName_root hName] at hUnlocked
    cases hUnlocked
  simp only [dropNode, hQuiet.node]

/-- `tmpfs_unlink` changes nothing, or removes the node of its path. -/
theorem tmpfsUnlink_eq_ok {fuel : Nat} {path : Str} {r : Int}
    (h : tmpfsUnlink fuel path s = .ok r s') :
    (s' = s ∧ r < 0 ∧ ¬ ∃ td d, badPath path = false ∧ s.lookup fuel path = some (some td) ∧
        td ≠ tmpfsRoot ∧ s.node td = some d ∧ (d.type = .dir → d.children = [])) ∨
      (r = 0 ∧ badPath path = false ∧
        ∃ td d, s.lookup fuel path = some (some td) ∧ RemoveStep s s' td d) := by
  unfold tmpfsUnlink at h
  split at h
  · rename_i hBad
    cases h
    refine Or.inl ⟨rfl, by decide, ?_⟩
    rintro ⟨-, -, hPath, -⟩
    rw [hPath] at hBad
    cases hBad
  rename_i hPath
  have hPath : badPath path = false := by simpa using hPath
  simp only [bind_eq_ok] at h
  obtain ⟨found, s1, hLookup, h⟩ := h
  obtain ⟨rfl, hFound⟩ := tmpfsLookup_eq_ok hLookup
  cases found with
  | none =>
      cases h
      refine Or.inl ⟨rfl, by decide, ?_⟩
      rintro ⟨td, -, -, hFound', -⟩
      cases hFound.symm.trans hFound'
  | some td =>
      simp only at h
      split at h
      · rename_i hRoot
        cases h
        refine Or.inl ⟨rfl, by decide, ?_⟩
        rintro ⟨td', -, -, hFound', hNotRoot, -⟩
        cases hFound.symm.trans hFound'
        exact hNotRoot hRoot
      rename_i hRoot
      simp only [bind_eq_ok] at h
      obtain ⟨d, s2, hAt, h⟩ := h
      obtain ⟨rfl, hd⟩ := nodeAt_eq_ok hAt
      split at h
      · rename_i hFull
        cases h
        refine Or.inl ⟨rfl, by decide, ?_⟩
        rintro ⟨td', d', -, hFound', -, hd', hEmpty⟩
        cases hFound.symm.trans hFound'
        cases hd.symm.trans hd'
        exact hFull.2 (hEmpty hFull.1)
      rename_i hEmpty
      simp only [bind_eq_ok] at h
      obtain ⟨_, s3, hFree, h⟩ := h
      cases h
      obtain ⟨-, d', hd', hNode, hHeap⟩ := tmpfsFreeDentry_eq_ok hFree
      cases hd.symm.trans hd'
      refine Or.inr ⟨rfl, hPath, td, d, hFound, hRoot, hd, fun hDir => ?_, hNode, hHeap⟩
      by_contra hNe
      exact hEmpty ⟨hDir, hNe⟩

/-- The sum in the request for a copy of a string is 0 for one length only. -/
theorem intOfLength_of_size {n : Nat} (h : sizeOfLength (intOfLength n + 1) = 0) : intOfLength n = -1 := by
  have hLower := BitVec.le_toInt (BitVec.ofNat 32 n)
  have hUpper := BitVec.toInt_lt (w := 32) (x := BitVec.ofNat 32 n)
  simp only [sizeOfLength, BitVec.toNat_ofInt, intOfLength] at h
  rw [intOfLength]
  omega

/-- The end of `tmpfs_rename` has moved the node, or there was no memory. -/
theorem moveNode_eq_ok {src dir : Nat} {name : Str} {r : Int}
    (h : moveNode src dir name (intOfLength name.length) s = .ok r s')
    (hLen : intOfLength name.length ≠ 0 ∧ intOfLength name.length ≤ fsNameMax) :
    (r = errNomem ∧ Quiet s s' ∧
        (intOfLength name.length = -1 ∨ s.heap.memory s.heap.kzallocs = false)) ∨
      (r = 0 ∧ s.heap.memory s.heap.kzallocs = true ∧ MoveStep s s' src dir name) := by
  simp only [moveNode, bind_eq_ok] at h
  obtain ⟨ptr, s1, hAlloc, h⟩ := h
  obtain ⟨hQuiet1, -, hPtr⟩ := kzalloc_eq_ok hAlloc
  obtain ⟨-, hMemory⟩ := kzalloc_memory hAlloc
  rcases hPtr with rfl | rfl
  · cases h
    exact Or.inl ⟨rfl, hQuiet1, (hMemory.mp rfl).imp_left intOfLength_of_size⟩
  have hFound : s.heap.memory s.heap.kzallocs = true := by
    by_contra hNone
    have hNull := hMemory.mpr (Or.inr (by simpa using hNone))
    cases hNull
  simp only [bind_eq_ok] at h
  obtain ⟨copied, s2, hCopy, d, s3, hAt, _, s4, hDel, _, s5, hName, _, s6, hSet, d', s7, hAt', _, s8,
    hAdd, h⟩ := h
  obtain ⟨rfl, rfl, hFits⟩ := memcpyStr_eq_ok hCopy
  obtain ⟨rfl, hd⟩ := nodeAt_eq_ok hAt
  cases hDel
  have hQuiet2 := kfreeName_eq_ok hName
  cases hSet
  obtain ⟨rfl, hd'⟩ := nodeAt_eq_ok hAt'
  cases hAdd
  cases h
  have hDirLive : (s.node dir).isSome := by
    simp only [setNode, hQuiet2.node, listDel, hQuiet1.node] at hd'
    cases hDir : s.node dir with
    | none => simp [hDir] at hd'
    | some e => rfl
  refine Or.inr ⟨rfl, hFound, by rw [← hQuiet1.node, hd]; rfl, hDirLive, hLen, hFits, ?_,
    le_trans hQuiet1.kzallocs hQuiet2.kzallocs⟩
  simp only [listAddTail, setNode, hQuiet2.node, listDel, hQuiet1.node]

/-- `tmpfs_rename` may give back the node `e` with the new name below the new parent. -/
structure Replaces (s : Tmpfs) (dir : Nat) (name : Str) (e : Nat) (d : TmpfsDentry) : Prop where
  isDir : ∃ c, s.node dir = some c ∧ c.type = .dir
  find : s.findChild dir name (intOfLength name.length) = some e
  node : s.node e = some d
  empty : d.type = .dir → d.children = []

/-- What `tmpfs_rename` has done after both paths have been looked up, with its result: it may have removed
the node in the way, and may then have moved the node. -/
inductive RenameOutcome (s s' : Tmpfs) (src dir : Nat) (name : Str) (r : Int) : Prop where
  | same (hErr : r < 0) (hQuiet : Quiet s s') (hKept : ∀ e d, ¬ Replaces s dir name e d)
  | moved (hZero : r = 0) (hDir : ∃ d, s.node dir = some d ∧ d.type = .dir)
      (hAbsent : s.findChild dir name (intOfLength name.length) = none)
      (hMove : MoveStep s s' src dir name)
  | removed (t : Tmpfs) (e : Nat) (d : TmpfsDentry) (hErr : r < 0)
      (hFull : intOfLength name.length = -1 ∨ s.heap.memory s.heap.kzallocs = false)
      (hReplaces : Replaces s dir name e d) (hRemove : RemoveStep s t e d) (hQuiet : Quiet t s')
  | replaced (t : Tmpfs) (e : Nat) (d : TmpfsDentry) (hZero : r = 0)
      (hMemory : s.heap.memory s.heap.kzallocs = true) (hReplaces : Replaces s dir name e d)
      (hRemove : RemoveStep s t e d) (hMove : MoveStep t s' src dir name)

/-- `tmpfs_free_dentry` asks for no memory. -/
theorem tmpfsFreeDentry_heap {td : Nat} {u : Unit} (h : tmpfsFreeDentry td s = .ok u s') :
    s'.heap.memory = s.heap.memory ∧ s'.heap.kzallocs = s.heap.kzallocs := by
  simp only [tmpfsFreeDentry, bind_eq_ok] at h
  obtain ⟨d, s1, hAt, _, s2, hDel, _, s3, hName, h⟩ := h
  obtain ⟨rfl, -⟩ := nodeAt_eq_ok hAt
  cases hDel
  have hHeap : s3.heap.memory = s1.heap.memory ∧ s3.heap.kzallocs = s1.heap.kzallocs := by
    simp only [kfreeName, bind_eq_ok] at hName
    obtain ⟨_, s4, hFree, hName⟩ := hName
    rw [kfree_eq_ok hFree] at hName
    split at hName
    · cases hName
      exact ⟨rfl, rfl⟩
    · cases hName
      exact ⟨rfl, rfl⟩
  split at h
  · simp only [bind_eq_ok] at h
    obtain ⟨_, s4, hData, _, s5, hFree, hDrop⟩ := h
    rw [kfree_eq_ok hData] at hFree
    rw [kfree_eq_ok hFree] at hDrop
    cases hDrop
    exact hHeap
  · simp only [bind_eq_ok] at h
    obtain ⟨_, s4, hFree, hDrop⟩ := h
    rw [kfree_eq_ok hFree] at hDrop
    cases hDrop
    exact hHeap

theorem renameTo_eq_ok {src dir : Nat} {name : Str} {r : Int}
    (h : renameTo src dir name (intOfLength name.length) s = .ok r s')
    (hLen : intOfLength name.length ≠ 0 ∧ intOfLength name.length ≤ fsNameMax) :
    RenameOutcome s s' src dir name r := by
  simp only [renameTo, bind_eq_ok] at h
  obtain ⟨dd, s1, hAt, h⟩ := h
  obtain ⟨hSame, hdd⟩ := nodeAt_eq_ok hAt
  rw [hSame] at h
  split at h
  · rename_i hNotDir
    cases h
    refine .same (by decide) .refl fun e d hReplaces => ?_
    obtain ⟨c, hc, hDir⟩ := hReplaces.isDir
    cases hdd.symm.trans hc
    exact hNotDir hDir
  rename_i hDir
  have hDirFound : ∃ d, s.node dir = some d ∧ d.type = .dir := ⟨dd, hdd, not_not.mp hDir⟩
  simp only [bind_eq_ok] at h
  obtain ⟨_, s2, hGet, h⟩ := h
  cases hGet
  cases hFind : s.findChild dir name (intOfLength name.length) with
  | none =>
      simp only [hFind] at h
      rcases moveNode_eq_ok h hLen with ⟨rfl, hQuiet, -⟩ | ⟨hZero, -, hMove⟩
      · refine .same (by decide) hQuiet fun e d hReplaces => ?_
        cases hFind.symm.trans hReplaces.find
      · exact .moved hZero hDirFound hFind hMove
  | some e =>
      simp only [hFind, bind_eq_ok] at h
      obtain ⟨d, s3, hAt', h⟩ := h
      obtain ⟨hSame', hd⟩ := nodeAt_eq_ok hAt'
      rw [hSame'] at h
      split at h
      · rename_i hFull
        cases h
        refine .same (by decide) .refl fun e' d' hReplaces => ?_
        cases hFind.symm.trans hReplaces.find
        cases hd.symm.trans hReplaces.node
        exact hFull.2 (hReplaces.empty hFull.1)
      rename_i hNotFull
      simp only [bind_eq_ok] at h
      obtain ⟨_, t, hFree, h⟩ := h
      obtain ⟨hRoot, d', hd', hNode, hHeap⟩ := tmpfsFreeDentry_eq_ok hFree
      obtain ⟨hMemory, hCount⟩ := tmpfsFreeDentry_heap hFree
      cases hd.symm.trans hd'
      have hEmpty : d.type = .dir → d.children = [] := by
        intro hType
        by_contra hNe
        exact hNotFull ⟨hType, hNe⟩
      have hReplaces : Replaces s dir name e d := ⟨hDirFound, hFind, hd, hEmpty⟩
      have hRemove : RemoveStep s t e d := ⟨hRoot, hd, hEmpty, hNode, hHeap⟩
      rcases moveNode_eq_ok h hLen with ⟨rfl, hQuiet, hFull⟩ | ⟨hZero, hFound, hMove⟩
      · rw [hMemory, hCount] at hFull
        exact .removed t e d (by decide) hFull hReplaces hRemove hQuiet
      · rw [hMemory, hCount] at hFound
        exact .replaced t e d hZero hFound hReplaces hRemove hMove

/-- The position of the last slash of a path, and the parent directory that `tmpfs_rename` finds for
it. -/
def newParent (s : Tmpfs) (fuel : Nat) (newpath : Str) (i : Nat) : Option (Option Nat) :=
  if i = 0 then some (some tmpfsRoot) else s.lookup fuel (newpath.take (intOfLength i).toNat)

theorem newParentOf_eq_ok {fuel i : Nat} {newpath : Str} {err : Int} {r : Option Nat}
    (h : newParentOf fuel newpath i s = .ok (err, r) s') :
    Quiet s s' ∧ s'.heap.memory = s.heap.memory ∧
      s'.heap.kzallocs = s.heap.kzallocs + (if i = 0 then 0 else 1) ∧
      ((r = none ∧ err < 0 ∧ ∀ dir, s.newParent fuel newpath i = some (some dir) →
          i ≠ 0 ∧ s.heap.memory s.heap.kzallocs = false) ∨
        ∃ dir, r = some dir ∧ s.newParent fuel newpath i = some (some dir) ∧
          (i = 0 ∨ s.heap.memory s.heap.kzallocs = true)) := by
  unfold newParentOf at h
  unfold newParent
  by_cases hZero : i = 0
  · rw [if_pos hZero] at h
    cases h
    rw [if_pos hZero, if_pos hZero]
    exact ⟨.refl, rfl, rfl, Or.inr ⟨tmpfsRoot, rfl, rfl, Or.inl hZero⟩⟩
  rw [if_neg hZero] at h
  rw [if_neg hZero, if_neg hZero]
  simp only [bind_eq_ok] at h
  obtain ⟨ptr, s1, hAlloc, h⟩ := h
  obtain ⟨hQuiet1, hCount, hPtr⟩ := kzalloc_eq_ok hAlloc
  obtain ⟨hMemory, hFails⟩ := kzalloc_memory hAlloc
  rcases hPtr with rfl | rfl
  · cases h
    refine ⟨hQuiet1, hMemory, hCount, Or.inl ⟨rfl, by decide, fun dir hDir => ⟨hZero, ?_⟩⟩⟩
    rcases hFails.mp rfl with hSize | hNone
    · -- a copy of no bytes is no path
      rw [intOfLength_of_size hSize, show (-1 : Int).toNat = 0 from rfl, List.take_zero] at hDir
      cases hDir
    · exact hNone
  have hFound : s.heap.memory s.heap.kzallocs = true := by
    by_contra hNone
    have hNull := hFails.mpr (Or.inr (by simpa using hNone))
    cases hNull
  simp only [bind_eq_ok] at h
  obtain ⟨parentPath, s2, hCopy, found, s3, hLookup, _, s4, hFree, h⟩ := h
  obtain ⟨rfl, rfl, -⟩ := memcpyStr_eq_ok hCopy
  obtain ⟨rfl, hLooked⟩ := tmpfsLookup_eq_ok hLookup
  rw [kfree_eq_ok hFree] at h
  rw [lookup_congr hQuiet1.node] at hLooked
  cases found with
  | none =>
      cases h
      refine ⟨hQuiet1, hMemory, hCount, Or.inl ⟨rfl, by decide, fun dir hDir => ?_⟩⟩
      rw [hLooked] at hDir
      cases hDir
  | some dir' =>
      cases h
      exact ⟨hQuiet1, hMemory, hCount, Or.inr ⟨dir', rfl, hLooked, Or.inr hFound⟩⟩

/-- The paths given to `tmpfs_rename` have been found: the node `src` is to get the name `name` below
`dir`. -/
structure Renames (s : Tmpfs) (fuel : Nat) (oldpath newpath : Str) (src dir : Nat) (name : Str) :
    Prop where
  absolute : oldpath.head? = some slash ∧ newpath.head? = some slash
  notSlash : oldpath.length ≠ 1
  source : s.lookup fuel oldpath = some (some src)
  cut : ∃ i, strrchr newpath slash = some i ∧ s.newParent fuel newpath i = some (some dir) ∧
    name = newpath.drop (i + 1)
  length : intOfLength name.length ≠ 0 ∧ intOfLength name.length ≤ fsNameMax

/-- The copy of the parent of the new path is made, where one is needed. -/
def ParentCopied (s : Tmpfs) (newpath : Str) : Prop :=
  strrchr newpath slash = some 0 ∨ s.heap.memory s.heap.kzallocs = true

/-- The number of the request of `tmpfs_rename` for the new name. -/
def nameRequest (s : Tmpfs) (newpath : Str) : Nat :=
  s.heap.kzallocs + if strrchr newpath slash = some 0 then 0 else 1

/-- `tmpfs_rename` changes nothing, or both paths have been found. -/
theorem tmpfsRename_eq_ok {fuel : Nat} {oldpath newpath : Str} {r : Int}
    (h : tmpfsRename fuel oldpath newpath s = .ok r s') :
    (r < 0 ∧ Quiet s s' ∧
        ∀ src dir name, Renames s fuel oldpath newpath src dir name → ¬ ParentCopied s newpath) ∨
      ∃ src dir name t, Renames s fuel oldpath newpath src dir name ∧ Quiet s t ∧
        ParentCopied s newpath ∧ t.heap.memory = s.heap.memory ∧
        t.heap.kzallocs = s.nameRequest newpath ∧ RenameOutcome t s' src dir name r := by
  unfold tmpfsRename at h
  split at h
  · rename_i hRelative
    cases h
    refine Or.inl ⟨by decide, .refl, fun src dir name hRenames => ?_⟩
    rcases hRelative with hOld | hNew
    · exact absurd hRenames.absolute.1 hOld
    · exact absurd hRenames.absolute.2 hNew
  rename_i hAbsolute
  simp only [not_or, not_not] at hAbsolute
  split at h
  · rename_i hOne
    cases h
    exact Or.inl ⟨by decide, .refl, fun src dir name hRenames => absurd hOne hRenames.notSlash⟩
  rename_i hSlash
  simp only [bind_eq_ok] at h
  obtain ⟨found, s1, hLookup, h⟩ := h
  obtain ⟨hSame, hFound⟩ := tmpfsLookup_eq_ok hLookup
  rw [hSame] at h
  cases found with
  | none =>
      cases h
      refine Or.inl ⟨by decide, .refl, fun src dir name hRenames => ?_⟩
      cases hFound.symm.trans hRenames.source
  | some src =>
      simp only at h
      cases hLast : strrchr newpath slash with
      | none =>
          simp only [hLast] at h
          cases h
      | some i =>
          simp only [hLast] at h
          have hCut : ∀ src dir name, Renames s fuel oldpath newpath src dir name →
              s.newParent fuel newpath i = some (some dir) ∧ name = newpath.drop (i + 1) := by
            intro src dir name hRenames
            obtain ⟨j, hj, hParent, hName⟩ := hRenames.cut
            cases hLast.symm.trans hj
            exact ⟨hParent, hName⟩
          split at h
          · rename_i hBad
            cases h
            refine Or.inl ⟨by decide, .refl, fun src dir name hRenames => ?_⟩
            have hLength := hRenames.length
            rw [(hCut src dir name hRenames).2] at hLength
            rcases hBad with hZero | hLong
            · exact absurd hZero hLength.1
            · exact absurd hLength.2 (not_le.mpr hLong)
          rename_i hLen
          simp only [not_or, not_lt] at hLen
          simp only [bind_eq_ok] at h
          obtain ⟨⟨err, dir⟩, t, hParent, h⟩ := h
          obtain ⟨hQuiet, hMemory, hCount, hDir⟩ := newParentOf_eq_ok hParent
          rcases hDir with ⟨rfl, hErr, hNone⟩ | ⟨dir, rfl, hDir, hCopied⟩
          · cases h
            refine Or.inl ⟨hErr, hQuiet, fun src dir name hRenames hCopied => ?_⟩
            obtain ⟨hPos, hFull⟩ := hNone dir (hCut src dir name hRenames).1
            rcases hCopied with hZero | hFound'
            · cases hLast.symm.trans hZero
              exact hPos rfl
            · rw [hFull] at hFound'
              cases hFound'
          · have hLength : intOfLength (newpath.drop (i + 1)).length ≠ 0 ∧
                intOfLength (newpath.drop (i + 1)).length ≤ fsNameMax := ⟨hLen.1, by omega⟩
            refine Or.inr ⟨src, dir, _, t,
              ⟨hAbsolute, hSlash, hFound, ⟨i, hLast, hDir, rfl⟩, hLength⟩, hQuiet, ?_, hMemory, ?_,
              renameTo_eq_ok h hLength⟩
            · rw [ParentCopied, hLast, Option.some.injEq]
              exact hCopied
            · rw [hCount, nameRequest, hLast]
              simp only [Option.some.injEq]

/-! ## Data -/

/-- The data and the size of a file have been set. -/
structure WriteStep (s s' : Tmpfs) (td : Nat) (data : Option (List (BitVec 8))) (size : Nat) :
    Prop where
  found : ∃ d, s.node td = some d ∧ d.type = .file
  node : s'.node = (s.setNode td fun d => { d with data := data, size := size }).node
  kzallocs : s.heap.kzallocs ≤ s'.heap.kzallocs

theorem tmpfsRead_eq_ok {td : Option Nat} {len : Nat} {r : Int × List (BitVec 8)}
    (h : tmpfsRead td len s = .ok r s') : s' = s := by
  cases td with
  | none =>
      cases h
      rfl
  | some td =>
      simp only [tmpfsRead, bind_eq_ok] at h
      obtain ⟨d, s1, hAt, h⟩ := h
      obtain ⟨rfl, -⟩ := nodeAt_eq_ok hAt
      cases hData : d.data with
      | none =>
          simp only [hData] at h
          cases h
          rfl
      | some data =>
          simp only [hData] at h
          split at h
          · cases h
            rfl
          · cases h
            rfl

/-- The data of a file after `buf` has been written: a block of no bytes is NULL. -/
def writtenData (buf : List (BitVec 8)) : Option (List (BitVec 8)) := if buf = [] then none else some buf

/-- `tmpfs_write` changes nothing and returns an error, or sets the data of a file. -/
theorem tmpfsWrite_eq_ok {td : Option Nat} {buf : List (BitVec 8)} {r : Int}
    (h : tmpfsWrite td buf s = .ok r s') :
    (r < 0 ∧ Quiet s s' ∧ ∀ x d, td = some x → s.node x = some d → d.type = .file → buf ≠ []) ∨
      (r = buf.length ∧ ∃ x, td = some x ∧ WriteStep s s' x (writtenData buf) buf.length) := by
  cases td with
  | none =>
      cases h
      exact Or.inl ⟨by decide, .refl, nofun⟩
  | some td =>
      simp only [tmpfsWrite, bind_eq_ok] at h
      obtain ⟨d, s1, hAt, h⟩ := h
      obtain ⟨hSame, hd⟩ := nodeAt_eq_ok hAt
      rw [hSame] at h
      split at h
      · rename_i hNotFile
        cases h
        refine Or.inl ⟨by decide, .refl, fun x d' hx hd' hFile => ?_⟩
        cases hx
        cases hd.symm.trans hd'
        exact absurd hFile hNotFile
      rename_i hType
      simp only [bind_eq_ok] at h
      obtain ⟨ptr, s2, hAlloc, h⟩ := h
      obtain ⟨hQuiet, -, hPtr⟩ := kzalloc_eq_ok hAlloc
      obtain ⟨-, hFails⟩ := kzalloc_memory hAlloc
      have hWrite : ∀ data size t, t = s2.setNode td (fun d => { d with data := data, size := size }) →
          WriteStep s t td data size := by
        rintro data size t rfl
        refine ⟨⟨d, hd, not_not.mp hType⟩, ?_, hQuiet.kzallocs⟩
        simp only [setNode, hQuiet.node]
      rcases hPtr with rfl | rfl
      · simp only at h
        split at h
        · rename_i hLen
          cases h
          exact Or.inl ⟨by decide, hQuiet, fun _ _ _ _ _ => List.length_pos_iff.mp hLen⟩
        · rename_i hLen
          simp only [bind_eq_ok] at h
          obtain ⟨_, s3, hSet, h⟩ := h
          cases hSet
          cases h
          have hNil : buf = [] := List.length_eq_zero_iff.mp (by omega)
          rw [hNil]
          exact Or.inr ⟨rfl, td, rfl, hWrite _ _ _ rfl⟩
      · have hNe : buf ≠ [] := by
          rintro rfl
          have hNull := hFails.mpr (Or.inl rfl)
          cases hNull
        have hData : writtenData buf = some buf := if_neg hNe
        rw [hData]
        simp only at h
        split at h
        · simp only [bind_eq_ok] at h
          obtain ⟨_, s3, hFree, _, s4, hSet, h⟩ := h
          rw [kfree_eq_ok hFree] at hSet
          cases hSet
          cases h
          exact Or.inr ⟨rfl, td, rfl, hWrite _ _ _ rfl⟩
        · simp only [bind_eq_ok] at h
          obtain ⟨_, s4, hSet, h⟩ := h
          cases hSet
          cases h
          exact Or.inr ⟨rfl, td, rfl, hWrite _ _ _ rfl⟩

end Tmpfs

end Rayos
