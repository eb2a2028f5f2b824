import Mathlib.Data.List.TakeWhile
import Rayos.Fs.Fat32

/-!
# Looking up paths on a FAT32 volume

`fat32_lookup` depends on a path through its components only, and what it returns does not depend on the
bound that the model puts on its loops.  A path that goes on behind another one is looked up from the
entry of the other, whatever kind of entry it is: the driver does not look at `ATTR_DIRECTORY`.
-/

namespace Rayos

open CString

/-! ## The components of a path -/

/-- What follows the leading slashes. -/
theorem dropWhile_slash_append {path : Str} (t : Str) (h : path.dropWhile (· = slash) ≠ []) :
    (path ++ t).dropWhile (· = slash) = path.dropWhile (· = slash) ++ t := by
  induction path with
  | nil => exact absurd rfl h
  | cons c path ih =>
      rw [List.cons_append, List.dropWhile_cons, List.dropWhile_cons]
      rw [List.dropWhile_cons] at h
      by_cases hSlash : c = slash
      · simp only [hSlash, decide_true, if_true] at h ⊢
        exact ih h
      · simp [hSlash]

theorem dropWhile_slash_of_nil {path : Str} (t : Str) (h : path.dropWhile (· = slash) = []) :
    (path ++ t).dropWhile (· = slash) = t.dropWhile (· = slash) := by
  induction path with
  | nil => rfl
  | cons c path ih =>
      rw [List.dropWhile_cons] at h
      rw [List.cons_append, List.dropWhile_cons]
      by_cases hSlash : c = slash
      · simp only [hSlash, decide_true, if_true] at h ⊢
        exact ih h
      · simp [hSlash] at h

/-- A component ends where a slash is appended. -/
theorem cut_slash_append (r t : Str) :
    (r ++ slash :: t).takeWhile (· ≠ slash) = r.takeWhile (· ≠ slash) ∧
      (r ++ slash :: t).dropWhile (· ≠ slash) = r.dropWhile (· ≠ slash) ++ slash :: t := by
  induction r with
  | nil => simp
  | cons c r ih =>
      by_cases hSlash : c = slash
      · simp [hSlash]
      · simp only [List.cons_append, List.takeWhile_cons, List.dropWhile_cons, ne_eq, hSlash,
          not_false_eq_true, decide_true, if_true]
        exact ⟨by rw [ih.1], ih.2⟩

theorem pathNext_of_nil {path : Str} (h : path.dropWhile (· = slash) = []) : pathNext path = none := by
  rw [pathNext, h]

theorem pathNext_of_ne_nil {path : Str} (h : path.dropWhile (· = slash) ≠ []) :
    pathNext path = some ((path.dropWhile (· = slash)).takeWhile (· ≠ slash),
      (path.dropWhile (· = slash)).dropWhile (· ≠ slash)) := by
  rw [pathNext]
  split
  · contradiction
  · rfl

/-- What follows a component is shorter. -/
theorem pathNext_length {path name rest : Str} (h : pathNext path = some (name, rest)) :
    rest.length < path.length := by
  have hNe : path.dropWhile (· = slash) ≠ [] := by
    intro hNil
    rw [pathNext_of_nil hNil] at h
    cases h
  rw [pathNext_of_ne_nil hNe] at h
  cases h
  have hLe : (path.dropWhile (· = slash)).length ≤ path.length :=
    (List.dropWhile_suffix _).length_le
  have hHead := List.head_dropWhile_not (fun c : BitVec 8 => decide (c = slash)) hNe
  cases hDrop : path.dropWhile (· = slash) with
  | nil => exact absurd hDrop hNe
  | cons c tail =>
      have hc : c ≠ slash := by
        simpa [hDrop] using hHead
      have hTail : (tail.dropWhile (· ≠ slash)).length ≤ tail.length :=
        (List.dropWhile_suffix _).length_le
      rw [hDrop, List.length_cons] at hLe
      simp only [List.dropWhile_cons, ne_eq, hc, not_false_eq_true, decide_true, if_true] at hTail ⊢
      omega

theorem pathComponents_nil (n : Nat) : pathComponents n [] = [] := by
  cases n with
  | zero => rfl
  | succ n => rfl

/-- Bounds that are large enough give the same components. -/
theorem pathComponents_of_le :
    ∀ {n m : Nat} {path : Str}, path.length ≤ n → path.length ≤ m →
      pathComponents n path = pathComponents m path := by
  intro n
  induction n with
  | zero =>
      intro m path hn _
      rw [List.eq_nil_of_length_eq_zero (Nat.le_zero.mp hn), pathComponents_nil, pathComponents_nil]
  | succ n ih =>
      intro m path hn hm
      cases m with
      | zero =>
          rw [List.eq_nil_of_length_eq_zero (Nat.le_zero.mp hm), pathComponents_nil,
            pathComponents_nil]
      | succ m =>
          rw [pathComponents, pathComponents]
          cases hNext : pathNext path with
          | none => rfl
          | some next =>
              obtain ⟨name, rest⟩ := next
              have hShort := pathNext_length hNext
              exact congrArg (name :: ·) (ih (by omega) (by omega))

theorem components_of_none {path : Str} (h : pathNext path = none) : components path = [] := by
  rw [components]
  cases hLength : path.length with
  | zero => rfl
  | succ n => rw [pathComponents, h]

theorem components_of_some {path name rest : Str} (h : pathNext path = some (name, rest)) :
    components path = name :: components rest := by
  have hShort := pathNext_length h
  have hStep : pathComponents (rest.length + 1) path = name :: components rest := by
    rw [pathComponents, h, components]
  rw [components, ← hStep]
  cases hLength : path.length with
  | zero => omega
  | succ n =>
      rw [pathComponents, pathComponents, h]
      exact congrArg (name :: ·) (pathComponents_of_le (by omega) le_rfl)

theorem components_single {t : Str} (hNe : t ≠ []) (hSlash : slash ∉ t) : components (slash :: t) = [t] := by
  have hDrop : (slash :: t).dropWhile (· = slash) = t := by
    rw [List.dropWhile_cons, if_pos (by simp)]
    cases t with
    | nil => rfl
    | cons c t =>
        have hc : c ≠ slash := fun hEq => hSlash (hEq ▸ List.mem_cons_self)
        rw [List.dropWhile_cons, if_neg (by simpa using hc)]
  have hAll : ∀ c ∈ t, decide (c ≠ slash) = true := by
    intro c hc
    have hNot : c ≠ slash := fun hEq => hSlash (hEq ▸ hc)
    simpa using hNot
  have hNext : pathNext (slash :: t) = some (t, []) := by
    rw [pathNext_of_ne_nil (by rw [hDrop]; exact hNe), hDrop]
    rw [List.takeWhile_eq_self_iff.mpr hAll, List.dropWhile_eq_nil_iff.mpr hAll]
  rw [components_of_some hNext]
  rfl

/-- A path with one more component. -/
theorem components_append {t : Str} (hNe : t ≠ []) (hSlash : slash ∉ t) :
    ∀ {n : Nat} {path : Str}, path.length ≤ n →
      components (path ++ slash :: t) = components path ++ [t] := by
  intro n
  induction n with
  | zero =>
      intro path hn
      rw [List.eq_nil_of_length_eq_zero (Nat.le_zero.mp hn)]
      exact components_single hNe hSlash
  | succ n ih =>
      intro path hn
      by_cases hDrop : path.dropWhile (· = slash) = []
      · have hSame : pathNext (path ++ slash :: t) = pathNext (slash :: t) := by
          rw [pathNext, pathNext, dropWhile_slash_of_nil _ hDrop]
        have hWhole : components (path ++ slash :: t) = components (slash :: t) := by
          cases hNext : pathNext (slash :: t) with
          | none => rw [components_of_none hNext, components_of_none (hSame.trans hNext)]
          | some next =>
              rw [components_of_some hNext, components_of_some (hSame.trans hNext)]
        rw [hWhole, components_single hNe hSlash, components_of_none (pathNext_of_nil hDrop)]
        rfl
      · have hNext := pathNext_of_ne_nil hDrop
        have hShort := pathNext_length hNext
        have hLong : pathNext (path ++ slash :: t) =
            some ((path.dropWhile (· = slash)).takeWhile (· ≠ slash),
              (path.dropWhile (· = slash)).dropWhile (· ≠ slash) ++ slash :: t) := by
          obtain ⟨hTake, hRest⟩ := cut_slash_append (path.dropWhile (· = slash)) t
          rw [pathNext_of_ne_nil, dropWhile_slash_append _ hDrop, hTake, hRest]
          rw [dropWhile_slash_append _ hDrop]
          simp
        rw [components_of_some hNext, components_of_some hLong, ih (by omega)]
        rfl

/-! ## What a lookup returns -/

section Lookup

variable {junk : Junk} {disk : Disk}

theorem foreachFrom_mono {bpb : Fat32Bpb} {target : Str} {r : Int × Option DirEntry} :
    ∀ {fuel fuel' c : Nat} {lfn : Bytes} {ret : Int}, fuel ≤ fuel' →
      foreachFrom disk bpb target fuel c lfn ret = some r →
      foreachFrom disk bpb target fuel' c lfn ret = some r := by
  intro fuel
  induction fuel with
  | zero =>
      intro fuel' c lfn ret _ h
      cases h
  | succ fuel ih =>
      intro fuel' c lfn ret hLe h
      obtain ⟨fuel', rfl⟩ : ∃ k, fuel' = k + 1 := ⟨fuel' - 1, by omega⟩
      rw [foreachFrom] at h ⊢
      split
      · rw [if_pos (by assumption)] at h
        exact h
      · rw [if_neg (by assumption)] at h
        split at h
        · exact h
        · exact h
        · split at h
          · rw [if_pos (by assumption)]
            exact ih (by omega) h
          · cases h

theorem lookupEntryFrom_mono {r : Int × Option DirEntry} {fuel fuel' : Nat} (hLe : fuel ≤ fuel') :
    ∀ {names : List Str} {c : Nat} {entry : DirEntry},
      lookupEntryFrom fuel junk disk names c entry = some r →
      lookupEntryFrom fuel' junk disk names c entry = some r := by
  intro names
  induction names with
  | nil => intro c entry h; exact h
  | cons name names ih =>
      intro c entry h
      rw [lookupEntryFrom] at h ⊢
      cases hOne : fat32ForeachDirent fuel junk disk c name with
      | none =>
          rw [hOne] at h
          cases h
      | some one =>
          have hMore : fat32ForeachDirent fuel' junk disk c name = some one :=
            foreachFrom_mono hLe hOne
          rw [hOne] at h
          rw [hMore]
          simp only at h ⊢
          split
          · rw [if_pos (by assumption)] at h
            exact h
          · rw [if_neg (by assumption)] at h
            exact ih h

/-- A lookup returns one result. -/
theorem fat32Lookup_unique {path : Str} {fuel fuel' : Nat} {r r' : Int × Option DirEntry}
    (h : fat32Lookup fuel junk disk path = some r) (h' : fat32Lookup fuel' junk disk path = some r') :
    r = r' := by
  have hMax := lookupEntryFrom_mono (Nat.le_max_left fuel fuel') h
  have hMax' := lookupEntryFrom_mono (Nat.le_max_right fuel fuel') h'
  exact Option.some.inj (hMax.symm.trans hMax')

/-- A path that goes on behind one that is not found is not found. -/
theorem lookupEntryFrom_append_of_ne {r : Int × Option DirEntry} {fuel : Nat} (hRet : r.1 ≠ 0)
    (more : List Str) :
    ∀ {names : List Str} {c : Nat} {entry : DirEntry},
      lookupEntryFrom fuel junk disk names c entry = some r →
      lookupEntryFrom fuel junk disk (names ++ more) c entry = some r := by
  intro names
  induction names with
  | nil =>
      intro c entry h
      cases h
      exact absurd rfl hRet
  | cons name names ih =>
      intro c entry h
      rw [List.cons_append]
      rw [lookupEntryFrom] at h ⊢
      cases hOne : fat32ForeachDirent fuel junk disk c name with
      | none =>
          rw [hOne] at h
          cases h
      | some one =>
          rw [hOne] at h
          simp only at h ⊢
          split
          · rw [if_pos (by assumption)] at h
            exact h
          · rw [if_neg (by assumption)] at h
            exact ih h

/-- A path that goes on behind one that is found is looked up from the entry that was found. -/
theorem lookupEntryFrom_append_of_found {found : DirEntry} {fuel : Nat} (more : List Str) :
    ∀ {names : List Str} {c : Nat} {entry : DirEntry}, names ≠ [] →
      lookupEntryFrom fuel junk disk names c entry = some (0, some found) →
      lookupEntryFrom fuel junk disk (names ++ more) c entry =
        lookupEntryFrom fuel junk disk more found.firstCluster found := by
  intro names
  induction names with
  | nil =>
      intro c entry hNe _
      exact absurd rfl hNe
  | cons name names ih =>
      intro c entry _ h
      rw [List.cons_append]
      rw [lookupEntryFrom] at h ⊢
      cases hOne : fat32ForeachDirent fuel junk disk c name with
      | none =>
          rw [hOne] at h
          cases h
      | some one =>
          rw [hOne] at h
          simp only at h ⊢
          split
          · rw [if_pos (by assumption), Option.some.injEq, Prod.mk.injEq] at h
            cases h.2
          · rw [if_neg (by assumption)] at h
            cases names with
            | nil =>
                cases h
                rfl
            | cons next names => exact ih (by simp) h

end Lookup

end Rayos
