import Rayos.Lib.AccessTrace
import Rayos.Fs.Fat32
import Rayos.Fs.Vfs
import Mathlib.Data.List.GetD
import Mathlib.Data.List.TakeWhile

/-!
# The buffers for paths and names (`mount.c`, `fat32.c`)

The stores of the functions that copy a path or a name, as they come: the length that the buffer was asked for, and
the index.  What lies outside of a buffer may be anything.

* `mountNodev_inBounds_iff` — the loop over the slashes at the end stops at another character or below the buffer;
* `fat32MakeLfnEntry_inBounds_iff` — the terminator behind the second fragment of a name;
* `pathBuffers_exact` — all of them.
-/

namespace Rayos

open CString AccessTrace

/-- A path in memory. -/
structure PathString where
  chars : Str
  noNul : 0#8 ∉ chars
  inMemory : chars.length < 2 ^ 64

/-! ## `mount.c` -/

/-- The loop of `mount_get_by_name`: what `memset` clears behind the last slash, until a mount is found. -/
def mountGetByNameLoop (mounts : List Mount) (size : Nat) : Nat → Str → List Access
  | 0, _ => []
  | fuel + 1, buf =>
      match strrchr buf slash with
      | none => []
      | some i =>
          let matchPath := buf.take i
          span size i (buf.length - i) ++
            match mounts.find? fun pos => strncmpEq pos.mntPath matchPath matchPath.length with
            | some _ => []
            | none => mountGetByNameLoop mounts size fuel matchPath

/-- The stores of `mount_get_by_name` to `path_buff`; `strcpy` comes first. -/
def mountGetByNameTrace (mounts : List Mount) (path : Str) : List Access :=
  span path.length 0 (path.length + 1) ++ mountGetByNameLoop mounts path.length path.length path

/-- The loop of `mount_nodev` over the slashes at the end: a load, and a store where it finds one. -/
def mountNodevLoop (size : Nat) : Nat → (Int → BitVec 8) → Int → List Access
  | 0, _, _ => []
  | fuel + 1, buf, p =>
      ⟨size, p⟩ ::
        if buf p = slash then ⟨size, p⟩ :: mountNodevLoop size fuel (Function.update buf p 0#8) (p - 1) else []

/-- `mnt_path` before the loop, with what lies around it. -/
def mntPathBuf (junk : Int → BitVec 8) (size : Nat) (len : Int) (path : Str) : Int → BitVec 8 := fun i =>
  if 0 ≤ i ∧ i < path.length then path.getD i.toNat 0#8
  else if i = len then 0#8
  else if 0 ≤ i ∧ i < size then 0#8
  else junk i

/-- The accesses of `mount_nodev` to `mnt_path` in the first `fuel` rounds of the loop, where `mnt` is the result of the
first `kzalloc`.  The length is an `int`, and so is the sum in `len + 1`. -/
def mountNodevTrace (mnt : U64) (junk : Int → BitVec 8) (path : Str) (fuel : Nat) : List Access :=
  if mnt = 0#64 then []
  else
    let len := intOfSize (BitVec.ofNat 64 path.length)
    let size := (sizeOfInt (BitVec.ofInt 32 (len + 1)).toInt).toNat
    ⟨size, len⟩ :: (span size 0 path.length ++ mountNodevLoop size fuel (mntPathBuf junk size len path) (len - 1))

/-! ## `fat32.c` -/

/-- The loop of `fat32_create` that cuts the last component off. -/
def cutTrace (size : Nat) (dir : Str) : Nat → List Access
  | 0 => []
  | count + 1 =>
      if dir.getD (count + 1) 0#8 ≠ 0#8 ∧ dir.getD (count + 1) 0#8 ≠ slash then
        ⟨size, (count + 1 : Nat)⟩ :: cutTrace size dir count
      else []

/-- The stores of `fat32_create` to `dir` and `fn`, where `lookup` is what `fat32_lookup` returns for the path.  The
loop over `path_next` ends with the first component, and does not end when there is none. -/
def fat32CreateTrace (lookup : Int) (path : Str) : List Access :=
  if lookup = 0 then []
  else
    span path.length 0 (path.length + 1) ++
      match pathNext path with
      | none => []
      | some (fn, _) =>
          span fat32LfnMaxLen 0 (fn.length + 1) ++
            cutTrace path.length path (intOfSize (BitVec.ofNat 64 path.length - 1#64)).toNat

/-- The stores of `fat32_get_parent` to `parent`, for which `size` bytes were asked. -/
def fat32GetParentTrace (size : Nat) (path : Str) : List Access :=
  if path.length ≤ 1 then span size 0 2
  else
    span size 0 (path.length + 1) ++
      match strrchr path slash with
      | none => []
      | some 0 => [⟨size, 1⟩]
      | some i => [⟨size, i⟩]

/-- The stores of `fat32_open` to `parent` and `fp->path`, where `lookup` is what `fat32_lookup` returns for the path
and `isDir` is the attribute of the entry. -/
def fat32OpenTrace (lookup : Int) (isDir : Bool) (path : Str) : List Access :=
  fat32GetParentTrace path.length path ++
    if lookup < 0 ∨ isDir then [] else span (path.length + 1) 0 (path.length + 1)

/-- The number of characters that `ascii_to_utf16` converts. -/
def asciiLen (ascii : Bytes) (maxChars : Nat) : Nat :=
  (((List.range maxChars).map ascii).takeWhile (· ≠ 0#8)).length

/-- The stores of `ascii_to_utf16` to an array of `size` units: the characters and the terminator. -/
def asciiToUtf16Trace (size : Nat) (ascii : Bytes) (maxChars : Nat) : List Access :=
  span size 0 (asciiLen ascii maxChars + 1)

/-- The stores of `fat32_make_lfn_entry` to `name`, which has 6 units, and to the names of the entry. -/
def fat32MakeLfnEntryTrace (fn : Bytes) : List Access :=
  asciiToUtf16Trace 6 fn 5 ++ span 5 0 5 ++
    (asciiToUtf16Trace 6 (fun k => fn (5 + k)) 6 ++ span 6 0 6) ++
    (asciiToUtf16Trace 6 (fun k => fn (11 + k)) 2 ++ span 2 0 2)

/-! ## `mount_nodev` -/

/-- Through slashes only the loop gets below the buffer. -/
theorem mountNodevLoop_below (size : Nat) : ∀ (k : Nat) (buf : Int → BitVec 8),
    (∀ q : Nat, q < k → buf q = slash) → ∃ fuel, ⟨size, -1⟩ ∈ mountNodevLoop size fuel buf ((k : Int) - 1) := by
  intro k
  induction k with
  | zero => exact fun buf _ => ⟨1, List.mem_cons_self⟩
  | succ k ih =>
      intro buf hSlash
      have hHere : ((k + 1 : Nat) : Int) - 1 = k := by omega
      obtain ⟨fuel, hBelow⟩ := ih (Function.update buf k 0#8) fun q hq => by
        rw [Function.update_of_ne (by omega)]
        exact hSlash q (by omega)
      refine ⟨fuel + 1, ?_⟩
      rw [hHere, mountNodevLoop, if_pos (hSlash k (Nat.lt_succ_self k))]
      exact List.mem_cons_of_mem _ (List.mem_cons_of_mem _ hBelow)

/-- Another character stops it. -/
theorem mountNodevLoop_inBounds {size : Nat} {j : Int} (hj : 0 ≤ j) : ∀ (fuel : Nat) (buf : Int → BitVec 8) (p : Int),
    j ≤ p → p < size → buf j ≠ slash → InBounds (mountNodevLoop size fuel buf p) := by
  intro fuel
  induction fuel with
  | zero => exact fun buf p _ _ _ => inBounds_nil
  | succ fuel ih =>
      intro buf p hjp hp hStop
      have hInside : Access.Inside ⟨size, p⟩ := ⟨by show 0 ≤ p; omega, hp⟩
      rw [mountNodevLoop, inBounds_cons]
      refine ⟨hInside, ?_⟩
      by_cases hSlash : buf p = slash
      · have hNe : j ≠ p := fun hEq => hStop (hEq ▸ hSlash)
        rw [if_pos hSlash, inBounds_cons]
        refine ⟨hInside, ih _ (p - 1) (by omega) (by omega) ?_⟩
        rw [Function.update_of_ne hNe]
        exact hStop
      · rw [if_neg hSlash]
        exact inBounds_nil

/-- The length as an `int`. -/
theorem mountLen_eq {n : Nat} (hn : n < 2 ^ 64) : intOfSize (BitVec.ofNat 64 n) =
    if n % 2 ^ 32 < 2 ^ 31 then ((n % 2 ^ 32 : Nat) : Int) else ((n % 2 ^ 32 : Nat) : Int) - 2 ^ 32 := by
  rw [intOfSize, BitVec.toInt_eq_toNat_cond, BitVec.toNat_setWidth, BitVec.toNat_ofNat, Nat.mod_eq_of_lt hn]
  by_cases hLow : n % 2 ^ 32 < 2 ^ 31
  · rw [if_pos (by omega), if_pos hLow]
  · rw [if_neg (by omega), if_neg hLow]
    rfl

/-- What `kzalloc(len + 1)` is asked for. -/
theorem mountSize_eq {r : Nat} (hr : r < 2 ^ 31) :
    (sizeOfInt (BitVec.ofInt 32 ((r : Int) + 1)).toInt).toNat = if r < 2 ^ 31 - 1 then r + 1 else 2 ^ 64 - 2 ^ 31 := by
  have hInt : (BitVec.ofInt 32 ((r : Int) + 1)) = BitVec.ofNat 32 (r + 1) := by
    rw [← Int.natCast_succ, BitVec.ofInt_natCast]
  rw [hInt, BitVec.toInt_eq_toNat_cond, BitVec.toNat_ofNat, Nat.mod_eq_of_lt (by omega)]
  by_cases hFits : r < 2 ^ 31 - 1
  · rw [if_pos (by omega), if_pos hFits, sizeOfInt_natCast_toNat (by omega)]
  · have hMax : r = 2 ^ 31 - 1 := by omega
    subst hMax
    rw [if_neg hFits]
    decide

/-- What `mount_nodev` needs: the length is an `int` with a successor, or one that wraps to it, and among the characters
that it counts one is not a slash. -/
def NodevFits (path : Str) : Prop :=
  (path.length < 2 ^ 31 - 1 ∨ path.length % 2 ^ 32 = 2 ^ 31 - 1) ∧
    ∃ c ∈ path.take (path.length % 2 ^ 32), c ≠ slash

theorem mountNodev_inBounds_iff {mnt : U64} (hMnt : mnt ≠ 0#64) (junk : Int → BitVec 8) (path : PathString) :
    (∀ fuel, InBounds (mountNodevTrace mnt junk path.chars fuel)) ↔ NodevFits path.chars := by
  have hMemory := path.inMemory
  generalize path.chars = chars at hMemory ⊢
  have hLen := mountLen_eq hMemory
  unfold NodevFits
  simp only [mountNodevTrace, if_neg hMnt, inBounds_cons, inBounds_append, inBounds_span_zero]
  generalize hr : chars.length % 2 ^ 32 = r at hLen ⊢
  by_cases hLow : r < 2 ^ 31
  · have hSize := mountSize_eq hLow
    rw [if_pos hLow] at hLen
    rw [hLen]
    generalize hs : (sizeOfInt (BitVec.ofInt 32 ((r : Int) + 1)).toInt).toNat = size at hSize ⊢
    -- the characters below the length
    have hBuf : ∀ q : Nat, q < r → mntPathBuf junk size r chars q = chars.getD q 0#8 := by
      intro q hq
      rw [mntPathBuf, if_pos (by omega), Int.toNat_natCast]
    constructor
    · intro hAll
      obtain ⟨-, hCopy, -⟩ := hAll 0
      refine ⟨?_, ?_⟩
      · by_cases hFits : r < 2 ^ 31 - 1
        · rw [if_pos hFits] at hSize
          omega
        · omega
      · by_contra hNone
        obtain ⟨fuel, hBelow⟩ := mountNodevLoop_below size r (mntPathBuf junk size r chars) fun q hq => by
          rw [hBuf q hq]
          by_contra hOther
          refine hNone ⟨chars.getD q 0#8, ?_, hOther⟩
          have hIn : q < chars.length := by omega
          rw [List.getD_eq_getElem _ _ hIn]
          exact List.mem_take_iff_getElem.mpr ⟨q, by omega, rfl⟩
        obtain ⟨hLow', -⟩ := (hAll fuel).2.2 _ hBelow
        simp only at hLow'
        omega
    · rintro ⟨hShort, c, hc, hOther⟩ fuel
      obtain ⟨q, hq, rfl⟩ := List.mem_take_iff_getElem.mp hc
      have hFit : (r : Int) < size ∧ chars.length ≤ size := by
        by_cases hFits : r < 2 ^ 31 - 1
        · rw [if_pos hFits] at hSize
          omega
        · rw [if_neg hFits] at hSize
          omega
      refine ⟨⟨by show (0 : Int) ≤ r; omega, hFit.1⟩, hFit.2, ?_⟩
      apply mountNodevLoop_inBounds (j := (q : Int)) (by omega) fuel _ _ (by omega) (by omega)
      rw [hBuf q (by omega), List.getD_eq_getElem _ _ (by omega)]
      exact hOther
  · -- the length is negative
    rw [if_neg hLow] at hLen
    rw [hLen]
    refine iff_of_false (fun hAll => ?_) (fun hFits => by omega)
    have hFirst := (hAll 0).1.1
    simp only at hFirst
    omega

/-! ## The others -/

theorem mountGetByName_outOfBounds (mounts : List Mount) (path : Str) :
    ¬ InBounds (mountGetByNameTrace mounts path) := by
  rw [mountGetByNameTrace, inBounds_append, inBounds_span_zero]
  omega

theorem fat32Create_inBounds_iff (lookup : Int) (path : Str) : InBounds (fat32CreateTrace lookup path) ↔ lookup = 0 := by
  rw [fat32CreateTrace]
  by_cases hFound : lookup = 0
  · rw [if_pos hFound]
    exact iff_of_true inBounds_nil hFound
  · rw [if_neg hFound, inBounds_append, inBounds_span_zero]
    refine iff_of_false (fun hAll => ?_) hFound
    have hCopy := hAll.1
    omega

theorem fat32GetParent_outOfBounds (path : Str) : ¬ InBounds (fat32GetParentTrace path.length path) := by
  rw [fat32GetParentTrace]
  by_cases hShort : path.length ≤ 1
  · rw [if_pos hShort, inBounds_span_zero]
    omega
  · rw [if_neg hShort, inBounds_append, inBounds_span_zero]
    omega

theorem fat32Open_outOfBounds (lookup : Int) (isDir : Bool) (path : Str) :
    ¬ InBounds (fat32OpenTrace lookup isDir path) := by
  rw [fat32OpenTrace, inBounds_append]
  exact fun hAll => fat32GetParent_outOfBounds path hAll.1

theorem asciiLen_le (ascii : Bytes) (maxChars : Nat) : asciiLen ascii maxChars ≤ maxChars := by
  have hLe := (List.takeWhile_prefix (· ≠ 0#8) (l := (List.range maxChars).map ascii)).length_le
  rw [List.length_map, List.length_range] at hLe
  exact hLe

/-- All characters are converted when none of them is zero. -/
theorem asciiLen_eq_iff (ascii : Bytes) (maxChars : Nat) :
    asciiLen ascii maxChars = maxChars ↔ ∀ k, k < maxChars → ascii k ≠ 0#8 := by
  have hPrefix := List.takeWhile_prefix (· ≠ 0#8) (l := (List.range maxChars).map ascii)
  have hLength : ((List.range maxChars).map ascii).length = maxChars := by
    rw [List.length_map, List.length_range]
  constructor
  · intro hAll k hk
    have hSame := hPrefix.eq_of_length (by rw [hLength]; exact hAll)
    have hMem : ascii k ∈ ((List.range maxChars).map ascii).takeWhile (· ≠ 0#8) := by
      rw [hSame]
      exact List.mem_map.mpr ⟨k, List.mem_range.mpr hk, rfl⟩
    have hKept := List.mem_takeWhile_imp hMem
    exact of_decide_eq_true hKept
  · intro hNe
    have hSame : ((List.range maxChars).map ascii).takeWhile (· ≠ 0#8) = (List.range maxChars).map ascii := by
      rw [List.takeWhile_eq_self_iff]
      intro c hc
      obtain ⟨k, hk, rfl⟩ := List.mem_map.mp hc
      exact decide_eq_true (hNe k (List.mem_range.mp hk))
    rw [asciiLen, hSame, hLength]

/-- The second fragment has room for six characters, but not for a terminator behind them. -/
theorem fat32MakeLfnEntry_inBounds_iff (fn : Bytes) :
    InBounds (fat32MakeLfnEntryTrace fn) ↔ ∃ k, k < 6 ∧ fn (5 + k) = 0#8 := by
  have hFirst := asciiLen_le fn 5
  have hSecond := asciiLen_le (fun k => fn (5 + k)) 6
  have hThird := asciiLen_le (fun k => fn (11 + k)) 2
  have hFull := asciiLen_eq_iff (fun k => fn (5 + k)) 6
  simp only [fat32MakeLfnEntryTrace, asciiToUtf16Trace, inBounds_append, inBounds_span_zero]
  constructor
  · rintro ⟨⟨-, hRoom, -⟩, -⟩
    by_contra hNone
    have hAll := hFull.mpr fun k hk hZero => hNone ⟨k, hk, hZero⟩
    omega
  · rintro ⟨k, hk, hZero⟩
    have hNot : asciiLen (fun k => fn (5 + k)) 6 ≠ 6 := fun hAll => hFull.mp hAll k hk hZero
    omega

/-- **The buffers for paths and names.**  When all stores, and the loads of the loop over slashes, are inside the
buffers:

1. in `mount_get_by_name` for no path;
2. in `mount_nodev` when there is no memory for the mount, or when the path has another character than slashes and its
   length fits;
3. in `fat32_create` when the path exists already;
4. in `fat32_open` and in `fat32_get_parent` for no path;
5. in `fat32_make_lfn_entry` when the characters of the second fragment end before the sixth. -/
theorem pathBuffers_exact (path : PathString) (mounts : List Mount) (mnt : U64) (junk : Int → BitVec 8)
    (lookup : Int) (isDir : Bool) (fn : Bytes) :
    ¬ InBounds (mountGetByNameTrace mounts path.chars) ∧
    ((∀ fuel, InBounds (mountNodevTrace mnt junk path.chars fuel)) ↔ mnt = 0#64 ∨ NodevFits path.chars) ∧
    (InBounds (fat32CreateTrace lookup path.chars) ↔ lookup = 0) ∧
    (¬ InBounds (fat32OpenTrace lookup isDir path.chars) ∧
      ¬ InBounds (fat32GetParentTrace path.chars.length path.chars)) ∧
    (InBounds (fat32MakeLfnEntryTrace fn) ↔ ∃ k, k < 6 ∧ fn (5 + k) = 0#8) := by
  refine ⟨mountGetByName_outOfBounds mounts path.chars, ?_, fat32Create_inBounds_iff lookup path.chars,
    ⟨fat32Open_outOfBounds lookup isDir path.chars, fat32GetParent_outOfBounds path.chars⟩,
    fat32MakeLfnEntry_inBounds_iff fn⟩
  by_cases hMnt : mnt = 0#64
  · refine iff_of_true (fun fuel => ?_) (Or.inl hMnt)
    rw [mountNodevTrace, if_pos hMnt]
    exact inBounds_nil
  · rw [mountNodev_inBounds_iff hMnt junk path, or_iff_right hMnt]

/-- The path "/m/" is mounted inside its buffer, even with slashes all around it. -/
theorem pathBuffers_exact_mount : InBounds (mountNodevTrace 1#64 (fun _ => slash) [slash, 0x6d#8, slash] 9) := by
  let path : PathString := ⟨[slash, 0x6d#8, slash], by decide, by decide⟩
  have hExact := pathBuffers_exact path [] 1#64 (fun _ => slash) 0 false (fun _ => 0#8)
  refine hExact.2.1.mpr (Or.inr ⟨Or.inl (by decide), ?_⟩) 9
  exact ⟨0x6d#8, by decide, by decide⟩

/-- The path "/": `mount_nodev` loads below its buffer, and the copies of the path end behind theirs. -/
theorem pathBuffers_root :
    ¬ InBounds (mountGetByNameTrace [] [slash]) ∧ ¬ InBounds (mountNodevTrace 1#64 (fun _ => 0#8) [slash] 2) ∧
      ¬ InBounds (fat32CreateTrace (-1) [slash]) ∧ ¬ InBounds (fat32OpenTrace 0 true [slash]) := by
  decide

end Rayos
