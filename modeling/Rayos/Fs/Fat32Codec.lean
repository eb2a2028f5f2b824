import Mathlib.Data.List.GetD
import Rayos.Fs.Fat32Names

/-!
# How `fat32.c` stores a name and reads it back

A long name is stored in fragments of 13 characters, the last one first, and `fat32_lfn_concat` puts a
fragment at the place that its number gives.  A short name is stored in 8 and 3 bytes, and `sfn_to_ascii`
puts a dot between them; `fat32_need_lfn` says when that is enough.
-/

namespace Rayos

open LittleEndian CString

/-! ## Long names -/

/-- `fn + (nr - 1) * 13`, in a buffer that is zero after the name. -/
def lfnFragment (fn : Str) (nr : Nat) : Bytes := fun k => fn.getD ((nr - 1) * 13 + k) 0#8

/-- The number of fragments, `nr_lfn`. -/
def nrLfnOf (fn : Str) : Nat := fn.length / 13 + 1

/-- The entry of fragment `nr`, as `fat32_create` makes it in a slot. -/
def lfnEntry (junk : Junk) (slot : DirEntry) (fn : Str) (nr : Nat) : DirEntry :=
  fat32MakeLfnEntry junk slot (lfnFragment fn nr) (if nr = nrLfnOf fn then lfnOrderLastEntry ||| nr else nr)

/-- The fragments in the order of the directory; each slot and each scratch array has its own contents. -/
def lfnEntries (junk : Nat → Junk) (slot : Nat → DirEntry) (fn : Str) : List DirEntry :=
  (List.range (nrLfnOf fn)).reverse.map fun i => lfnEntry (junk (i + 1)) (slot (i + 1)) fn (i + 1)

/-- `fat32_lfn_concat` for each of the entries. -/
def lfnConcat (entries : List DirEntry) (buf : Bytes) : Bytes :=
  entries.foldl (fun buf entry => fat32LfnConcat entry buf) buf

/-- A round of `fat32_create` that takes a free slot stores `lfnEntry` there. -/
theorem fillSlots_lfnEntry {junk : Junk} {bpb : Fat32Bpb} {fn : Str} {cluster n i nr : Nat} {disk : Disk}
    {buf : Bytes} (hFree : slotFree (dirSlot buf i) = true) (hNeed : fat32NeedLfn fn = true) (hPos : 1 ≤ nr)
    (hLe : nr ≤ nrLfnOf fn) :
    fillSlots junk bpb fn cluster (nrLfnOf fn + 1) (n + 1) i disk buf nr =
      fillSlots junk bpb fn cluster (nrLfnOf fn + 1) n (i + 1)
        (writeCluster disk bpb cluster (putSlot buf i (lfnEntry junk (dirSlot buf i) fn nr)))
        (putSlot buf i (lfnEntry junk (dirSlot buf i) fn nr)) (nr - 1) := by
  have hLast : nrLfnOf fn + 1 - nr = 1 ↔ nr = nrLfnOf fn := by omega
  have hTake : (fat32NeedLfn fn && decide (1 ≤ nr)) = true := by
    rw [hNeed, decide_eq_true hPos]
    rfl
  rw [fillSlots]
  simp only
  rw [if_pos hFree, if_pos hTake]
  simp only [hLast]
  rfl

/-- The bytes of an array of UTF-16 units are its units. -/
theorem units_of_bytes {entry : DirEntry} {off count : Nat} {units : Nat → BitVec 16}
    (h : ∀ a, off ≤ a → a < off + 2 * count →
      entry.bytes a = BitVec.ofNat 8 ((units ((a - off) / 2)).toNat / 256 ^ ((a - off) % 2))) :
    entry.units off count = (List.range count).map units := by
  apply List.map_congr_left
  intro k hk
  rw [List.mem_range] at hk
  have hLow := h (off + 2 * k) (by omega) (by omega)
  have hHigh := h (off + 2 * k + 1) (by omega) (by omega)
  rw [show (off + 2 * k - off) / 2 = k by omega, show (off + 2 * k - off) % 2 = 0 by omega] at hLow
  rw [show (off + 2 * k + 1 - off) / 2 = k by omega, show (off + 2 * k + 1 - off) % 2 = 1 by omega] at hHigh
  have hUnit := (units k).isLt
  apply BitVec.eq_of_toNat_eq
  rw [leNat, leNat, leNat, hLow, hHigh]
  simp only [BitVec.toNat_ofNat]
  omega

section Fragment

variable (junk : Junk) (slot : DirEntry) (f : Bytes) (order : Nat)

theorem units1_longName : (fat32MakeLfnEntry junk slot f order).units 1 5 =
    (List.range 5).map (asciiToUtf16 f 5 junk.name) := by
  apply units_of_bytes
  intro a hLo hHi
  rw [fat32MakeLfnEntry, DirEntry.bytes_ofBytes (by omega)]
  simp only [putBytes, putLe, putUnits, List.length_cons, List.length_nil]
  rw [if_neg (by omega), if_neg (by omega), if_neg (by omega), if_neg (by omega), if_pos (by omega)]

theorem units2_longName : ∃ scratch, (fat32MakeLfnEntry junk slot f order).units 14 6 =
    (List.range 6).map (asciiToUtf16 (fun k => f (5 + k)) 6 scratch) := by
  refine ⟨asciiToUtf16 f 5 junk.name, ?_⟩
  apply units_of_bytes
  intro a hLo hHi
  rw [fat32MakeLfnEntry, DirEntry.bytes_ofBytes (by omega)]
  simp only [putBytes, putLe, putUnits, List.length_cons, List.length_nil]
  rw [if_neg (by omega), if_neg (by omega), if_neg (by omega), if_pos (by omega)]

theorem units3_longName : ∃ scratch, (fat32MakeLfnEntry junk slot f order).units 28 2 =
    (List.range 2).map (asciiToUtf16 (fun k => f (11 + k)) 2 scratch) := by
  refine ⟨asciiToUtf16 (fun k => f (5 + k)) 6 (asciiToUtf16 f 5 junk.name), ?_⟩
  apply units_of_bytes
  intro a hLo hHi
  rw [fat32MakeLfnEntry, DirEntry.bytes_ofBytes (by omega)]
  simp only [putBytes, putLe, putUnits, List.length_cons, List.length_nil]
  rw [if_neg (by omega), if_neg (by omega), if_pos (by omega)]

theorem name0_longName : (fat32MakeLfnEntry junk slot f order).name0 = BitVec.ofNat 8 order := by
  rw [fat32MakeLfnEntry, DirEntry.name0, DirEntry.bytes_ofBytes (by decide)]
  simp [putBytes, putLe]

end Fragment

/-- A list of values that are taken up to position `len`. -/
theorem takeWhile_range {α : Type} {p : α → Bool} {u : Nat → α} {len n : Nat} (hLe : len ≤ n)
    (hIn : ∀ k, k < len → p (u k) = true) (hOut : len < n → p (u len) = false) :
    ((List.range n).map u).takeWhile p = (List.range len).map u := by
  obtain ⟨m, rfl⟩ := Nat.exists_eq_add_of_le hLe
  have hAll : ∀ x ∈ (List.range len).map u, p x = true := by
    intro x hx
    obtain ⟨k, hk, rfl⟩ := List.mem_map.mp hx
    exact hIn k (List.mem_range.mp hk)
  rw [List.range_add, List.map_append, List.takeWhile_append_of_pos hAll]
  cases m with
  | zero => simp
  | succ m =>
      rw [List.range_succ_eq_map]
      simp [hOut (by omega)]

/-- What `ascii_to_utf16` has put in the array is read back up to the terminator, whatever stands after it. -/
theorem utf16ToAscii_asciiToUtf16 {f : Bytes} {n len : Nat} (scratch : Nat → BitVec 16) (hLe : len ≤ n)
    (hIn : ∀ k, k < len → f k ≠ 0#8 ∧ f k ≤ 0x7f#8) (hOut : len < n → f len = 0#8) :
    utf16ToAscii ((List.range n).map (asciiToUtf16 f n scratch)) = (List.range len).map f := by
  have hText : (((List.range n).map f).takeWhile (· ≠ 0#8)).length = len := by
    rw [takeWhile_range hLe (fun k hk => by simpa using (hIn k hk).1) (fun h => by simp [hOut h]), List.length_map,
      List.length_range]
  have hUnit : ∀ k, k < len → asciiToUtf16 f n scratch k = (f k).setWidth 16 := by
    intro k hk
    simp only [asciiToUtf16]
    rw [hText, if_pos hk]
  have hEnd : asciiToUtf16 f n scratch len = 0#16 := by
    simp only [asciiToUtf16]
    rw [hText, if_neg (lt_irrefl len), if_pos rfl]
  have hTake : ((List.range n).map (asciiToUtf16 f n scratch)).takeWhile (· ≠ 0#16) =
      (List.range len).map (asciiToUtf16 f n scratch) := by
    apply takeWhile_range hLe
    · intro k hk
      have hNe := (hIn k hk).1
      rw [hUnit k hk, decide_eq_true_iff]
      bv_omega
    · intro _
      rw [hEnd]
      rfl
  unfold utf16ToAscii
  rw [hTake, List.map_map]
  apply List.map_congr_left
  intro k hk
  obtain ⟨-, hAscii⟩ := hIn k (List.mem_range.mp hk)
  rw [Function.comp_apply, hUnit k (List.mem_range.mp hk), if_pos (by bv_omega)]
  bv_omega

/-- Where the characters `off, off + 1, …` of a name are stored. -/
theorem putBytes_piece {fn : Str} {buf : Bytes} {off count : Nat} (hFn : ∀ c ∈ fn, c ≠ 0#8 ∧ c ≤ 0x7f#8)
    (f : Bytes) (hf : ∀ k, f k = fn.getD (off + k) 0#8) (scratch : Nat → BitVec 16) (a : Nat) :
    putBytes buf off (utf16ToAscii ((List.range count).map (asciiToUtf16 f count scratch))) a =
      if off ≤ a ∧ a < off + count ∧ a < fn.length then fn.getD a 0#8 else buf a := by
  have hIn : ∀ k, k < min count (fn.length - off) → f k ≠ 0#8 ∧ f k ≤ 0x7f#8 := by
    intro k hk
    rw [hf, List.getD_eq_getElem _ _ (by omega)]
    exact hFn _ (List.getElem_mem _)
  have hOut : min count (fn.length - off) < count → f (min count (fn.length - off)) = 0#8 := by
    intro hLt
    rw [hf, List.getD_eq_default _ _ (by omega)]
  rw [utf16ToAscii_asciiToUtf16 scratch (Nat.min_le_left _ _) hIn hOut, putBytes, List.length_map, List.length_range]
  by_cases hAt : off ≤ a ∧ a < off + min count (fn.length - off)
  · have hInside : a - off < ((List.range (min count (fn.length - off))).map f).length := by
      rw [List.length_map, List.length_range]
      omega
    rw [if_pos hAt, if_pos (by omega), List.getD_eq_getElem _ _ hInside, List.getElem_map, List.getElem_range, hf,
      Nat.add_sub_cancel' hAt.1]
  · rw [if_neg hAt, if_neg (by omega)]

/-- A fragment is put at its place. -/
theorem lfnConcat_entry {fn : Str} (hFn : ∀ c ∈ fn, c ≠ 0#8 ∧ c ≤ 0x7f#8) (hLong : fn.length ≤ 255)
    (junk : Junk) (slot : DirEntry) (buf : Bytes) {i : Nat} (hi : i < nrLfnOf fn) (a : Nat) :
    fat32LfnConcat (lfnEntry junk slot fn (i + 1)) buf a =
      if i * 13 ≤ a ∧ a < i * 13 + 13 ∧ a < fn.length then fn.getD a 0#8 else buf a := by
  have hNumber : ((lfnEntry junk slot fn (i + 1)).name0 &&& 0x1f#8).toNat = i + 1 := by
    have hLast : ∀ nr, nr < 32 → (BitVec.ofNat 8 (lfnOrderLastEntry ||| nr) &&& 0x1f#8).toNat = nr := by decide
    have hOther : ∀ nr, nr < 32 → (BitVec.ofNat 8 nr &&& 0x1f#8).toNat = nr := by decide
    have hSmall : i + 1 < 32 := by
      unfold nrLfnOf at hi
      omega
    rw [lfnEntry, name0_longName]
    split
    · exact hLast _ hSmall
    · exact hOther _ hSmall
  obtain ⟨scratch2, hUnits2⟩ := units2_longName junk slot (lfnFragment fn (i + 1))
    (if i + 1 = nrLfnOf fn then lfnOrderLastEntry ||| (i + 1) else i + 1)
  obtain ⟨scratch3, hUnits3⟩ := units3_longName junk slot (lfnFragment fn (i + 1))
    (if i + 1 = nrLfnOf fn then lfnOrderLastEntry ||| (i + 1) else i + 1)
  unfold fat32LfnConcat
  simp only [hNumber, Nat.add_sub_cancel]
  rw [if_neg (by omega), lfnEntry, units1_longName, hUnits2, hUnits3,
    putBytes_piece hFn _ (fun k => by rw [lfnFragment, Nat.add_sub_cancel, Nat.add_assoc]) scratch3,
    putBytes_piece hFn _ (fun k => by rw [lfnFragment, Nat.add_sub_cancel, Nat.add_assoc]) scratch2,
    putBytes_piece hFn _ (fun k => by rw [lfnFragment, Nat.add_sub_cancel]) junk.name]
  split_ifs <;> first | rfl | omega

/-- **A long name survives its fragments.**  The fragments that are made of a name, put together in the order
of the directory on a cleared buffer, give the name and zeros after it. -/
theorem lfnConcat_lfnEntries (junk : Nat → Junk) (slot : Nat → DirEntry) {fn : Str}
    (hFn : ∀ c ∈ fn, 1#8 ≤ c ∧ c ≤ 127#8) (hLong : fn.length ≤ 255) (a : Nat) :
    lfnConcat (lfnEntries junk slot fn) zeroed a = fn.getD a 0#8 := by
  have hAscii : ∀ c ∈ fn, c ≠ 0#8 ∧ c ≤ 0x7f#8 := by
    intro c hc
    obtain ⟨hLow, hHigh⟩ := hFn c hc
    exact ⟨by bv_omega, hHigh⟩
  -- the last `n` entries of the directory fill the first `n` pieces of the buffer
  have hPieces : ∀ (n : Nat) (buf : Bytes), n ≤ nrLfnOf fn →
      lfnConcat ((List.range n).reverse.map fun i => lfnEntry (junk (i + 1)) (slot (i + 1)) fn (i + 1)) buf a =
        if a < n * 13 ∧ a < fn.length then fn.getD a 0#8 else buf a := by
    intro n
    induction n with
    | zero =>
        intro buf _
        rw [if_neg (by omega)]
        rfl
    | succ n ih =>
        intro buf hn
        rw [List.range_succ, List.reverse_append, List.reverse_singleton, List.singleton_append, List.map_cons,
          lfnConcat, List.foldl_cons]
        have hRest := ih (fat32LfnConcat (lfnEntry (junk (n + 1)) (slot (n + 1)) fn (n + 1)) buf) (by omega)
        rw [lfnConcat] at hRest
        rw [hRest, lfnConcat_entry hAscii hLong _ _ _ (by omega)]
        split_ifs <;> first | rfl | omega
  have hAll := hPieces (nrLfnOf fn) zeroed (le_refl _)
  rw [lfnEntries, hAll]
  split
  · rfl
  · rename_i hPast
    have hLength : fn.length ≤ a := by
      unfold nrLfnOf at hPast
      omega
    rw [List.getD_eq_default _ _ hLength]
    rfl

/-- Thirteen characters, in one fragment after an empty one, with a scratch array of letters. -/
theorem lfnConcat_lfnEntries_thirteen :
    lfnConcat (lfnEntries (fun _ => ⟨0, [], fun _ => 0x7a#16⟩) (fun _ => []) (List.replicate 13 0x61#8)) zeroed
      13 = 0#8 :=
  lfnConcat_lfnEntries _ _ (by decide) (by decide) 13

/-! ## Short names -/

/-- What `ascii_to_sfn` returns: 1 when it has made an alias. -/
def asciiToSfnRet (name : Str) : Int :=
  match strrchr name dotByte with
  | some i => if i > 8 ∨ (name.drop (i + 1)).length > 3 then 1 else 0
  | none => if name.length > 8 then 1 else 0

/-- The name is stored without an alias, it is what the entry says, and a file with only a short entry is found
under it. -/
structure ShortRoundTrip (name : Str) : Prop where
  ret : asciiToSfnRet name = 0
  ascii : sfnToAscii (asciiToSfn name) = name
  found : ∀ slot, fat32Compare (fat32MakeSfnEntry slot name) zeroed name = true

/-- The last character is a dot. -/
def EndsInDot (name : Str) : Prop := name.getLast? = some dotByte

instance (name : Str) : Decidable (EndsInDot name) := inferInstanceAs (Decidable (_ = _))

/-- The characters that need no long name. -/
def SfnChar (c : BitVec 8) : Prop := ¬ (0x61#8 ≤ c ∧ c ≤ 0x7a#8) ∧ ¬ 0x7f#8 < c ∧ fat32IsSfnChar c = true

theorem SfnChar.toupper {c : BitVec 8} (h : SfnChar c) : toupper c = c := if_neg h.1

theorem SfnChar.ne {c : BitVec 8} (h : SfnChar c) : c ≠ spaceByte ∧ c ≠ 0#8 ∧ c ≠ dotByte := by
  have hChar := h.2.2
  refine ⟨?_, ?_, ?_⟩ <;> rintro rfl <;> revert hChar <;> decide

/-- The characters of a name that needs no long name. -/
theorem fat32NeedLfn_chars {name : Str} (h : fat32NeedLfn name = false) :
    ∀ c ∈ name, c = dotByte ∨ SfnChar c := by
  unfold fat32NeedLfn at h
  intro c hc
  rw [Bool.or_eq_false_iff, List.any_eq_false] at h
  have hChar := h.2 c hc
  by_cases hDot : c = dotByte
  · exact Or.inl hDot
  · right
    simp only [decide_eq_true_eq, not_and, not_or] at hChar
    obtain ⟨hLower, hHigh, hSfn⟩ := hChar hDot
    exact ⟨fun hBoth => hLower hBoth.1 hBoth.2, hHigh, Bool.not_eq_false _ ▸ hSfn⟩

/-- The two parts of a name that needs no long name. -/
inductive ShortParts (name : Str) : Prop where
  | dot (base ext : Str) (split : name = base ++ dotByte :: ext) (last : strrchr name dotByte = some base.length)
      (noDot : dotByte ∉ ext) (base_le : base.length ≤ 8) (ext_le : ext.length ≤ 3)
  | plain (none : strrchr name dotByte = none) (le : name.length ≤ 8)

theorem fat32NeedLfn_parts {name : Str} (h : fat32NeedLfn name = false) : ShortParts name := by
  unfold fat32NeedLfn at h
  rw [Bool.or_eq_false_iff, Bool.or_eq_false_iff] at h
  have hLengths := h.1.2
  cases hDot : strrchr name dotByte with
  | none =>
      rw [hDot] at hLengths
      exact .plain hDot (Nat.le_of_not_lt (of_decide_eq_false hLengths))
  | some i =>
      obtain ⟨rest, hSplit, hNot⟩ := strrchr_eq_some hDot
      have hLt : i < name.length := strrchr_lt hDot
      have hLength : (name.take i).length = i := by
        rw [List.length_take]
        omega
      have hDrop : (name.take i ++ dotByte :: rest).drop i = dotByte :: rest := List.drop_left' hLength
      rw [← hSplit] at hDrop
      have hRest : name.drop (i + 1) = rest := by
        rw [← List.drop_drop, hDrop]
        rfl
      rw [hDot] at hLengths
      simp only [hRest, Bool.or_eq_false_iff, decide_eq_false_iff_not] at hLengths
      exact .dot (name.take i) rest hSplit (by rw [hLength, hDot]) hNot (by omega) (by omega)

/-- The parts with spaces after each. -/
theorem sfnOfParts_eq {base ext : Str} (hBase : base.length ≤ 8) (hExt : ext.length ≤ 3) :
    sfnOfParts base ext = (base.map toupper ++ List.replicate (8 - base.length) spaceByte) ++
      (ext.map toupper ++ List.replicate (3 - ext.length) spaceByte) := by
  unfold sfnOfParts overwrite
  rw [if_pos (by omega)]
  simp only [List.take_zero, List.nil_append, List.length_map, Nat.zero_add, List.drop_replicate]
  rw [List.take_append, List.drop_append]
  simp only [List.length_map, List.take_replicate, List.drop_replicate]
  rw [List.take_of_length_le (by rw [List.length_map]; exact hBase),
    List.drop_of_length_le (by rw [List.length_map]; omega), List.nil_append, List.append_assoc]
  have hGap : min (8 - base.length) (11 - base.length) = 8 - base.length := by omega
  have hEnd : 11 - base.length - (8 + ext.length - base.length) = 3 - ext.length := by omega
  rw [hGap, hEnd]

/-- The bytes of a part are read back up to the spaces. -/
theorem takeWhile_padded {part : Str} (h : spaceByte ∉ part) (n : Nat) :
    (part ++ List.replicate n spaceByte).takeWhile (· ≠ spaceByte) = part := by
  rw [List.takeWhile_append_of_pos]
  · cases n with
    | zero => simp
    | succ n => simp [List.replicate_succ]
  · intro c hc
    rw [decide_eq_true_iff]
    rintro rfl
    exact h hc

/-- What is read from the parts: the dot is there when there is an extension. -/
theorem sfnToAscii_parts {base ext : Str} (hBase : base.length ≤ 8) (hExt : ext.length ≤ 3)
    (hBaseSpace : spaceByte ∉ base) (hExtSpace : spaceByte ∉ ext) :
    sfnToAscii ((base ++ List.replicate (8 - base.length) spaceByte) ++
      (ext ++ List.replicate (3 - ext.length) spaceByte)) = if ext = [] then base else base ++ dotByte :: ext := by
  have hEight : (base ++ List.replicate (8 - base.length) spaceByte).length = 8 := by
    rw [List.length_append, List.length_replicate]
    omega
  have hThree : (ext ++ List.replicate (3 - ext.length) spaceByte).length = 3 := by
    rw [List.length_append, List.length_replicate]
    omega
  unfold sfnToAscii
  simp only
  rw [List.take_left' hEight, List.drop_left' hEight, List.take_of_length_le (le_of_eq hThree),
    takeWhile_padded hBaseSpace, takeWhile_padded hExtSpace, List.getD_append_right _ _ _ _ (le_of_eq hEight), hEight]
  cases ext with
  | nil => rfl
  | cons c ext =>
      have hNe : c ≠ spaceByte := fun hEq => hExtSpace (hEq ▸ List.mem_cons_self)
      rw [List.cons_append, Nat.sub_self, List.getD_cons_zero, if_neg hNe, if_neg (List.cons_ne_nil c ext)]

/-- Nothing in a name that needs no long name is changed by `toupper`. -/
theorem map_toupper {part : Str} (h : ∀ c ∈ part, c = dotByte ∨ SfnChar c) : part.map toupper = part := by
  conv_rhs => rw [← List.map_id part]
  apply List.map_congr_left
  intro c hc
  rcases h c hc with rfl | hChar
  · rfl
  · exact hChar.toupper

theorem space_not_mem {part : Str} (h : ∀ c ∈ part, c = dotByte ∨ SfnChar c) : spaceByte ∉ part := by
  intro hc
  rcases h _ hc with hDot | hChar
  · exact absurd hDot (by decide)
  · exact hChar.ne.1 rfl

/-- What a name that needs no long name is read back as. -/
theorem sfnToAscii_asciiToSfn {name : Str} (h : fat32NeedLfn name = false) :
    asciiToSfnRet name = 0 ∧
      sfnToAscii (asciiToSfn name) = if EndsInDot name then name.dropLast else name := by
  have hChars := fat32NeedLfn_chars h
  cases fat32NeedLfn_parts h with
  | dot base ext split last noDot base_le ext_le =>
      -- the bytes around the dot go into the two fields, none of them a space
      have hBase : ∀ c ∈ base, c = dotByte ∨ SfnChar c := fun c hc => hChars c (by simp [split, hc])
      have hExt : ∀ c ∈ ext, c = dotByte ∨ SfnChar c := fun c hc => hChars c (by simp [split, hc])
      have hDrop : name.drop (base.length + 1) = ext := by
        rw [split]
        simp
      have hTake : name.take base.length = base := by
        rw [split]
        simp
      have hSfn : asciiToSfn name = sfnOfParts base ext := by
        rw [asciiToSfn, last]
        simp only [hDrop, hTake]
        rfl
      constructor
      · rw [asciiToSfnRet, last]
        simp only [hDrop]
        rw [if_neg (by omega)]
      · rw [hSfn, sfnOfParts_eq base_le ext_le, map_toupper hBase, map_toupper hExt,
          sfnToAscii_parts base_le ext_le (space_not_mem hBase) (space_not_mem hExt)]
        by_cases hNil : ext = []
        · rw [if_pos hNil, if_pos (by simp [EndsInDot, split, hNil]), split, hNil, List.dropLast_concat]
        · -- the last dot is not the last byte
          have hLast : ¬ EndsInDot name := by
            intro hEnd
            rw [EndsInDot, split, List.getLast?_append_of_ne_nil _ (List.cons_ne_nil _ _),
              List.getLast?_cons_of_ne_nil hNil] at hEnd
            exact noDot (List.mem_of_getLast? hEnd)
          rw [if_neg hNil, if_neg hLast, split]
  | plain none le =>
      have hNoDot := strrchr_eq_none none
      have hLast : ¬ EndsInDot name := fun hEnd => hNoDot (List.mem_of_getLast? hEnd)
      have hSfn : asciiToSfn name = sfnOfParts name [] := by
        rw [asciiToSfn, none]
        rfl
      constructor
      · rw [asciiToSfnRet, none]
        simp only
        rw [if_neg (by omega)]
      · rw [hSfn, sfnOfParts_eq le (by decide), map_toupper hChars, map_toupper (by simp),
          sfnToAscii_parts le (by decide) (space_not_mem hChars) (by simp), if_pos rfl, if_neg hLast]

/-- The name under which a file with only a short entry is found. -/
theorem compare_shortEntry {name : Str} (h : fat32NeedLfn name = false) (slot : DirEntry) :
    fat32Compare (fat32MakeSfnEntry slot name) zeroed name = true ↔ sfnToAscii (asciiToSfn name) = name := by
  have hZero : 0#8 ∉ name := by
    intro hc
    rcases fat32NeedLfn_chars h _ hc with hDot | hChar
    · exact absurd hDot (by decide)
    · exact hChar.ne.2.1 rfl
  have hRead : 0#8 ∉ sfnToAscii (asciiToSfn name) := by
    rw [(sfnToAscii_asciiToSfn h).2]
    split
    · exact fun hc => hZero (List.mem_of_mem_dropLast hc)
    · exact hZero
  have hName : lookupName (fat32MakeSfnEntry slot name) zeroed = sfnToAscii (asciiToSfn name) := by
    rw [lookupName, if_pos (show zeroed 0 = 0#8 from rfl), name_shortEntry, cutAtNul_eq_self hRead]
  have hShorter : (sfnToAscii (asciiToSfn name)).length + 1 ≥ name.length := by
    rw [(sfnToAscii_asciiToSfn h).2]
    split
    · rw [List.length_dropLast]
      omega
    · omega
  unfold fat32Compare
  simp only [hName]
  rw [strncmpEq_iff hShorter (Nat.le_succ _), eq_comm]

/-- A name that needs no long name is read back as it was, if it has no dot at its end. -/
theorem shortRoundTrip_iff {name : Str} (h : fat32NeedLfn name = false) :
    ShortRoundTrip name ↔ ¬ EndsInDot name := by
  obtain ⟨hRet, hRead⟩ := sfnToAscii_asciiToSfn h
  constructor
  · intro hTrip hEnd
    have hSame := hTrip.ascii
    rw [hRead, if_pos hEnd] at hSame
    have hLength := congrArg List.length hSame
    rw [List.length_dropLast] at hLength
    have hNil : name = [] := by
      apply List.eq_nil_of_length_eq_zero
      omega
    rw [hNil] at hEnd
    cases hEnd
  · intro hEnd
    rw [if_neg hEnd] at hRead
    exact ⟨hRet, hRead, fun slot => (compare_shortEntry h slot).mpr hRead⟩

/-- **Short names.**  Two names that need no long name are stored without an alias, read back and found as they
were, and kept apart by their 11 bytes, exactly when neither ends in a dot. -/
theorem shortNames_iff {name name' : Str} (h : fat32NeedLfn name = false) (h' : fat32NeedLfn name' = false) :
    (ShortRoundTrip name ∧ ShortRoundTrip name' ∧ (asciiToSfn name = asciiToSfn name' → name = name')) ↔
      ¬ EndsInDot name ∧ ¬ EndsInDot name' := by
  rw [shortRoundTrip_iff h, shortRoundTrip_iff h']
  constructor
  · rintro ⟨hEnd, hEnd', -⟩
    exact ⟨hEnd, hEnd'⟩
  · rintro ⟨hEnd, hEnd'⟩
    refine ⟨hEnd, hEnd', fun hSame => ?_⟩
    have hRead := ((shortRoundTrip_iff h).mpr hEnd).ascii
    have hRead' := ((shortRoundTrip_iff h').mpr hEnd').ascii
    rw [← hRead, ← hRead', hSame]

/-- The names `A.B` and `A.B.C`. -/
theorem shortNames_iff_dots :
    ShortRoundTrip [0x41#8, dotByte, 0x42#8] ∧ ShortRoundTrip [0x41#8, dotByte, 0x42#8, dotByte, 0x43#8] := by
  have hOne : fat32NeedLfn [0x41#8, dotByte, 0x42#8] = false := by decide
  have hTwo : fat32NeedLfn [0x41#8, dotByte, 0x42#8, dotByte, 0x43#8] = false := by decide
  have hBoth := (shortNames_iff hOne hTwo).mpr ⟨by decide, by decide⟩
  exact ⟨hBoth.1, hBoth.2.1⟩

/-- The name `A.` needs no long name; it is stored as `A` is, and not found under its own name. -/
theorem sfn_trailing_dot :
    fat32NeedLfn [0x41#8, dotByte] = false ∧ asciiToSfn [0x41#8, dotByte] = asciiToSfn [0x41#8] ∧
      sfnToAscii (asciiToSfn [0x41#8, dotByte]) = [0x41#8] ∧ ¬ ShortRoundTrip [0x41#8, dotByte] := by
  refine ⟨by decide, by decide, by decide, fun hTrip => ?_⟩
  exact absurd hTrip.ascii (by decide)

end Rayos
