import Mathlib.Data.UInt
import Mathlib.Data.Vector.Basic

/-!
# Byte arrays: total accessors, copies and XOR

Reading past the end of an array gives zero and writing past it does nothing, so
array code written with these is total. Copies and XORs run as far as both sides
reach.

## Main definitions

* `byteAt`, `setByte` — total accessors
* `updateBytes` — a loop that rewrites bytes in place
* `copyInto`, `overwrite` — copy over the front of an array, into the middle of a buffer
* `xorInto` — XOR a keystream over the front of a byte string
* `pad` — a fixed-size array, zero-filled after the given bytes

## Main results

* `byteAt_updateBytes`, `byteAt_foldl_setByte` — what a loop over the bytes leaves
* `xorInto_xorInto` — the same keystream twice restores the bytes
* `pad_injective` — padding loses only the length
-/

namespace TetherMesh.Math

variable {n : ℕ}

/-- Byte `i`, or zero past the end. -/
def byteAt (a : Vector UInt8 n) (i : ℕ) : UInt8 := a[i]?.getD 0

/-- Replace byte `i`, if there is one. -/
def setByte (a : Vector UInt8 n) (i : ℕ) (v : UInt8) : Vector UInt8 n := a.setIfInBounds i v

theorem byteAt_of_lt (a : Vector UInt8 n) {i : ℕ} (hi : i < n) : byteAt a i = a[i] := by
  rw [byteAt, Vector.getElem?_eq_getElem hi, Option.getD_some]

theorem byteAt_of_le (a : Vector UInt8 n) {i : ℕ} (hi : n ≤ i) : byteAt a i = 0 := by
  rw [byteAt, Vector.getElem?_eq_none hi, Option.getD_none]

theorem getElem?_eq_some_getD {α : Type*} (a : Vector α n) (d : α) {i : ℕ} (hi : i < n) :
    a[i]? = some (a[i]?.getD d) := by
  rw [Vector.getElem?_eq_getElem hi, Option.getD_some]

theorem byteAt_setByte_self (a : Vector UInt8 n) {i : ℕ} (hi : i < n) (v : UInt8) :
    byteAt (setByte a i v) i = v := by
  rw [byteAt, setByte, Vector.getElem?_setIfInBounds_self_of_lt hi, Option.getD_some]

theorem byteAt_setByte_ne (a : Vector UInt8 n) {i j : ℕ} (hij : i ≠ j) (v : UInt8) :
    byteAt (setByte a i v) j = byteAt a j := by
  rw [byteAt, setByte, Vector.getElem?_setIfInBounds_ne hij, byteAt]

theorem toList_setByte (a : Vector UInt8 n) (i : ℕ) (v : UInt8) :
    (setByte a i v).toList = a.toList.set i v := Vector.toList_setIfInBounds ..

/-- Arrays with the same bytes are equal. -/
theorem ext_byteAt {a b : Vector UInt8 n} (h : ∀ i < n, byteAt a i = byteAt b i) : a = b := by
  ext i hi
  have hbyte := h i hi
  rw [byteAt_of_lt a hi, byteAt_of_lt b hi] at hbyte
  rw [hbyte]

/-- Rewrite `m` bytes in place one by one, from `start` on. -/
def updateBytes (start m : ℕ) (f : ℕ → UInt8 → UInt8) (a : Vector UInt8 n) : Vector UInt8 n :=
  (List.range m).foldl (fun a i => setByte a (start + i) (f i (byteAt a (start + i)))) a

/-- Each byte in range is rewritten once, from its own old value. -/
theorem byteAt_updateBytes (start m : ℕ) (f : ℕ → UInt8 → UInt8) (a : Vector UInt8 n) {j : ℕ}
    (hj : j < n) : byteAt (updateBytes start m f a) j =
      if start ≤ j ∧ j < start + m then f (j - start) (byteAt a j) else byteAt a j := by
  induction m with
  | zero => rw [if_neg (by omega), updateBytes, List.range_zero, List.foldl_nil]
  | succ m ih =>
    rw [updateBytes, List.range_succ, List.foldl_append, List.foldl_cons, List.foldl_nil,
      ← updateBytes]
    -- the byte written last was still untouched, every other one is as before
    by_cases hlast : start + m = j
    · subst hlast
      rw [byteAt_setByte_self _ hj, ih, if_neg (by omega), if_pos (by omega),
        Nat.add_sub_cancel_left]
    · rw [byteAt_setByte_ne _ hlast, ih]
      by_cases hin : start ≤ j ∧ j < start + m
      · rw [if_pos hin, if_pos (by omega)]
      · rw [if_neg hin, if_neg (by omega)]

/-- Bytes written behind the front of an array. -/
theorem take_updateBytes {start m : ℕ} {data : List UInt8} (hm : m ≤ data.length)
    (hfit : start + m ≤ n) (a : Vector UInt8 n) :
    (updateBytes start m (fun i _ => data.getD i 0) a).toList.take (start + m) =
      a.toList.take start ++ data.take m := by
  have hstart : (a.toList.take start).length = start := by
    rw [List.length_take, Vector.length_toList, Nat.min_eq_left (Nat.le_of_add_right_le hfit)]
  apply List.ext_getElem
  · rw [List.length_append, hstart, List.length_take, List.length_take, Vector.length_toList,
      Nat.min_eq_left hfit, Nat.min_eq_left hm]
  · intro j hj hj'
    have hlt : j < start + m := (List.length_take_le _ _).trans_lt' hj
    have hn : j < n := hlt.trans_le hfit
    rw [List.getElem_take, Vector.getElem_toList, ← byteAt_of_lt _ hn,
      byteAt_updateBytes _ _ _ _ hn, List.getElem_append]
    by_cases hfront : j < start
    · rw [if_neg (by omega), dif_pos (hstart.symm ▸ hfront), List.getElem_take,
        Vector.getElem_toList, byteAt_of_lt _ hn]
    · have hdata : j - start < data.length := by omega
      rw [if_pos (by omega), dif_neg (hstart.symm ▸ hfront), List.getD_eq_getElem?_getD,
        List.getElem?_eq_getElem hdata, Option.getD_some, List.getElem_take]
      simp only [hstart]

/-- A window of bytes written one by one, each computed from the bytes outside it. -/
theorem byteAt_foldl_setByte (start m : ℕ) (g : ℕ → Vector UInt8 n → UInt8)
    (hg : ∀ i < m, ∀ a a', (∀ j < n, j < start ∨ start + m ≤ j → byteAt a j = byteAt a' j) →
      g i a = g i a') (a : Vector UInt8 n) {j : ℕ} (hj : j < n) :
    byteAt ((List.range m).foldl (fun a i => setByte a (start + i) (g i a)) a) j =
      if start ≤ j ∧ j < start + m then g (j - start) a else byteAt a j := by
  have hpart : ∀ k ≤ m, ∀ j < n,
      byteAt ((List.range k).foldl (fun a i => setByte a (start + i) (g i a)) a) j =
        if start ≤ j ∧ j < start + k then g (j - start) a else byteAt a j := by
    intro k hk
    induction k with
    | zero =>
      intro j _
      rw [if_neg (by omega), List.range_zero, List.foldl_nil]
    | succ k ih =>
      intro j hj
      rw [List.range_succ, List.foldl_append, List.foldl_cons, List.foldl_nil]
      have hbefore := ih (Nat.le_of_succ_le hk)
      by_cases hlast : start + k = j
      · -- the bytes outside the window are still as they were
        have hsame := hg k hk _ a fun i hi hout => (hbefore i hi).trans (if_neg (by omega))
        rw [← hlast, byteAt_setByte_self _ (hlast ▸ hj), hsame, if_pos (by omega),
          Nat.add_sub_cancel_left]
      · rw [byteAt_setByte_ne _ hlast, hbefore j hj]
        by_cases hin : start ≤ j ∧ j < start + k
        · rw [if_pos hin, if_pos (by omega)]
        · rw [if_neg hin, if_neg (by omega)]
  exact hpart m (Nat.le_refl m) j hj

/-- The front of an array filled entry by entry. -/
theorem getElem_foldl_setIfInBounds {α : Type*} (f : ℕ → α) (a : Vector α n) (k : ℕ) {i : ℕ}
    (hi : i < n) : ((List.range k).foldl (fun a i => a.setIfInBounds i (f i)) a)[i] =
      if i < k then f i else a[i] := by
  induction k with
  | zero => rfl
  | succ k ih =>
    simp only [List.range_succ, List.foldl_append, List.foldl_cons, List.foldl_nil,
      Vector.getElem_setIfInBounds, ih]
    by_cases hlast : k = i
    · rw [if_pos hlast, if_pos (by omega), hlast]
    · rw [if_neg hlast]
      exact if_congr (by omega) rfl rfl

/-- An array filled entry by entry. -/
theorem foldl_setIfInBounds {α : Type*} (f : ℕ → α) (a : Vector α n) :
    (List.range n).foldl (fun a i => a.setIfInBounds i (f i)) a = Vector.ofFn fun i => f i := by
  ext i hi
  rw [getElem_foldl_setIfInBounds f a n hi, if_pos hi, Vector.getElem_ofFn]

/-! ## Arrays as the front of a list -/

theorem getElem?_toList {α : Type*} (head : Vector α n) {i : ℕ} (hi : i < n) :
    head.toList[i]? = some head[i] := by
  rw [List.getElem?_eq_getElem (by rwa [Vector.length_toList]), Vector.getElem_toList]

/-- Reading within the front reads the array. -/
theorem getElem?_toList_append {α : Type*} (head : Vector α n) (rest : List α) {i : ℕ}
    (hi : i < n) : (head.toList ++ rest)[i]? = some head[i] := by
  rw [List.getElem?_append_left (by rwa [Vector.length_toList]), getElem?_toList head hi]

/-- A list long enough is an array of `n` elements and a rest. -/
theorem exists_eq_toList_append {α : Type*} {xs : List α} (h : n ≤ xs.length) :
    ∃ (head : Vector α n) (rest : List α), xs = head.toList ++ rest :=
  ⟨⟨(xs.take n).toArray, by simpa using h⟩, xs.drop n, (List.take_append_drop n xs).symm⟩

/-- Two pieces neither of which is longer than its counterpart make up the same list
exactly when both are equal to theirs. -/
theorem append_eq_append_iff_of_length_le {α : Type*} {xs ys xs' ys' : List α}
    (hx : xs.length ≤ xs'.length) (hy : ys.length ≤ ys'.length) :
    xs ++ ys = xs' ++ ys' ↔ xs = xs' ∧ ys = ys' := by
  constructor
  · intro h
    have hlen := congrArg List.length h
    rw [List.length_append, List.length_append] at hlen
    exact List.append_inj h (by omega)
  · rintro ⟨rfl, rfl⟩
    rfl

/-! ## Copies -/

/-- Copy `src` over the front of `dst`, as far as both reach. -/
def copyInto (dst : Vector UInt8 n) (src : List UInt8) : Vector UInt8 n :=
  Vector.ofFn fun i => src[i]?.getD dst[i]

/-- Reading back as many bytes as were copied gives the copied bytes. -/
theorem take_copyInto (dst : Vector UInt8 n) {src : List UInt8} (h : src.length ≤ n) :
    (copyInto dst src).toList.take src.length = src := by
  apply List.ext_getElem
  · simpa using h
  · intro i hi hi'
    simp [copyInto, List.getElem?_eq_getElem hi']

/-- A copy that fills the array. -/
theorem toList_copyInto (dst : Vector UInt8 n) {src : List UInt8} (h : src.length = n) :
    (copyInto dst src).toList = src := by
  have hcopy := take_copyInto dst h.le
  rwa [List.take_of_length_le] at hcopy
  rw [Vector.length_toList, h]

/-- Write `src` over `buf` from `start` on, as far as both reach. -/
def overwrite {α : Type*} (buf : List α) (start : ℕ) (src : List α) : List α :=
  buf.mapIdx fun i b => if start ≤ i then src[i - start]?.getD b else b

@[simp] theorem length_overwrite {α : Type*} (buf : List α) (start : ℕ) (src : List α) :
    (overwrite buf start src).length = buf.length := List.length_mapIdx

/-- Writing over the middle of a buffer. -/
theorem overwrite_append {α : Type*} (front rest : List α) {old src : List α}
    (h : old.length = src.length) :
    overwrite (front ++ old ++ rest) front.length src = front ++ src ++ rest := by
  apply List.ext_getElem
  · simp [h]
  · intro i hi hi'
    simp only [overwrite, List.getElem_mapIdx, List.getElem_append, List.length_append, h]
    -- byte `i` lies in front of what is written, inside it, or behind it
    by_cases hfront : i < front.length
    · simp [hfront, Nat.not_le.mpr hfront, Nat.lt_add_right _ hfront]
    · have hle := Nat.not_lt.mp hfront
      by_cases hmid : i < front.length + src.length
      · have hsrc : i - front.length < src.length := by omega
        simp [hfront, hle, hmid, List.getElem?_eq_getElem hsrc]
      · simp [hle, hmid, List.getElem?_eq_none (by omega : src.length ≤ i - front.length)]

/-- Writing behind a front, where there is room. -/
theorem overwrite_behind {α : Type*} (front : List α) {rest src : List α}
    (h : src.length ≤ rest.length) :
    overwrite (front ++ rest) front.length src = front ++ src ++ rest.drop src.length := by
  have htake : (rest.take src.length).length = src.length := by
    rw [List.length_take, Nat.min_eq_left h]
  have hwrite := overwrite_append front (rest.drop src.length) htake
  rwa [List.append_assoc, List.take_append_drop] at hwrite

/-- Writing over the front of a buffer that is long enough. -/
theorem overwrite_front {α : Type*} {buf src : List α} (h : src.length ≤ buf.length) :
    overwrite buf 0 src = src ++ buf.drop src.length := overwrite_behind [] h

/-- One piece after another from the front. -/
theorem overwrite_overwrite {α : Type*} {buf x y : List α}
    (h : x.length + y.length ≤ buf.length) :
    overwrite (overwrite buf 0 x) x.length y = overwrite buf 0 (x ++ y) := by
  have hboth : (x ++ y).length ≤ buf.length := by rwa [List.length_append]
  rw [overwrite_front (Nat.le_of_add_right_le h), overwrite_front hboth, overwrite_behind,
    List.drop_drop, List.length_append]
  rw [List.length_drop]
  omega

/-- Writing over a whole buffer. -/
theorem overwrite_self {α : Type*} {buf src : List α} (h : buf.length = src.length) :
    overwrite buf 0 src = src := by
  rw [overwrite_front h.ge, ← h, List.drop_length, List.append_nil]

/-- The bytes given, then zeros. -/
def pad (n : ℕ) (bytes : List UInt8) : Vector UInt8 n := copyInto (Vector.replicate n 0) bytes

theorem byteAt_pad (bytes : List UInt8) {i : ℕ} (hi : i < n) :
    byteAt (pad n bytes) i = bytes[i]?.getD 0 := by
  rw [byteAt_of_lt _ hi]
  simp [pad, copyInto]

/-- An array needs no padding. -/
theorem pad_toList (bytes : Vector UInt8 n) : pad n bytes.toList = bytes := by
  apply ext_byteAt
  intro i hi
  rw [byteAt_pad _ hi, byteAt_of_lt _ hi, getElem?_toList bytes hi, Option.getD_some]

/-- Bytes that fill the array are not padded. -/
theorem toList_pad {bytes : List UInt8} (h : bytes.length = n) : (pad n bytes).toList = bytes := by
  obtain ⟨a, rfl⟩ : ∃ a : Vector UInt8 n, a.toList = bytes := ⟨⟨bytes.toArray, h⟩, rfl⟩
  rw [pad_toList]

theorem pad_nil : pad n [] = Vector.replicate n 0 := by
  apply ext_byteAt
  intro i hi
  rw [byteAt_pad _ hi, byteAt_of_lt _ hi, Vector.getElem_replicate]
  rfl

/-- Writing the next byte extends what is padded. -/
theorem setByte_pad (bytes : List UInt8) (b : UInt8) :
    setByte (pad n bytes) bytes.length b = pad n (bytes ++ [b]) := by
  apply ext_byteAt
  intro i hi
  rw [byteAt_pad _ hi]
  by_cases hlast : bytes.length = i
  · subst hlast
    rw [byteAt_setByte_self _ hi, List.getElem?_concat_length, Option.getD_some]
  · rw [byteAt_setByte_ne _ hlast, byteAt_pad _ hi, List.getElem?_append]
    by_cases hin : i < bytes.length
    · rw [if_pos hin]
    · rw [if_neg hin, List.getElem?_eq_none (by omega), List.getElem?_eq_none]
      rw [List.length_singleton]
      omega

/-- Writing the next bytes one by one extends what is padded. -/
theorem updateBytes_pad (bytes more : List UInt8) :
    updateBytes bytes.length more.length (fun i _ => more.getD i 0) (pad n bytes) =
      pad n (bytes ++ more) := by
  apply ext_byteAt
  intro i hi
  rw [byteAt_updateBytes _ _ _ _ hi, byteAt_pad _ hi, byteAt_pad _ hi, List.getElem?_append]
  by_cases hfront : i < bytes.length
  · rw [if_neg (by omega), if_pos hfront]
  · rw [if_neg hfront]
    by_cases hmore : i < bytes.length + more.length
    · rw [if_pos ⟨Nat.not_lt.mp hfront, hmore⟩, List.getD_eq_getElem?_getD]
    · rw [if_neg (by omega), List.getElem?_eq_none (Nat.not_lt.mp hfront),
        List.getElem?_eq_none (by omega)]

/-- Byte strings of one length that fit are told apart by their paddings. -/
theorem pad_injective {xs ys : List UInt8} (hlen : xs.length = ys.length) (hfit : xs.length ≤ n)
    (h : pad n xs = pad n ys) : xs = ys := by
  apply List.ext_getElem hlen
  intro i hx hy
  have hbyte := congrArg (byteAt · i) h
  rwa [byteAt_pad xs (by omega), byteAt_pad ys (by omega), List.getElem?_eq_getElem hx,
    List.getElem?_eq_getElem hy, Option.getD_some, Option.getD_some] at hbyte

/-! ## XOR -/

/-- XOR `key` over the front of `data`, as far as both reach. -/
def xorInto : List UInt8 → List UInt8 → List UInt8
  | [], _ => []
  | data, [] => data
  | d :: data, k :: key => (d ^^^ k) :: xorInto data key

@[simp] theorem xorInto_nil (key : List UInt8) : xorInto [] key = [] := by
  cases key <;> rfl

@[simp] theorem length_xorInto (data key : List UInt8) :
    (xorInto data key).length = data.length := by
  induction data generalizing key with
  | nil => rw [xorInto_nil]
  | cons d data ih =>
    cases key with
    | nil => rfl
    | cons k key => exact congrArg (· + 1) (ih key)

theorem getElem?_xorInto (data key : List UInt8) (i : ℕ) :
    (xorInto data key)[i]? = data[i]?.map (· ^^^ key[i]?.getD 0) := by
  induction data generalizing key i with
  | nil => rw [xorInto_nil, List.getElem?_nil, Option.map_none]
  | cons d data ih =>
    cases key with
    | nil => simp [xorInto]
    | cons k key =>
      cases i with
      | zero => rfl
      | succ i => exact ih key i

/-- A keystream as long as the first piece is used up by it. -/
theorem xorInto_append {data key : List UInt8} (h : data.length = key.length)
    (data' key' : List UInt8) :
    xorInto (data ++ data') (key ++ key') = xorInto data key ++ xorInto data' key' := by
  induction data generalizing key with
  | nil =>
    rw [List.length_eq_zero_iff.mp h.symm]
    rfl
  | cons d data ih =>
    cases key with
    | nil => cases h
    | cons k key => exact congrArg (List.cons (d ^^^ k)) (ih (Nat.succ.inj h))

/-- Keystream past the end of the data is not used. -/
theorem xorInto_append_right {data key : List UInt8} (h : data.length ≤ key.length)
    (key' : List UInt8) : xorInto data (key ++ key') = xorInto data key := by
  induction data generalizing key with
  | nil => rw [xorInto_nil, xorInto_nil]
  | cons d data ih =>
    cases key with
    | nil => exact absurd h (Nat.not_succ_le_zero _)
    | cons k key => exact congrArg (List.cons (d ^^^ k)) (ih (Nat.le_of_succ_le_succ h))

/-- A key as long as the data leaves nothing of it as it was. -/
theorem xorInto_eq_zipWith {data key : List UInt8} (h : data.length ≤ key.length) :
    xorInto data key = data.zipWith (· ^^^ ·) key := by
  induction data generalizing key with
  | nil => rw [xorInto_nil, List.zipWith_nil_left]
  | cons d data ih =>
    cases key with
    | nil => exact absurd h (Nat.not_succ_le_zero _)
    | cons k key =>
      rw [xorInto, List.zipWith_cons_cons, ih (Nat.le_of_succ_le_succ h)]

theorem xor_xor_cancel (a b : UInt8) : (a ^^^ b) ^^^ b = a := by
  rw [UInt8.xor_assoc, UInt8.xor_self, UInt8.xor_zero]

/-- The same keystream twice restores the bytes. -/
@[simp] theorem xorInto_xorInto (data key : List UInt8) :
    xorInto (xorInto data key) key = data := by
  induction data generalizing key with
  | nil => rw [xorInto_nil, xorInto_nil]
  | cons d data ih =>
    cases key with
    | nil => rfl
    | cons k key => exact congrArg₂ List.cons (xor_xor_cancel d k) (ih key)

/-- Bytes accumulated with OR give zero only when all of them are zero. -/
theorem foldl_or_eq_zero_iff {α : Type*} (f : α → UInt8) (xs : List α) (acc : UInt8) :
    xs.foldl (fun acc x => acc ||| f x) acc = 0 ↔ acc = 0 ∧ ∀ x ∈ xs, f x = 0 := by
  induction xs generalizing acc with
  | nil => simp
  | cons x xs ih =>
    rw [List.foldl_cons, ih, UInt8.or_eq_zero_iff, List.forall_mem_cons, and_assoc]

end TetherMesh.Math
