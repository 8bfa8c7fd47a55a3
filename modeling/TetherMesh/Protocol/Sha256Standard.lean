import Mathlib.Data.List.OfFn
import TetherMesh.CS.Sha2
import TetherMesh.Protocol.Sha256

/-!
# The streaming hash is SHA-256

However a message is cut into pieces, the state holds the hash value after the whole blocks
so far and the bytes behind them, and padding by further updates makes the blocks that
FIPS 180-4 pads the message to.

## Main results

* `toList_compress` — the computation on a block
* `absorbed_absorb` — what the state holds after more input
* `finalize_eq_standard`
-/

namespace TetherMesh.Protocol.Sha256

open Math CS

/-! ## Constants and words -/

/-- **The table is the cube roots.** -/
theorem k_eq : k.toList = Sha2.roundConstants := by decide +kernel

/-- **The initial value is the square roots.** -/
theorem h0_eq : h0.toList = Sha2.initialHash := by decide +kernel

theorem wordAt_toList {n : ℕ} (a : Vector UInt32 n) (i : ℕ) : Sha2.wordAt a.toList i = w32 a i := by
  rw [Sha2.wordAt, w32, List.getD_eq_getElem?_getD, Vector.getElem?_toList]

theorem w32_of_lt {n : ℕ} (a : Vector UInt32 n) {i : ℕ} (hi : i < n) : w32 a i = a[i] := by
  rw [w32, Vector.getElem?_eq_getElem hi, Option.getD_some]

/-- Four bytes put together. -/
theorem word_eq (a b c d : UInt8) :
    a.toUInt32 <<< 24 ||| b.toUInt32 <<< 16 ||| c.toUInt32 <<< 8 ||| d.toUInt32 =
      UInt32.ofNat (beValue [a, b, c, d]) := by
  have ha := a.toNat_lt
  have hb := b.toNat_lt
  have hc := c.toNat_lt
  have hd := d.toNat_lt
  -- the bytes lie side by side, so that the union is the sum
  have hab := Nat.two_pow_add_eq_or_of_lt (i := 24) (show 2 ^ 16 * b.toNat < 2 ^ 24 by omega)
    a.toNat
  have habc := Nat.two_pow_add_eq_or_of_lt (i := 16) (show 2 ^ 8 * c.toNat < 2 ^ 16 by omega)
    (2 ^ 8 * a.toNat + b.toNat)
  have habcd := Nat.two_pow_add_eq_or_of_lt (i := 8) hd
    (2 ^ 8 * (2 ^ 8 * a.toNat + b.toNat) + c.toNat)
  have hsum : 2 ^ 24 * a.toNat + 2 ^ 16 * b.toNat = 2 ^ 16 * (2 ^ 8 * a.toNat + b.toNat) := by omega
  have hsum' : 2 ^ 16 * (2 ^ 8 * a.toNat + b.toNat) + 2 ^ 8 * c.toNat =
      2 ^ 8 * (2 ^ 8 * (2 ^ 8 * a.toNat + b.toNat) + c.toNat) := by omega
  have hshift (x k : ℕ) (h : 2 ^ k * x < 2 ^ 32) : x <<< k % 2 ^ 32 = 2 ^ k * x := by
    rw [Nat.shiftLeft_eq, Nat.mul_comm, Nat.mod_eq_of_lt h]
  apply UInt32.toNat_inj.mp
  have hleft : (a.toUInt32 <<< 24 ||| b.toUInt32 <<< 16 ||| c.toUInt32 <<< 8 ||| d.toUInt32).toNat =
      a.toNat <<< 24 % 2 ^ 32 ||| b.toNat <<< 16 % 2 ^ 32 ||| c.toNat <<< 8 % 2 ^ 32 |||
        d.toNat := by
    simp only [UInt32.toNat_or, UInt32.toNat_shiftLeft, UInt8.toNat_toUInt32]
    rfl
  have hvalue : beValue [a, b, c, d] =
      2 ^ 8 * (2 ^ 8 * (2 ^ 8 * a.toNat + b.toNat) + c.toNat) + d.toNat := by
    simp only [beValue, List.reverse_cons, List.reverse_nil, List.nil_append, List.cons_append,
      leValue_cons, leValue_nil]
    omega
  rw [hleft, hshift _ _ (by omega), hshift _ _ (by omega), hshift _ _ (by omega), ← hab, hsum,
    ← habc, hsum', ← habcd, UInt32.toNat_ofNat', hvalue, Nat.mod_eq_of_lt (by omega)]

/-! ## The computation on a block -/

section Block

variable {blk : List UInt8}

/-- A word of a block. -/
theorem wordAt_words (hblk : blk.length = 64) {i : ℕ} (hi : i < 16) :
    Sha2.wordAt (Sha2.words blk) i = (b8 blk (i * 4)).toUInt32 <<< 24 |||
      (b8 blk (i * 4 + 1)).toUInt32 <<< 16 ||| (b8 blk (i * 4 + 2)).toUInt32 <<< 8 |||
        (b8 blk (i * 4 + 3)).toUInt32 := by
  obtain ⟨a, b, c, d, rest, hrest⟩ :
      ∃ a b c d rest, blk.drop (i * 4) = a :: b :: c :: d :: rest := by
    have hlen : 4 ≤ (blk.drop (i * 4)).length := by
      rw [List.length_drop]
      omega
    match blk.drop (i * 4), hlen with
    | a :: b :: c :: d :: rest, _ => exact ⟨a, b, c, d, rest, rfl⟩
  have hbyte (k : ℕ) : b8 blk (i * 4 + k) = (a :: b :: c :: d :: rest).getD k 0 := by
    rw [b8, List.getD_eq_getElem?_getD, List.getD_eq_getElem?_getD, ← hrest, List.getElem?_drop]
  have hpiece : (chunks 4 blk)[i]? = some [a, b, c, d] := by
    rw [chunks, hblk, List.getElem?_map, List.getElem?_range (by omega), Option.map_some,
      Nat.mul_comm, hrest]
    rfl
  rw [Sha2.wordAt, Sha2.words, List.getD_eq_getElem?_getD, List.getElem?_map, hpiece,
    hbyte 1, hbyte 2, hbyte 3, ← Nat.add_zero (i * 4), hbyte 0, Option.map_some, Option.getD_some,
    ← word_eq]
  rfl

theorem length_words (hblk : blk.length = 64) : (Sha2.words blk).length = 16 := by
  rw [Sha2.words, List.length_map, length_chunks, hblk]

theorem w32_set32 {n : ℕ} (a : Vector UInt32 n) {i j : ℕ} (hj : j < n) (v : UInt32) :
    w32 (set32 a i v) j = if i = j then v else w32 a j := by
  rw [w32_of_lt _ hj, w32_of_lt _ hj, set32, Vector.getElem_setIfInBounds]

/-- The sixteen words of the block, in the front of the schedule. -/
def firstWords (blk : List UInt8) : Vector UInt32 64 :=
  (List.range 16).foldl (fun w i => set32 w i ((b8 blk (i * 4)).toUInt32 <<< 24 |||
    (b8 blk (i * 4 + 1)).toUInt32 <<< 16 ||| (b8 blk (i * 4 + 2)).toUInt32 <<< 8 |||
    (b8 blk (i * 4 + 3)).toUInt32)) (Vector.replicate 64 0)

/-- The word after those so far. -/
def nextWord (w : Vector UInt32 64) (i : ℕ) : UInt32 :=
  w32 w (i - 16) + Sha2.smallSigma0 (w32 w (i - 15)) + w32 w (i - 7) +
    Sha2.smallSigma1 (w32 w (i - 2))

theorem schedule_eq (blk : List UInt8) : schedule blk =
    (List.range' 16 48).foldl (fun w i => set32 w i (nextWord w i)) (firstWords blk) := rfl

theorem w32_firstWords (hblk : blk.length = 64) {i : ℕ} (hi : i < 16) :
    w32 (firstWords blk) i = Sha2.wordAt (Sha2.words blk) i := by
  rw [w32_of_lt _ (by omega), wordAt_words hblk hi]
  exact (getElem_foldl_setIfInBounds _ _ 16 _).trans (if_pos hi)

/-- **The schedule**, word by word. -/
theorem w32_schedule (hblk : blk.length = 64) {i : ℕ} (hi : i < 64) :
    w32 (schedule blk) i = Sha2.wordAt (Sha2.schedule (Sha2.words blk)) i := by
  have hlen := length_words hblk
  generalize hW : Sha2.schedule (Sha2.words blk) = W
  have hpart : ∀ n ≤ 48, ∀ i < 16 + n,
      w32 ((List.range' 16 n).foldl (fun w i => set32 w i (nextWord w i)) (firstWords blk)) i =
        Sha2.wordAt W i := by
    intro n hn
    induction n with
    | zero =>
      intro i hi
      rw [List.range'_zero, List.foldl_nil, w32_firstWords hblk hi, ← hW,
        Sha2.wordAt_schedule_of_lt (by omega)]
    | succ n ih =>
      intro i hi
      have hbefore := ih (Nat.le_of_succ_le hn)
      rw [List.range'_concat, List.foldl_append, List.foldl_cons, List.foldl_nil, Nat.one_mul,
        w32_set32 _ (by omega)]
      split_ifs with hlast
      · subst hlast
        have hword := Sha2.wordAt_schedule hlen (Nat.le_add_right 16 n) (by omega)
        rw [hW] at hword
        rw [nextWord, hbefore _ (by omega), hbefore _ (by omega), hbefore _ (by omega),
          hbefore _ (by omega), hword]
        ac_rfl
      · exact hbefore i (by omega)
  rw [schedule_eq]
  exact hpart 48 (Nat.le_refl 48) i hi

/-- The working variables, in the terms of the standard. -/
def Working.toStandard (v : Working) : Sha2.Working := ⟨v.a, v.b, v.c, v.d, v.e, v.f, v.g, v.hh⟩

/-- **The rounds.** -/
theorem toStandard_rounds (hblk : blk.length = 64) (v : Working) {n : ℕ} (hn : n ≤ 64) :
    ((List.range n).foldl (round (schedule blk)) v).toStandard =
      (List.range n).foldl (Sha2.round (Sha2.schedule (Sha2.words blk))) v.toStandard := by
  induction n with
  | zero => rfl
  | succ n ih =>
    rw [List.range_succ, List.foldl_append, List.foldl_append, ← ih (Nat.le_of_succ_le hn),
      List.foldl_cons, List.foldl_nil, List.foldl_cons, List.foldl_nil, Sha2.round,
      ← w32_schedule hblk hn, ← k_eq, wordAt_toList]
    rfl

theorem toList_eq_words (a : Vector UInt32 8) :
    a.toList = [w32 a 0, w32 a 1, w32 a 2, w32 a 3, w32 a 4, w32 a 5, w32 a 6, w32 a 7] := by
  apply List.ext_getElem?
  intro i
  rw [Vector.getElem?_toList]
  match i with
  | 0 | 1 | 2 | 3 | 4 | 5 | 6 | 7 => exact getElem?_eq_some_getD a 0 (by simp)
  | i + 8 => rw [Vector.getElem?_eq_none (by omega), List.getElem?_eq_none]; simp

/-- The working variables a block starts from. -/
def start (h : Vector UInt32 8) : Working :=
  ⟨w32 h 0, w32 h 1, w32 h 2, w32 h 3, w32 h 4, w32 h 5, w32 h 6, w32 h 7⟩

/-- **The computation on a block.** -/
theorem toList_compress (s : Sha256) (hblk : blk.length = 64) :
    (s.compress blk).h.toList = Sha2.compress s.h.toList (Sha2.words blk) := by
  have hstart : (start s.h).toStandard = .ofHash s.h.toList := by
    simp only [Sha2.Working.ofHash, wordAt_toList]
    rfl
  rw [Sha2.compress, ← hstart, ← toStandard_rounds hblk _ (Nat.le_refl 64)]
  have hcode (v : Working) (hv : v = (List.range 64).foldl (round (schedule blk)) (start s.h)) :
      (s.compress blk).h.toList = [w32 s.h 0 + v.a, w32 s.h 1 + v.b, w32 s.h 2 + v.c,
        w32 s.h 3 + v.d, w32 s.h 4 + v.e, w32 s.h 5 + v.f, w32 s.h 6 + v.g, w32 s.h 7 + v.hh] := by
    rw [hv]
    rfl
  rw [hcode _ rfl, toList_eq_words s.h]
  simp only [Working.toStandard, Sha2.Working.toList, List.zipWith_cons_cons, List.zipWith_nil_left,
    UInt32.add_comm]

end Block

/-! ## What the state holds -/

/-- The hash value after whole blocks. -/
def hashAfter (blocks : List (List UInt8)) : List UInt32 :=
  blocks.foldl (fun v blk => Sha2.compress v (Sha2.words blk)) Sha2.initialHash

/-- The message absorbed so far: whole blocks, in the hash value, and what the buffer holds. -/
structure Absorbed (s : Sha256) (m : List UInt8) (blocks : List (List UInt8)) : Prop where
  length_eq : ∀ blk ∈ blocks, blk.length = block
  hash_eq : s.h.toList = hashAfter blocks
  message_eq : m = blocks.flatten ++ s.buf.toList.take s.buflen

theorem absorbed_new : Absorbed new [] [] :=
  ⟨fun _ h => absurd h List.not_mem_nil, h0_eq, rfl⟩

variable {s : Sha256} {m : List UInt8} {blocks : List (List UInt8)}

theorem length_pending (s : Sha256) : (s.buf.toList.take s.buflen).length = s.buflen := by
  rw [List.length_take, Vector.length_toList, Nat.min_eq_left s.buflen_lt.le]

/-- The buffer holds what is left of whole blocks. -/
theorem Absorbed.buflen_eq (h : Absorbed s m blocks) : s.buflen = m.length % 64 := by
  have hlt : s.buflen < 64 := s.buflen_lt
  rw [h.message_eq, List.length_append, length_flatten_of_length_eq h.length_eq, length_pending]
  change s.buflen = (blocks.length * 64 + s.buflen) % 64
  omega

/-- A block more. -/
theorem Absorbed.append (h : Absorbed s m blocks) {blk : List UInt8} (hblk : blk.length = block)
    {s' : Sha256} (hhash : s'.h = (s.compress blk).h) (hempty : s'.buflen = 0)
    {m' : List UInt8} (hm : m' = blocks.flatten ++ blk) : Absorbed s' m' (blocks ++ [blk]) := by
  refine ⟨fun b hb => ?_, ?_, ?_⟩
  · rcases List.mem_append.mp hb with hb | hb
    · exact h.length_eq b hb
    · rwa [List.mem_singleton.mp hb]
  · rw [hhash, toList_compress s hblk, h.hash_eq, hashAfter, hashAfter, List.foldl_append,
      List.foldl_cons, List.foldl_nil]
  · rw [hm, hempty, List.take_zero, List.append_nil, List.flatten_append, List.flatten_singleton]

/-- What goes into the buffer joins what it holds. -/
theorem take_pending (s : Sha256) (data : List UInt8) :
    (updateBytes s.buflen (taken s.buflen data.length) (fun i _ => data.getD i 0) s.buf).toList.take
        (s.buflen + taken s.buflen data.length) =
      s.buf.toList.take s.buflen ++ data.take (taken s.buflen data.length) := by
  have hroom : s.buflen < 64 := s.buflen_lt
  have htaken : taken s.buflen data.length = min data.length (64 - s.buflen) := taken_eq _ _
  exact take_updateBytes (by omega) (show _ ≤ 64 by omega) s.buf

/-- **What the state holds after more input.** -/
theorem Absorbed.absorb (h : Absorbed s m blocks) (data : List UInt8) :
    ∃ blocks', Absorbed (s.absorb data) (m ++ data) blocks' := by
  induction s, data using absorb.induct generalizing m blocks with
  | case1 s =>
    rw [absorb_nil, List.append_nil]
    exact ⟨blocks, h⟩
  | case2 s data hdata hdirect ih =>
    rw [Sha256.absorb, dif_neg hdata, if_pos hdirect]
    have hblk : (data.take block).length = block := by
      rw [List.length_take, Nat.min_eq_left hdirect.2]
    have hm : m = blocks.flatten := by
      rw [h.message_eq, hdirect.1, List.take_zero, List.append_nil]
    have hnext := ih (h.append hblk rfl hdirect.1 (hm ▸ rfl : m ++ data.take block = _))
    rwa [List.append_assoc, List.take_append_drop] at hnext
  | case3 s data hdata hbuffered take buf =>
    rename_i hfull ih
    have hpending : buf.toList = s.buf.toList.take s.buflen ++ data.take take := by
      rw [← take_pending s data, hfull, List.take_of_length_le (Nat.le_of_eq Vector.length_toList)]
    have hfilled : Absorbed
        { s.compress buf.toList with buf := buf, buflen := 0, buflen_lt := Nat.succ_pos 63 }
        (m ++ data.take take) (blocks ++ [buf.toList]) := by
      refine h.append Vector.length_toList ?_ ?_ ?_
      · rfl
      · rfl
      · rw [h.message_eq, hpending, List.append_assoc]
    rw [Sha256.absorb, dif_neg hdata, if_neg hbuffered]
    dsimp only
    rw [dif_pos hfull]
    have hnext := ih hfilled
    rwa [List.append_assoc, List.take_append_drop] at hnext
  | case4 s data hdata hbuffered take buf =>
    rename_i hfull hroom ih
    have hfilled : Absorbed
        { s with buf := buf, buflen := s.buflen + take, buflen_lt := hroom }
        (m ++ data.take take) blocks := by
      refine ⟨h.length_eq, h.hash_eq, ?_⟩
      rw [h.message_eq, List.append_assoc, ← take_pending s data]
    rw [Sha256.absorb, dif_neg hdata, if_neg hbuffered]
    dsimp only
    rw [dif_neg hfull]
    have hnext := ih hfilled
    rwa [List.append_assoc, List.take_append_drop] at hnext

/-- The length counts what is given to `update`, and nothing else changes it. -/
theorem total_absorb (s : Sha256) (data : List UInt8) : (s.absorb data).total = s.total := by
  induction s, data using absorb.induct with
  | case1 s => rw [absorb_nil]
  | case2 s data hdata hdirect ih =>
    rw [Sha256.absorb, dif_neg hdata, if_pos hdirect, ih]
    rfl
  | case3 s data hdata hbuffered take buf =>
    rename_i hfull ih
    rw [Sha256.absorb, dif_neg hdata, if_neg hbuffered]
    dsimp only
    rw [dif_pos hfull, ih]
    rfl
  | case4 s data hdata hbuffered take buf =>
    rename_i hfull hroom ih
    rw [Sha256.absorb, dif_neg hdata, if_neg hbuffered]
    dsimp only
    rw [dif_neg hfull, ih]

/-- The length is not part of what is absorbed. -/
theorem Absorbed.withTotal (h : Absorbed s m blocks) (t : UInt64) :
    Absorbed { s with total := t } m blocks := ⟨h.length_eq, h.hash_eq, h.message_eq⟩

theorem Absorbed.update (h : Absorbed s m blocks) (data : List UInt8) :
    ∃ blocks', Absorbed (s.update data) (m ++ data) blocks' := (h.withTotal _).absorb data

/-- **Any way of cutting a message into pieces.** -/
theorem absorbed_foldl_update (h : Absorbed s m blocks) (pieces : List (List UInt8)) :
    ∃ blocks', Absorbed (pieces.foldl Sha256.update s) (m ++ pieces.flatten) blocks' := by
  induction pieces generalizing s m blocks with
  | nil =>
    rw [List.flatten_nil, List.append_nil]
    exact ⟨blocks, h⟩
  | cons data pieces ih =>
    obtain ⟨blocks', hnext⟩ := h.update data
    rw [List.flatten_cons, ← List.append_assoc]
    exact ih hnext

theorem total_foldl_update (s : Sha256) (pieces : List (List UInt8)) :
    (pieces.foldl Sha256.update s).total = s.total + UInt64.ofNat pieces.flatten.length := by
  induction pieces generalizing s with
  | nil => exact (UInt64.add_zero _).symm
  | cons data pieces ih =>
    rw [List.foldl_cons, ih, Sha256.update, total_absorb, List.flatten_cons, List.length_append,
      UInt64.ofNat_add, UInt64.add_assoc]

/-- **Padding with zeros** until eight bytes of the buffer are left. -/
theorem Absorbed.padZeros (h : Absorbed s m blocks) :
    (s.padZeros).buflen = 56 ∧ ∃ blocks', Absorbed s.padZeros
      (m ++ List.replicate ((120 - s.buflen) % 64) 0) blocks' := by
  induction s using padZeros.induct generalizing m blocks with
  | case1 s hne padded =>
    rename_i ih
    obtain ⟨blocks', hnext⟩ := h.update [0x00]
    obtain ⟨hlevel, blocks'', hlast⟩ := ih (hnext.withTotal (padded.total - 1))
    have hlt : s.buflen < 64 := s.buflen_lt
    have hstep : padded.buflen = (s.buflen + 1) % 64 := buflen_update_singleton s 0x00
    have hcount : (120 - s.buflen) % 64 = (120 - padded.buflen) % 64 + 1 := by omega
    rw [Sha256.padZeros, if_pos hne, hcount, List.replicate_succ, List.append_cons]
    exact ⟨hlevel, blocks'', hlast⟩
  | case2 s hfull =>
    have hlevel : s.buflen = 56 := not_not.mp hfull
    rw [Sha256.padZeros, if_neg hfull, hlevel, List.replicate_zero, List.append_nil]
    exact ⟨rfl, blocks, h⟩

/-! ## The digest -/

/-- The hash value after whole blocks and nothing more. -/
theorem Absorbed.hash_of_dvd (h : Absorbed s m blocks) (hm : Sha2.blockSize ∣ m.length) :
    s.h.toList = (chunks Sha2.blockSize m).foldl (fun v blk => Sha2.compress v (Sha2.words blk))
      Sha2.initialHash := by
  have hempty : s.buflen = 0 := h.buflen_eq.trans (Nat.mod_eq_zero_of_dvd hm)
  have hblocks : m = blocks.flatten := by
    rw [h.message_eq, hempty, List.take_zero, List.append_nil]
  rw [h.hash_eq, hblocks, chunks_flatten (by simp) h.length_eq, hashAfter]

theorem toBeBytes_eq (x : UInt64) : x.toBeBytes = beBytes 8 x.toNat := by
  rw [UInt64.toBeBytes, beBytes]
  refine congrArg Vector.ofFn (funext fun i => ?_)
  rw [show 256 = 2 ^ 8 by rfl, ← Nat.pow_mul]

theorem toBeBytes_word_eq (x : UInt32) : x.toBeBytes = beBytes 4 x.toNat := by
  rw [UInt32.toBeBytes, beBytes]
  refine congrArg Vector.ofFn (funext fun i => ?_)
  rw [show 256 = 2 ^ 8 by rfl, ← Nat.pow_mul]

theorem toList_eq_ofFn {α : Type*} {n : ℕ} (a : Vector α n) (d : α) :
    a.toList = List.ofFn fun i : Fin n => a[i.val]?.getD d := by
  apply List.ext_getElem
  · rw [Vector.length_toList, List.length_ofFn]
  · intro i hi hi'
    rw [Vector.length_toList] at hi
    rw [List.getElem_ofFn, Vector.getElem_toList, Vector.getElem?_eq_getElem hi, Option.getD_some]

/-- The digest is the bytes of the hash value. -/
theorem toList_digest (h : Vector UInt32 8) :
    (Vector.ofFn fun i : Fin digestLen => byteAt (w32 h (i.val / 4)).toBeBytes (i.val % 4)).toList =
      h.toList.flatMap fun w => (beBytes 4 w.toNat).toList := by
  have hbytes (w : UInt32) : (beBytes 4 w.toNat).toList =
      List.ofFn fun j : Fin 4 => byteAt w.toBeBytes j := by
    rw [toBeBytes_word_eq]
    exact toList_eq_ofFn _ 0
  rw [Vector.toList_ofFn, List.ofFn_mul (m := 8) (n := 4), List.flatMap_def, toList_eq_ofFn h 0,
    List.map_ofFn]
  refine congrArg (List.flatten <| List.ofFn ·) (funext fun i => ?_)
  rw [Function.comp_apply, hbytes]
  refine congrArg List.ofFn (funext fun j => ?_)
  have hword : (i.val * 4 + j.val) / 4 = i := by omega
  have hplace : (i.val * 4 + j.val) % 4 = j := by omega
  rw [hword, hplace, w32]

/-- **Finishing.** -/
theorem Absorbed.finalize (h : Absorbed s m blocks) (htotal : s.total = UInt64.ofNat m.length)
    (hlen : m.length < 2 ^ 61) : s.finalize.toList = Sha2.sha256 m := by
  obtain ⟨_, hmarked⟩ := h.update [0x80]
  obtain ⟨-, _, hzeros⟩ := (hmarked.withTotal ((s.update [0x80]).total - 1)).padZeros
  obtain ⟨_, hdone⟩ := hzeros.update (s.total * 8).toBeBytes.toList
  -- the bytes absorbed are those the standard pads the message to
  have hmark : (s.update [0x80]).buflen = (m.length + 1) % 64 := by
    rw [hmarked.buflen_eq, List.length_append, List.length_singleton]
  have hcount : (120 - (s.update [0x80]).buflen) % 64 = Sha2.zeros m.length := by
    rw [hmark, Sha2.zeros]
    omega
  have hbits : (s.total * 8).toBeBytes = beBytes 8 (8 * m.length) := by
    have hnat : (s.total * 8).toNat = 8 * m.length := by
      rw [htotal, UInt64.toNat_mul, UInt64.toNat_ofNat']
      change m.length % 2 ^ 64 * 8 % 2 ^ 64 = _
      omega
    rw [toBeBytes_eq, hnat]
  have hpadded : m ++ [0x80] ++ List.replicate ((120 - (s.update [0x80]).buflen) % 64) 0 ++
      (s.total * 8).toBeBytes.toList = Sha2.padded m := by
    rw [hcount, hbits, Sha2.padded, List.append_assoc, List.append_assoc, List.singleton_append]
  have hhash := hdone.hash_of_dvd (hpadded ▸ Sha2.dvd_length_padded m)
  rw [hpadded] at hhash
  rw [Sha2.sha256, ← hhash]
  exact toList_digest _

/-- **Streaming is one-shot.** Whatever pieces a message of fewer than `2 ^ 61` bytes is
given in, the digest is the one FIPS 180-4 defines, which the one-shot function gives. -/
theorem finalize_eq_standard {pieces : List (List UInt8)}
    (hlen : pieces.flatten.length < 2 ^ 61) :
    (pieces.foldl update new).finalize.toList = Sha2.sha256 pieces.flatten ∧
      (pieces.foldl update new).finalize = sha256 pieces.flatten := by
  have hone (pieces : List (List UInt8)) (hlen : pieces.flatten.length < 2 ^ 61) :
      (pieces.foldl update new).finalize.toList = Sha2.sha256 pieces.flatten := by
    obtain ⟨_, h⟩ := absorbed_foldl_update absorbed_new pieces
    refine h.finalize ?_ hlen
    rw [total_foldl_update]
    exact UInt64.zero_add _
  refine ⟨hone pieces hlen, Vector.toList_inj.mp ?_⟩
  have hshot := hone [pieces.flatten] (by rwa [List.flatten_singleton])
  rw [List.flatten_singleton] at hshot
  exact (hone pieces hlen).trans hshot.symm

/-- A message in three pieces, one of them empty. -/
theorem finalize_eq_standard_abc :
    ([[97], [], [98, 99]].foldl update new).finalize.toList =
        Sha2.sha256 [[97], [], [98, 99]].flatten ∧
      ([[97], [], [98, 99]].foldl update new).finalize = sha256 [[97], [], [98, 99]].flatten :=
  finalize_eq_standard (by decide)

end TetherMesh.Protocol.Sha256
