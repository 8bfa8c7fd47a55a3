import TetherMesh.Math.Bytes

/-!
# Cutting a list into chunks

`chunks n xs` cuts `xs` into pieces of `n` elements, the last one possibly
shorter, as a block cipher mode walks over its data.

## Main definitions

* `chunks`, `zeroFill` — pieces of `n`, and zeros up to the next multiple of `n`

## Main results

* `chunks_of_ne_nil` — the first chunk and the chunks of the rest
* `chunkInduction` — induction chunk by chunk
* `chunks_append_of_dvd` — whole pieces in front are cut off by themselves
* `map_pad_chunks_injective` — zero-padded chunks determine the bytes, given their number
* `map_pad_chunks_zeroFill` — padding the last chunk, or filling up before cutting
-/

namespace TetherMesh.Math

variable {α : Type*} {n : ℕ} {xs ys : List α}

/-- `xs` in pieces of `n`, the last one possibly shorter. -/
def chunks (n : ℕ) (xs : List α) : List (List α) :=
  (List.range ((xs.length + n - 1) / n)).map fun i => (xs.drop (n * i)).take n

@[simp] theorem length_chunks (n : ℕ) (xs : List α) :
    (chunks n xs).length = (xs.length + n - 1) / n := by
  rw [chunks, List.length_map, List.length_range]

/-- No chunk is longer than asked for. -/
theorem length_le_of_mem_chunks {c : List α} (h : c ∈ chunks n xs) : c.length ≤ n := by
  obtain ⟨i, -, rfl⟩ := List.mem_map.mp h
  exact List.length_take_le n _

theorem chunks_nil (hn : 0 < n) : chunks n ([] : List α) = [] := by
  rw [← List.length_eq_zero_iff, length_chunks, List.length_nil]
  exact Nat.div_eq_of_lt (by omega)

/-- A non-empty list starts with its first `n` elements. -/
theorem chunks_of_ne_nil (hn : 0 < n) (hxs : xs ≠ []) :
    chunks n xs = xs.take n :: chunks n (xs.drop n) := by
  have hpos := List.length_pos_iff.mpr hxs
  have hcount : (xs.length + n - 1) / n = ((xs.drop n).length + n - 1) / n + 1 := by
    rw [List.length_drop]
    -- one chunk fewer is left, also when the only one was a short one
    rcases le_or_gt n xs.length with hle | hlt
    · rw [← Nat.add_div_right _ hn]
      congr 1
      omega
    · rw [Nat.sub_eq_zero_of_le hlt.le, Nat.zero_add, Nat.div_eq_of_lt (by omega : n - 1 < n),
        Nat.div_eq_of_lt_le (k := 1) (by omega) (by omega)]
  rw [chunks, hcount, List.range_succ_eq_map, List.map_cons, List.map_map, Nat.mul_zero,
    List.drop_zero, chunks]
  congr 1
  apply List.map_congr_left
  intro i _
  rw [Function.comp_apply, List.drop_drop, Nat.mul_succ, Nat.add_comm]

/-- A full piece in front is the first chunk. -/
theorem chunks_append (hn : 0 < n) (hxs : xs.length = n) :
    chunks n (xs ++ ys) = xs :: chunks n ys := by
  have hne : xs ++ ys ≠ [] := by
    intro hnil
    rw [(List.append_eq_nil_iff.mp hnil).1, List.length_nil] at hxs
    omega
  rw [chunks_of_ne_nil hn hne, List.take_left' hxs, List.drop_left' hxs]

/-- Full pieces are the chunks of what they make up. -/
theorem chunks_flatten (hn : 0 < n) {cs : List (List α)} (h : ∀ c ∈ cs, c.length = n) :
    chunks n cs.flatten = cs := by
  induction cs with
  | nil => exact chunks_nil hn
  | cons c cs ih =>
    rw [List.flatten_cons, chunks_append hn (h c List.mem_cons_self),
      ih fun c hc => h c (List.mem_cons_of_mem _ hc)]

theorem length_flatten_of_length_eq {cs : List (List α)} (h : ∀ c ∈ cs, c.length = n) :
    cs.flatten.length = cs.length * n := by
  rw [List.length_flatten, List.map_eq_replicate_iff.mpr h, List.sum_replicate_nat]

/-- At most `n` elements are a single chunk. -/
theorem chunks_of_length_le (hpos : xs ≠ []) (hle : xs.length ≤ n) : chunks n xs = [xs] := by
  have hn : 0 < n := (List.length_pos_iff.mpr hpos).trans_le hle
  rw [chunks_of_ne_nil hn hpos, List.take_of_length_le hle, List.drop_of_length_le hle,
    chunks_nil hn]

/-- Induction chunk by chunk. -/
@[elab_as_elim]
theorem chunkInduction (hn : 0 < n) {motive : List α → Prop} (nil : motive [])
    (step : ∀ xs, xs ≠ [] → motive (xs.drop n) → motive xs) (xs : List α) : motive xs := by
  induction hlen : xs.length using Nat.strong_induction_on generalizing xs with
  | h len ih =>
    by_cases hxs : xs = []
    · exact hxs ▸ nil
    · refine step xs hxs (ih (xs.drop n).length ?_ _ rfl)
      have hpos := List.length_pos_iff.mpr hxs
      rw [List.length_drop]
      omega

/-- Two lists of one length with the same zero-padded chunks are equal. -/
theorem map_pad_chunks_injective (hn : 0 < n) {xs ys : List UInt8} (hlen : xs.length = ys.length)
    (h : (chunks n xs).map (pad n) = (chunks n ys).map (pad n)) : xs = ys := by
  induction xs using chunkInduction hn generalizing ys with
  | nil => exact (List.length_eq_zero_iff.mp hlen.symm).symm
  | step xs hxs ih =>
    have hys : ys ≠ [] := by
      rw [← List.length_pos_iff, ← hlen]
      exact List.length_pos_iff.mpr hxs
    rw [chunks_of_ne_nil hn hxs, chunks_of_ne_nil hn hys, List.map_cons, List.map_cons,
      List.cons.injEq] at h
    have hfirst : xs.take n = ys.take n := by
      refine pad_injective ?_ ?_ h.1
      · rw [List.length_take, List.length_take, hlen]
      · rw [List.length_take]
        exact min_le_left _ _
    have hrest : xs.drop n = ys.drop n := by
      refine ih ?_ h.2
      rw [List.length_drop, List.length_drop, hlen]
    rw [← List.take_append_drop n xs, ← List.take_append_drop n ys, hfirst, hrest]

/-- Whole pieces in front are cut off by themselves. -/
theorem chunks_append_of_dvd (hn : 0 < n) (hdvd : n ∣ xs.length) (ys : List α) :
    chunks n (xs ++ ys) = chunks n xs ++ chunks n ys := by
  induction xs using chunkInduction hn with
  | nil => rw [chunks_nil hn, List.nil_append, List.nil_append]
  | step xs hxs ih =>
    have hle : n ≤ xs.length := Nat.le_of_dvd (List.length_pos_iff.mpr hxs) hdvd
    have htake : (xs.take n).length = n := by rw [List.length_take, min_eq_left hle]
    have hrest := ih (by rw [List.length_drop]; exact Nat.dvd_sub hdvd dvd_rfl)
    rw [chunks_of_ne_nil hn hxs, List.cons_append, ← hrest, ← chunks_append hn htake,
      ← List.append_assoc, List.take_append_drop]

/-! ## Filling up with zeros -/

/-- `xs` and as many zeros as make its length a multiple of `n`. -/
def zeroFill (n : ℕ) (xs : List UInt8) : List UInt8 :=
  xs ++ List.replicate ((n - xs.length % n) % n) 0

theorem dvd_length_zeroFill (hn : 0 < n) (xs : List UInt8) : n ∣ (zeroFill n xs).length := by
  have hlt := Nat.mod_lt xs.length hn
  rw [zeroFill, List.length_append, List.length_replicate, Nat.dvd_iff_mod_eq_zero, Nat.add_mod_mod,
    ← Nat.mod_add_mod, Nat.add_sub_cancel' hlt.le, Nat.mod_self]

theorem zeroFill_of_le {xs : List UInt8} (hle : n ≤ xs.length) :
    zeroFill n xs = xs.take n ++ zeroFill n (xs.drop n) := by
  rw [zeroFill, zeroFill, ← List.append_assoc, List.take_append_drop, List.length_drop,
    ← Nat.mod_eq_sub_mod hle]

/-- Zeros behind the bytes are what padding adds. -/
theorem pad_append_zeros (xs : List UInt8) (k : ℕ) :
    pad n (xs ++ List.replicate k 0) = pad n xs := by
  apply ext_byteAt
  intro i hi
  rw [byteAt_pad _ hi, byteAt_pad _ hi, List.getElem?_append]
  split_ifs with hin
  · rfl
  · rw [List.getElem?_eq_none (Nat.not_lt.mp hin), List.getElem?_replicate]
    split_ifs <;> rfl

/-- **Padding the last chunk** or filling up before cutting gives the same blocks. -/
theorem map_pad_chunks_zeroFill (hn : 0 < n) (xs : List UInt8) :
    (chunks n (zeroFill n xs)).map (pad n) = (chunks n xs).map (pad n) := by
  induction xs using chunkInduction hn with
  | nil => rw [zeroFill, List.length_nil, Nat.zero_mod, Nat.sub_zero, Nat.mod_self,
      List.replicate_zero, List.nil_append]
  | step xs hxs ih =>
    rcases le_or_gt n xs.length with hle | hlt
    · have htake : (xs.take n).length = n := by rw [List.length_take, min_eq_left hle]
      rw [zeroFill_of_le hle, chunks_append hn htake, List.map_cons, ih, chunks_of_ne_nil hn hxs,
        List.map_cons]
    · -- a single short chunk is filled to a full one
      have hpos := List.length_pos_iff.mpr hxs
      have hlen : (zeroFill n xs).length ≤ n := by
        rw [zeroFill, List.length_append, List.length_replicate, Nat.mod_eq_of_lt hlt,
          Nat.mod_eq_of_lt (by omega)]
        omega
      have hne : zeroFill n xs ≠ [] := List.append_ne_nil_of_left_ne_nil hxs _
      rw [chunks_of_length_le hne hlen, chunks_of_length_le hxs hlt.le, List.map_singleton,
        List.map_singleton, zeroFill, pad_append_zeros]

end TetherMesh.Math
