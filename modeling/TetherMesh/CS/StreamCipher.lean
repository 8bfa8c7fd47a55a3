import TetherMesh.Math.Chunks

/-!
# Stream encryption and CBC chaining over a block function

A stream cipher XORs a keystream block over each chunk of its data, stepping a
counter from chunk to chunk; a CBC chain feeds block after block into an
accumulator. Neither depends on which block function is used.

## Main definitions

* `streamXor` — XOR the keystream of a counter over data
* `counters` — the counters the keystream is taken at
* `cbcFold` — chain a list of blocks

## Main results

* `length_streamXor`, `streamXor_streamXor` — lengths are kept, twice is the identity
* `streamXor_of_ne_nil` — one chunk at a time
* `streamXor_eq_xorInto` — the data under the keystream blocks of its counters
* `getElem?_streamXor` — one byte of the output
-/

namespace TetherMesh.CS

open Math

section Stream

variable {σ : Type*} {n : ℕ} (keystream : σ → Vector UInt8 n) (next : σ → σ)

/-- Each chunk under the keystream of its counter. -/
def xorChunks : σ → List (List UInt8) → List (List UInt8)
  | _, [] => []
  | s, chunk :: rest => xorInto chunk (keystream s).toList :: xorChunks (next s) rest

/-- XOR the keystream that starts at counter `s` over `data`. -/
def streamXor (s : σ) (data : List UInt8) : List UInt8 :=
  (xorChunks keystream next s (chunks n data)).flatten

variable {keystream next}

theorem streamXor_nil (hn : 0 < n) (s : σ) : streamXor keystream next s [] = [] := by
  rw [streamXor, chunks_nil hn, xorChunks, List.flatten_nil]

theorem streamXor_of_ne_nil (hn : 0 < n) (s : σ) {data : List UInt8} (hdata : data ≠ []) :
    streamXor keystream next s data =
      xorInto (data.take n) (keystream s).toList ++
        streamXor keystream next (next s) (data.drop n) := by
  rw [streamXor, chunks_of_ne_nil hn hdata, xorChunks, List.flatten_cons, streamXor]

theorem length_streamXor (hn : 0 < n) (s : σ) (data : List UInt8) :
    (streamXor keystream next s data).length = data.length := by
  induction data using chunkInduction hn generalizing s with
  | nil => rw [streamXor_nil hn]
  | step data hdata ih =>
    rw [streamXor_of_ne_nil hn s hdata, List.length_append, length_xorInto, ih,
      ← List.length_append, List.take_append_drop]

/-- **Twice is the identity**, because the keystream does not depend on the data. -/
theorem streamXor_streamXor (hn : 0 < n) (s : σ) (data : List UInt8) :
    streamXor keystream next s (streamXor keystream next s data) = data := by
  induction data using chunkInduction hn generalizing s with
  | nil => rw [streamXor_nil hn, streamXor_nil hn]
  | step data hdata ih =>
    have hne : streamXor keystream next s data ≠ [] := by
      rw [← List.length_pos_iff, length_streamXor hn]
      exact List.length_pos_iff.mpr hdata
    rw [streamXor_of_ne_nil hn s hne, streamXor_of_ne_nil hn s hdata]
    -- the output is cut where the input was
    rcases le_or_gt n data.length with hle | hlt
    · have hcut : (xorInto (data.take n) (keystream s).toList).length = n := by
        rw [length_xorInto, List.length_take, min_eq_left hle]
      rw [List.take_left' hcut, List.drop_left' hcut, xorInto_xorInto, ih, List.take_append_drop]
    · have hdrop : data.drop n = [] := List.drop_of_length_le hlt.le
      rw [hdrop, streamXor_nil hn, List.append_nil, List.take_of_length_le hlt.le,
        List.take_of_length_le (by rw [length_xorInto]; exact hlt.le),
        List.drop_of_length_le (by rw [length_xorInto]; exact hlt.le), streamXor_nil hn,
        List.append_nil, xorInto_xorInto]

/-- The counters at which a list of chunks takes its keystream. -/
def counters (next : σ → σ) : σ → List (List UInt8) → List σ
  | _, [] => []
  | s, _ :: rest => s :: counters next (next s) rest

theorem counters_eq_iterate (s : σ) (pieces : List (List UInt8)) :
    counters next s pieces = List.iterate next s pieces.length := by
  induction pieces generalizing s with
  | nil => rfl
  | cons _ rest ih => exact congrArg (List.cons s) (ih (next s))

/-- The data under the keystream blocks of its counters, in order: nothing else of the
keystream function reaches the output. -/
theorem streamXor_eq_xorInto (hn : 0 < n) (s : σ) (data : List UInt8) :
    streamXor keystream next s data =
      xorInto data ((counters next s (chunks n data)).flatMap fun c => (keystream c).toList) := by
  induction data using chunkInduction hn generalizing s with
  | nil => rw [streamXor_nil hn, xorInto_nil]
  | step data hdata ih =>
    rw [streamXor_of_ne_nil hn s hdata, chunks_of_ne_nil hn hdata, counters, List.flatMap_cons,
      ih]
    rcases le_or_gt n data.length with hle | hlt
    · have hcut : (data.take n).length = (keystream s).toList.length := by
        rw [List.length_take, Vector.length_toList, min_eq_left hle]
      rw [← xorInto_append hcut, List.take_append_drop]
    · -- a short last chunk uses the front of its keystream block
      have hfit : data.length ≤ (keystream s).toList.length := by
        rw [Vector.length_toList]
        exact hlt.le
      rw [List.drop_of_length_le hlt.le, List.take_of_length_le hlt.le, xorInto_nil,
        List.append_nil, xorInto_append_right hfit]

/-- **One byte of the output**: byte `j % n` of keystream block `j / n` over the data. -/
theorem getElem?_streamXor (hn : 0 < n) (s : σ) (data : List UInt8) (j : ℕ) :
    (streamXor keystream next s data)[j]? =
      data[j]?.map (· ^^^ byteAt (keystream (next^[j / n] s)) (j % n)) := by
  induction data using chunkInduction hn generalizing s j with
  | nil => rw [streamXor_nil hn]; rfl
  | step data hdata ih =>
    rcases Nat.lt_or_ge j data.length with hj | hend
    · rw [streamXor_of_ne_nil hn s hdata]
      rcases Nat.lt_or_ge j n with hlt | hle
      · have hfirst : j < (xorInto (data.take n) (keystream s).toList).length := by
          rw [length_xorInto, List.length_take]
          exact Nat.lt_min.mpr ⟨hlt, hj⟩
        rw [List.getElem?_append_left hfirst, getElem?_xorInto, List.getElem?_take_of_lt hlt,
          getElem?_toList _ hlt, Option.getD_some, Nat.div_eq_of_lt hlt, Nat.mod_eq_of_lt hlt,
          Function.iterate_zero_apply, byteAt_of_lt _ hlt]
      · have hfirst : (xorInto (data.take n) (keystream s).toList).length = n := by
          rw [length_xorInto, List.length_take, Nat.min_eq_left (hle.trans hj.le)]
        have hquotient : j / n = (j - n) / n + 1 := Nat.div_eq_sub_div hn hle
        rw [List.getElem?_append_right (hfirst.trans_le hle), hfirst, ih, List.getElem?_drop,
          Nat.add_sub_cancel' hle, hquotient, Function.iterate_succ_apply, Nat.mod_eq_sub_mod hle]
    · rw [List.getElem?_eq_none (by rwa [length_streamXor hn]), List.getElem?_eq_none hend,
        Option.map_none]

/-- **One stream tells every other** under the same counter, as far as it reaches. -/
theorem streamXor_eq_of_known (hn : 0 < n) (s : σ) {data known : List UInt8}
    (hle : data.length ≤ known.length) :
    streamXor keystream next s data =
      xorInto data (xorInto known (streamXor keystream next s known)) := by
  apply List.ext_getElem?
  intro j
  rw [getElem?_streamXor hn, getElem?_xorInto, getElem?_xorInto, getElem?_streamXor hn]
  rcases Nat.lt_or_ge j data.length with hj | hend
  · rw [List.getElem?_eq_getElem hj, List.getElem?_eq_getElem (hj.trans_le hle)]
    simp [← UInt8.xor_assoc]
  · rw [List.getElem?_eq_none hend, Option.map_none, Option.map_none]

/-- The stream of a prefix is the prefix of the stream. -/
theorem streamXor_take (hn : 0 < n) (s : σ) (data : List UInt8) (m : ℕ) :
    streamXor keystream next s (data.take m) = (streamXor keystream next s data).take m := by
  apply List.ext_getElem?
  intro j
  rw [getElem?_streamXor hn, List.getElem?_take, List.getElem?_take, getElem?_streamXor hn]
  split_ifs
  · rfl
  · rfl

/-- The stream under a keystream function that may miss. -/
def xorChunks? (keystream : σ → Option (Vector UInt8 n)) (next : σ → σ) :
    σ → List (List UInt8) → Option (List (List UInt8))
  | _, [] => some []
  | s, chunk :: rest => do
    return xorInto chunk (← keystream s).toList :: (← xorChunks? keystream next (next s) rest)

/-- XOR the keystream that starts at counter `s` over `data`, if it never misses. -/
def streamXor? (keystream : σ → Option (Vector UInt8 n)) (next : σ → σ) (s : σ)
    (data : List UInt8) : Option (List UInt8) :=
  (xorChunks? keystream next s (chunks n data)).map List.flatten

theorem streamXor?_eq {keystream? : σ → Option (Vector UInt8 n)}
    (h : ∀ s, keystream? s = some (keystream s)) (s : σ) (data : List UInt8) :
    streamXor? keystream? next s data = some (streamXor keystream next s data) := by
  have hchunks (s : σ) (pieces : List (List UInt8)) :
      xorChunks? keystream? next s pieces = some (xorChunks keystream next s pieces) := by
    induction pieces generalizing s with
    | nil => rfl
    | cons chunk rest ih =>
      rw [xorChunks?, h, Option.bind_eq_bind, Option.bind_some, ih]
      rfl
  rw [streamXor?, hchunks, Option.map_some, streamXor]

end Stream

section Cbc

variable {β : Type*} (cipher : β → β) (xor : β → β → β)

/-- Chain blocks: each is XORed into the accumulator, which is then enciphered. -/
def cbcFold (x : β) (blocks : List β) : β := blocks.foldl (fun x b => cipher (xor x b)) x

@[simp] theorem cbcFold_nil (x : β) : cbcFold cipher xor x [] = x := rfl

@[simp] theorem cbcFold_cons (x b : β) (blocks : List β) :
    cbcFold cipher xor x (b :: blocks) = cbcFold cipher xor (cipher (xor x b)) blocks := rfl

theorem cbcFold_append (x : β) (blocks blocks' : List β) :
    cbcFold cipher xor x (blocks ++ blocks') =
      cbcFold cipher xor (cbcFold cipher xor x blocks) blocks' := List.foldl_append

end Cbc

end TetherMesh.CS
