import Mathlib.Data.List.Basic

/-!
# Reading and writing at a cursor

A cursor is a buffer and a position in it. A codec reads forward from the
position or writes forward over what lies there, and stops with an error; the
rules below compose single reads and writes into statements about whole formats,
without ever computing a position.

## Main definitions

* `Cursor` — a buffer and a position within it
* `Reads m bs a` — `m` consumes exactly `bs` and answers `a`, in any surroundings
* `Advances k m` — when `m` succeeds it has moved on by at least `k`
* `Consumed c bs c'` — exactly `bs` lies between `c` and `c'`
* `Writes limit full m bs` — `m` puts down exactly `bs`, or fails with `full`
* `WritesLead limit full m lead bs` — what it leaves behind when it fails is known, too

## Main results

* `Reads.bind`, `Advances.bind`, `Writes.bind`, `WritesLead.bind` — one after the other
* `bind_ok` — what a sequence that succeeded consists of
* `Writes.listForM` — over a list
* `Writes.start` — what happens on a fresh buffer
-/

namespace TetherMesh.CS

/-- A buffer and a position within it. -/
structure Cursor (α : Type) where
  /-- The whole buffer. -/
  buf : List α
  /-- How much of it lies behind. -/
  pos : ℕ
  /-- The position never leaves the buffer. -/
  pos_le : pos ≤ buf.length

namespace Cursor

variable {α β γ ε : Type}

/-- A cursor at the front of `buf`. -/
def start (buf : List α) : Cursor α := ⟨buf, 0, Nat.zero_le _⟩

/-- The cursor between what lies behind and what lies ahead. -/
def between (front rest : List α) : Cursor α :=
  ⟨front ++ rest, front.length, by rw [List.length_append]; omega⟩

@[simp] theorem buf_between (front rest : List α) : (between front rest).buf = front ++ rest := rfl

@[simp] theorem pos_between (front rest : List α) : (between front rest).pos = front.length := rfl

/-- Every cursor is between what lies behind and what lies ahead. -/
theorem eq_between (c : Cursor α) : c = between (c.buf.take c.pos) (c.buf.drop c.pos) := by
  have hpos : (c.buf.take c.pos).length = c.pos := by
    rw [List.length_take, Nat.min_eq_left c.pos_le]
  simp only [between, List.take_append_drop, hpos]

theorem between_inj {front front' rest rest' : List α}
    (h : between front rest = between front' rest') : front = front' ∧ rest = rest' := by
  have hlen : front.length = front'.length := congrArg Cursor.pos h
  exact List.append_inj (congrArg Cursor.buf h) hlen

/-! ## Reading -/

/-- `m` consumes exactly `bs` and answers `a`, whatever lies behind and ahead. -/
def Reads (m : EStateM ε (Cursor α) β) (bs : List α) (a : β) : Prop :=
  ∀ front rest, m (between front (bs ++ rest)) = .ok a (between (front ++ bs) rest)

theorem Reads.nil (a : β) : Reads (pure a : EStateM ε (Cursor α) β) [] a := by
  intro front rest
  rw [List.append_nil]
  rfl

/-- One read after another. -/
theorem Reads.bind {m : EStateM ε (Cursor α) β} {f : β → EStateM ε (Cursor α) γ} {as bs : List α}
    {a : β} {b : γ} (hm : Reads m as a) (hf : Reads (f a) bs b) :
    Reads (m >>= f) (as ++ bs) b := by
  intro front rest
  have hfirst := hm front (bs ++ rest)
  have hsecond := hf (front ++ as) rest
  rw [← List.append_assoc] at hfirst
  rw [List.append_assoc] at hsecond
  simp only [Bind.bind, EStateM.bind, hfirst, hsecond]

/-- A read and what is made of it. -/
theorem Reads.map {m : EStateM ε (Cursor α) β} {bs : List α} {a : β} (hm : Reads m bs a)
    (f : β → γ) : Reads (do return f (← m)) bs (f a) := by
  rw [← List.append_nil bs]
  exact hm.bind (Reads.nil (f a))

/-- A read on a fresh buffer. -/
theorem Reads.start {m : EStateM ε (Cursor α) β} {bs : List α} {a : β} (hm : Reads m bs a)
    (rest : List α) : m (start (bs ++ rest)) = .ok a (between bs rest) :=
  hm [] rest

/-- When `m` succeeds it leaves the buffer alone and has moved on by at least `k`. -/
def Advances (k : ℕ) (m : EStateM ε (Cursor α) β) : Prop :=
  ∀ c a c', m c = .ok a c' → c'.buf = c.buf ∧ c.pos + k ≤ c'.pos

theorem Advances.nil (a : β) : Advances 0 (pure a : EStateM ε (Cursor α) β) := by
  intro c b c' h
  cases h
  exact ⟨rfl, Nat.le_refl _⟩

theorem Advances.throw (k : ℕ) (e : ε) : Advances k (throw e : EStateM ε (Cursor α) β) := by
  intro c b c' h
  cases h

/-- One read after another moves on by both. -/
theorem Advances.bind {m : EStateM ε (Cursor α) β} {f : β → EStateM ε (Cursor α) γ} {j k : ℕ}
    (hm : Advances j m) (hf : ∀ a, Advances k (f a)) : Advances (j + k) (m >>= f) := by
  intro c b c' h
  simp only [Bind.bind, EStateM.bind] at h
  cases hrun : m c with
  | error e c₁ =>
    rw [hrun] at h
    cases h
  | ok a c₁ =>
    rw [hrun] at h
    obtain ⟨hbuf, hpos⟩ := hm c a c₁ hrun
    obtain ⟨hbuf', hpos'⟩ := hf a c₁ b c' h
    exact ⟨hbuf'.trans hbuf, by omega⟩

theorem Advances.mono {m : EStateM ε (Cursor α) β} {j k : ℕ} (hm : Advances k m) (h : j ≤ k) :
    Advances j m := by
  intro c a c' hrun
  obtain ⟨hbuf, hpos⟩ := hm c a c' hrun
  exact ⟨hbuf, by omega⟩

/-- A sequence that succeeded is a first step and a second one that succeeded. -/
theorem bind_ok {m : EStateM ε (Cursor α) β} {f : β → EStateM ε (Cursor α) γ} {c c' : Cursor α}
    {b : γ} (h : (m >>= f) c = .ok b c') : ∃ a c₁, m c = .ok a c₁ ∧ f a c₁ = .ok b c' := by
  simp only [Bind.bind, EStateM.bind] at h
  cases hrun : m c with
  | error e c₁ =>
    rw [hrun] at h
    cases h
  | ok a c₁ =>
    rw [hrun] at h
    exact ⟨a, c₁, rfl, h⟩

/-- A read with its answer wrapped. -/
theorem map_ok {m : EStateM ε (Cursor α) β} {f : β → γ} {c c' : Cursor α} {b : γ}
    (h : (do return f (← m)) c = EStateM.Result.ok b c') : ∃ a, m c = .ok a c' ∧ f a = b := by
  obtain ⟨a, c₁, hm, hpure⟩ := bind_ok h
  cases hpure
  exact ⟨a, hm, rfl⟩

/-- Exactly `bs` lies between the two positions of a cursor. -/
def Consumed (c : Cursor α) (bs : List α) (c' : Cursor α) : Prop :=
  ∃ front rest, c = between front (bs ++ rest) ∧ c' = between (front ++ bs) rest

theorem Consumed.trans {c c' c'' : Cursor α} {as bs : List α} (h : Consumed c as c')
    (h' : Consumed c' bs c'') : Consumed c (as ++ bs) c'' := by
  obtain ⟨front, rest, rfl, rfl⟩ := h
  obtain ⟨front', rest', hc', rfl⟩ := h'
  obtain ⟨rfl, rfl⟩ := between_inj hc'
  exact ⟨front, rest', by rw [List.append_assoc], by rw [List.append_assoc]⟩

/-- What lies between two positions of a cursor. -/
def since (c c' : Cursor α) : List α := (c.buf.drop c.pos).take (c'.pos - c.pos)

theorem Consumed.since_eq {c c' : Cursor α} {bs : List α} (h : Consumed c bs c') :
    c.since c' = bs := by
  obtain ⟨front, rest, rfl, rfl⟩ := h
  rw [since, buf_between, pos_between, pos_between, List.drop_left', List.length_append,
    Nat.add_sub_cancel_left, List.take_left']
  · rfl
  · rfl

/-- A cursor that moved on within its buffer consumed what lies between. -/
theorem consumed_since {c c' : Cursor α} (hbuf : c'.buf = c.buf) (hpos : c.pos ≤ c'.pos) :
    Consumed c (c.since c') c' := by
  obtain ⟨buf, pos', hle'⟩ := c'
  obtain ⟨k, rfl⟩ := Nat.exists_eq_add_of_le hpos
  cases hbuf
  have hsince : c.since ⟨c.buf, c.pos + k, hle'⟩ = (c.buf.drop c.pos).take k := by
    rw [since, Nat.add_sub_cancel_left]
  refine ⟨c.buf.take c.pos, c.buf.drop (c.pos + k), ?_, ?_⟩
  · rw [hsince, ← List.drop_drop, List.take_append_drop]
    exact eq_between c
  · rw [hsince, ← List.take_add]
    exact eq_between _

/-! ## Writing -/

/-- `m` puts down exactly `bs` where there is room for it. Where there is not, it
fails with `full`, what lies behind is untouched and the buffer keeps its length.
This is asked of buffers shorter than `limit` only. -/
def Writes (limit : ℕ) (full : ε) (m : EStateM ε (Cursor α) Unit) (bs : List α) : Prop :=
  ∀ front rest, front.length + rest.length < limit →
    (bs.length ≤ rest.length →
      m (between front rest) = .ok () (between (front ++ bs) (rest.drop bs.length))) ∧
    (rest.length < bs.length → ∃ mid rest', mid.length + rest'.length = rest.length ∧
      m (between front rest) = .error full (between (front ++ mid) rest'))

/-- `m` writes `bs`, of which `lead` goes out one element at a time. Where there is no room
for `bs`, as much of `lead` as there is room for has been put down when `m` fails. -/
def WritesLead (limit : ℕ) (full : ε) (m : EStateM ε (Cursor α) Unit) (lead bs : List α) : Prop :=
  ∀ front rest, front.length + rest.length < limit →
    (bs.length ≤ rest.length →
      m (between front rest) = .ok () (between (front ++ bs) (rest.drop bs.length))) ∧
    (rest.length < bs.length → m (between front rest) =
      .error full (between (front ++ lead.take rest.length) (rest.drop lead.length)))

section Rules

variable {limit : ℕ} {full : ε} {m m' : EStateM ε (Cursor α) Unit} {as bs lead : List α}

theorem Writes.nil : Writes limit full (pure () : EStateM ε (Cursor α) Unit) [] := by
  intro front rest _
  refine ⟨fun _ => ?_, fun hshort => absurd hshort (Nat.not_lt_zero _)⟩
  rw [List.append_nil]
  rfl

/-- One write after another. -/
theorem Writes.bind (hm : Writes limit full m as) (hm' : Writes limit full m' bs) :
    Writes limit full (m >>= fun _ => m') (as ++ bs) := by
  intro front rest hlimit
  obtain ⟨hfits, hfull⟩ := hm front rest hlimit
  have hlimit' : as.length ≤ rest.length →
      (front ++ as).length + (rest.drop as.length).length < limit := by
    rw [List.length_append, List.length_drop]
    omega
  rw [List.length_append]
  constructor
  · intro hroom
    have hfirst := hfits (by omega)
    have hsecond := (hm' (front ++ as) (rest.drop as.length) (hlimit' (by omega))).1
      (by rw [List.length_drop]; omega)
    rw [List.append_assoc, List.drop_drop] at hsecond
    simp only [Bind.bind, EStateM.bind, hfirst, hsecond]
  · intro hshort
    by_cases hroom : as.length ≤ rest.length
    · -- the first write fits and the second runs out of room
      have hfirst := hfits hroom
      obtain ⟨mid, rest', hlen, hsecond⟩ := (hm' (front ++ as) (rest.drop as.length)
        (hlimit' hroom)).2 (by rw [List.length_drop]; omega)
      rw [List.length_drop] at hlen
      refine ⟨as ++ mid, rest', by rw [List.length_append]; omega, ?_⟩
      rw [List.append_assoc] at hsecond
      simp only [Bind.bind, EStateM.bind, hfirst, hsecond]
    · -- the first write fails, and the second is not tried
      obtain ⟨mid, rest', hlen, hfirst⟩ := hfull (Nat.not_le.mp hroom)
      refine ⟨mid, rest', hlen, ?_⟩
      simp only [Bind.bind, EStateM.bind, hfirst]

theorem WritesLead.writes (hm : WritesLead limit full m lead bs) : Writes limit full m bs := by
  intro front rest hlimit
  obtain ⟨hfits, hfull⟩ := hm front rest hlimit
  refine ⟨hfits, fun hshort => ⟨_, _, ?_, hfull hshort⟩⟩
  rw [List.length_take, List.length_drop]
  omega

/-- One write after another, the first of them all one element at a time. -/
theorem WritesLead.bind (hm : WritesLead limit full m as as)
    (hm' : WritesLead limit full m' lead bs) :
    WritesLead limit full (m >>= fun _ => m') (as ++ lead) (as ++ bs) := by
  intro front rest hlimit
  refine ⟨(hm.writes.bind hm'.writes front rest hlimit).1, fun hshort => ?_⟩
  obtain ⟨hfits, hfull⟩ := hm front rest hlimit
  rw [List.length_append] at hshort ⊢
  rw [← List.drop_drop]
  by_cases hroom : as.length ≤ rest.length
  · -- the first write fits, and the second leaves what it leaves
    have hfirst := hfits hroom
    have hlen : (rest.drop as.length).length = rest.length - as.length := List.length_drop
    have hsecond := (hm' (front ++ as) (rest.drop as.length)
      (by rw [List.length_append, hlen]; omega)).2 (by rw [hlen]; omega)
    rw [hlen, List.append_assoc] at hsecond
    rw [List.take_append, List.take_of_length_le hroom]
    simp only [Bind.bind, EStateM.bind, hfirst, hsecond]
  · have hfirst := hfull (Nat.not_le.mp hroom)
    have hnone : rest.drop as.length = [] := List.drop_eq_nil_of_le (by omega)
    rw [hnone] at hfirst ⊢
    rw [List.take_append_of_le_length (by omega), List.drop_nil]
    simp only [Bind.bind, EStateM.bind, hfirst]

/-- One write for each element of a list. -/
theorem Writes.listForM {xs : List β} {f : β → EStateM ε (Cursor α) Unit} {g : β → List α}
    (h : ∀ x ∈ xs, Writes limit full (f x) (g x)) :
    Writes limit full (xs.forM f) (xs.flatMap g) := by
  induction xs with
  | nil => exact Writes.nil
  | cons x xs ih =>
    rw [List.flatMap_cons]
    exact (h x List.mem_cons_self).bind (ih fun y hy => h y (List.mem_cons_of_mem x hy))

/-- A write on a fresh buffer: it succeeds exactly when the buffer is long enough, and
then what lies beyond is unchanged. -/
theorem Writes.start (hm : Writes limit full m bs) {buf : List α} (hlimit : buf.length < limit) :
    (bs.length ≤ buf.length → m (start buf) = .ok () (between bs (buf.drop bs.length))) ∧
    (buf.length < bs.length → ∃ c, c.buf.length = buf.length ∧ m (start buf) = .error full c) := by
  obtain ⟨hfits, hfull⟩ := hm [] buf (by rwa [List.length_nil, Nat.zero_add])
  refine ⟨hfits, fun hshort => ?_⟩
  obtain ⟨mid, rest', hlen, hrun⟩ := hfull hshort
  exact ⟨_, by rw [buf_between, List.nil_append, List.length_append, hlen], hrun⟩

end Rules

end Cursor

end TetherMesh.CS
