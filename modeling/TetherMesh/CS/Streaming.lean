import TetherMesh.CS.Cursor

/-!
# Readers that stream

A reader streams when it looks only ahead, and at no more than it consumes. Then what it
answers does not depend on what lies behind it or beyond what it took, and when it fails it
fails with more input in the same way, unless it had run out.

## Main definitions

* `Streams short m` — `m` streams, and reports `short` when it runs out

## Main results

* `Streams.bind` — one reader after another
* `Streams.ok_between` — the rule as it is used
-/

namespace TetherMesh.CS.Cursor

variable {α β γ ε : Type} {short : ε}

/-- `m` streams: an answer depends on what was consumed for it, and an error stays when more
follows, except that of running out. -/
structure Streams (short : ε) (m : EStateM ε (Cursor α) β) : Prop where
  /-- What is answered, is answered wherever the same lies ahead. -/
  ok : ∀ c a c', m c = .ok a c' → ∃ bs, Consumed c bs c' ∧ Reads m bs a
  /-- What fails, fails wherever the same lies ahead. -/
  error : ∀ front rest e c', m (between front rest) = .error e c' →
    ∀ front' more, (e = short → more = []) →
      ∃ c'', m (between front' (rest ++ more)) = .error e c''

namespace Streams

variable {m : EStateM ε (Cursor α) β} {front rest : List α} {a : β} {e : ε} {c' : Cursor α}

theorem nil (a : β) : Streams short (pure a : EStateM ε (Cursor α) β) where
  ok c b c' h := by
    cases h
    exact ⟨[], ⟨_, _, eq_between c, by rw [List.append_nil]; exact eq_between c⟩, Reads.nil a⟩
  error front rest e c' h := by cases h

theorem throw (e : ε) : Streams short (throw e : EStateM ε (Cursor α) β) where
  ok c b c' h := by cases h
  error front rest e' c' h front' more _ := by
    cases h
    exact ⟨_, rfl⟩

/-- An answer, between what lies behind and what lies ahead. -/
theorem ok_between (hm : Streams short m) (h : m (between front rest) = .ok a c') :
    ∃ bs rest', rest = bs ++ rest' ∧ c' = between (front ++ bs) rest' ∧ Reads m bs a := by
  obtain ⟨bs, ⟨front', rest', hstart, hend⟩, hreads⟩ := hm.ok _ _ _ h
  obtain ⟨rfl, rfl⟩ := between_inj hstart
  exact ⟨bs, rest', rfl, hend, hreads⟩

/-- **One reader after another** streams. -/
theorem bind {f : β → EStateM ε (Cursor α) γ} (hm : Streams short m)
    (hf : ∀ a, Streams short (f a)) : Streams short (m >>= f) where
  ok c b c' h := by
    obtain ⟨a, c₁, hfirst, hsecond⟩ := bind_ok h
    obtain ⟨as, has, hreads⟩ := hm.ok _ _ _ hfirst
    obtain ⟨bs, hbs, hreads'⟩ := (hf a).ok _ _ _ hsecond
    exact ⟨as ++ bs, has.trans hbs, hreads.bind hreads'⟩
  error front rest e c' h front' more hmore := by
    simp only [Bind.bind, EStateM.bind] at h ⊢
    cases hrun : m (between front rest) with
    | error e₁ c₁ =>
      rw [hrun] at h
      cases h
      obtain ⟨c'', hagain⟩ := hm.error _ _ _ _ hrun front' more hmore
      rw [hagain]
      exact ⟨_, rfl⟩
    | ok a c₁ =>
      rw [hrun] at h
      -- the first answers as before, and the second starts where the same lies ahead
      obtain ⟨as, rest', rfl, rfl, hreads⟩ := hm.ok_between hrun
      obtain ⟨c'', hagain⟩ := (hf a).error _ _ _ _ h (front' ++ as) more hmore
      rw [List.append_assoc, hreads]
      exact ⟨c'', hagain⟩

/-- A reader and what is made of its answer. -/
theorem map (hm : Streams short m) (f : β → γ) :
    Streams short (do return f (← m) : EStateM ε (Cursor α) γ) :=
  hm.bind fun a => nil (f a)

end Streams

end TetherMesh.CS.Cursor
