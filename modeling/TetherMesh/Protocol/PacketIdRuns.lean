import TetherMesh.CS.LabelledRun
import TetherMesh.Protocol.PacketId

/-!
# Packet identifiers across reboots

A node keeps one durable word, the high-water mark, and drives a
`PacketIdSource` in memory. It can lose power between any two operations, also
between writing the mark and confirming it. This file gives that node as a
transition system and shows that no run of it ever issues an identifier twice.

## Main definitions

* `IdNode` — the durable word, the source in memory and the mark asked for
* `IdNode.Step` — boot, issue, write, confirm, crash, in any order
* `IdNode.Inv` — what ties the counter, the reservation and the durable mark

## Main results

* `IdNode.Inv.step` — the invariant survives every step
* `IdNode.run_ids_never_repeat` — identifiers strictly increase over all boots,
  lie below the stored mark when returned, a crash skips at most one block, and
  nothing is issued after exhaustion
-/

namespace TetherMesh.Protocol

open CS

/-- One thing that happens on the node, with the values visible at that moment. -/
inductive IdEvent
  /-- `resume(stored, block)` on power-up. -/
  | booted (block : UInt32)
  /-- `issue` returned `Ready(id)` while `stored` was the durable mark. -/
  | issued (id stored : UInt32)
  /-- `issue` returned `PersistFirst`. -/
  | asked (highWater : UInt32)
  /-- `issue` returned `Exhausted`. -/
  | exhausted
  /-- The mark last asked for was written to the store. -/
  | wrote (highWater : UInt32)
  /-- `persisted(highWater)` was called, possibly stale or replayed. -/
  | confirmed (highWater : UInt32)
  /-- Power was lost with the counter at `next` and the mark at `stored`. -/
  | crashed (next stored block : UInt32)
  deriving DecidableEq, Repr

/-- A node: the durable word, and what it holds in memory while powered. -/
structure IdNode where
  stored : UInt32
  source : Option PacketIdSource
  asked : Option UInt32
  deriving DecidableEq, Repr

/-- The identifiers returned as `Ready`, in order. -/
def issuedIds (events : List IdEvent) : List UInt32 :=
  events.filterMap fun
    | .issued id _ => some id
    | _ => none

@[simp] theorem issuedIds_append (xs ys : List IdEvent) :
    issuedIds (xs ++ ys) = issuedIds xs ++ issuedIds ys := List.filterMap_append

/-- An event that returns no identifier leaves the list of them as it was. -/
theorem issuedIds_snoc {events : List IdEvent} {e : IdEvent} (h : issuedIds [e] = []) :
    issuedIds (events ++ [e]) = issuedIds events := by
  rw [issuedIds_append, h, List.append_nil]

namespace IdNode

/-- A node that has never run, its store holding the seed. -/
def fresh (seed : UInt32) : IdNode := ⟨seed, none, none⟩

/-- The steps of a node. Confirmations range over every value up to the stored
mark, and power can fail whenever it is on. -/
inductive Step : IdNode → IdEvent → IdNode → Prop
  | boot {n : IdNode} (block : UInt32) : n.source = none →
      Step n (.booted block) ⟨n.stored, some (.resume n.stored block), none⟩
  | ready {n : IdNode} {src src' : PacketIdSource} {id : UInt32} : n.source = some src →
      src.issue = (.ready id, src') →
      Step n (.issued id n.stored) { n with source := some src' }
  | ask {n : IdNode} {src src' : PacketIdSource} {highWater : UInt32} : n.source = some src →
      src.issue = (.persistFirst highWater, src') →
      Step n (.asked highWater) { n with source := some src', asked := some highWater }
  | exhaust {n : IdNode} {src src' : PacketIdSource} : n.source = some src →
      src.issue = (.exhausted, src') →
      Step n .exhausted { n with source := some src' }
  | write {n : IdNode} {highWater : UInt32} : n.asked = some highWater →
      Step n (.wrote highWater) { n with stored := highWater }
  | confirm {n : IdNode} {src : PacketIdSource} {highWater : UInt32} : n.source = some src →
      highWater ≤ n.stored →
      Step n (.confirmed highWater) { n with source := some (src.persisted highWater) }
  | crash {n : IdNode} {src : PacketIdSource} : n.source = some src →
      Step n (.crashed src.next n.stored src.block) ⟨n.stored, none, none⟩

/-- The next identifier this node could ever issue. -/
def frontier (n : IdNode) : ℕ :=
  match n.source with
  | some src => src.next.toNat
  | none => n.stored.toNat

/-- A powered source is reserved no further than the store, and the store is at
most one block ahead of the counter. -/
structure SourceInv (stored : UInt32) (src : PacketIdSource) : Prop where
  next_le : src.next.toNat ≤ src.blockEnd.toNat
  blockEnd_le : src.blockEnd.toNat ≤ stored.toNat
  stored_le : stored.toNat ≤ src.next.toNat + src.block.toNat
  block_pos : 0 < src.block.toNat

/-- What holds of the node after `events`. -/
structure Inv (events : List IdEvent) (n : IdNode) : Prop where
  source : ∀ src, n.source = some src → SourceInv n.stored src
  asked : ∀ highWater, n.asked = some highWater → ∃ src, n.source = some src ∧
    n.stored.toNat ≤ highWater.toNat ∧ highWater.toNat ≤ src.next.toNat + src.block.toNat
  below : ∀ id ∈ issuedIds events, id.toNat < n.frontier
  sorted : (issuedIds events).Pairwise (· < ·)
  marked : ∀ id stored, .issued id stored ∈ events → id < stored
  skipped : ∀ next stored block, .crashed next stored block ∈ events →
    next ≤ stored ∧ stored.toNat - next.toNat ≤ block.toNat
  spent : .exhausted ∈ events → n.frontier = 2 ^ 32 - 1
  silent : ∀ pre post, events = pre ++ .exhausted :: post → issuedIds post = []

variable {n n' : IdNode} {e : IdEvent} {events : List IdEvent} {seed : UInt32}

theorem inv_fresh (seed : UInt32) : Inv [] (fresh seed) where
  source := nofun
  asked := nofun
  below := nofun
  sorted := .nil
  marked := nofun
  skipped := nofun
  spent := nofun
  silent pre post h := by simp at h

/-- Nothing is issued after exhaustion, if the last event issues nothing then either. -/
theorem Inv.silent_snoc (inv : Inv events n) (he : .exhausted ∈ events → issuedIds [e] = [])
    {pre post : List IdEvent} (h : events ++ [e] = pre ++ .exhausted :: post) :
    issuedIds post = [] := by
  rcases List.eq_nil_or_concat post with rfl | ⟨post, last, rfl⟩
  · rfl
  · rw [List.concat_eq_append] at h ⊢
    rw [← List.cons_append, ← List.append_assoc] at h
    obtain ⟨rfl, hlast⟩ := List.append_inj' h rfl
    obtain rfl := List.singleton_inj.mp hlast
    rw [issuedIds_append, inv.silent pre post rfl, he (by simp), List.append_nil]

/-- An event that issues nothing and is neither a crash nor exhaustion only has to
keep the frontier and the facts about the source. -/
theorem Inv.quiet (inv : Inv events n) (hissue : issuedIds [e] = [])
    (hcrash : ∀ next stored block, e ≠ .crashed next stored block) (hspent : e ≠ .exhausted)
    (hfrontier : n'.frontier = n.frontier)
    (source : ∀ src, n'.source = some src → SourceInv n'.stored src)
    (asked : ∀ highWater, n'.asked = some highWater → ∃ src, n'.source = some src ∧
      n'.stored.toNat ≤ highWater.toNat ∧ highWater.toNat ≤ src.next.toNat + src.block.toNat) :
    Inv (events ++ [e]) n' where
  source := source
  asked := asked
  below id hid := by
    rw [issuedIds_snoc hissue] at hid
    exact hfrontier ▸ inv.below id hid
  sorted := by
    rw [issuedIds_snoc hissue]
    exact inv.sorted
  marked id stored hmem := by
    rcases List.mem_append.mp hmem with hmem | hmem
    · exact inv.marked id stored hmem
    · obtain rfl := List.mem_singleton.mp hmem
      exact absurd hissue (List.cons_ne_nil _ _)
  skipped next stored block hmem := by
    rcases List.mem_append.mp hmem with hmem | hmem
    · exact inv.skipped next stored block hmem
    · exact absurd (List.mem_singleton.mp hmem).symm (hcrash _ _ _)
  spent hmem := by
    rcases List.mem_append.mp hmem with hmem | hmem
    · exact hfrontier ▸ inv.spent hmem
    · exact absurd (List.mem_singleton.mp hmem).symm hspent
  silent _ _ h := inv.silent_snoc (fun _ => hissue) h

/-- A freshly resumed source starts at the mark. -/
theorem sourceInv_resume (stored block : UInt32) :
    SourceInv stored (.resume stored block) where
  next_le := le_rfl
  blockEnd_le := le_rfl
  stored_le := Nat.le_add_right _ _
  block_pos := PacketIdSource.resume_block_pos

/-- Confirming a value no higher than the mark keeps the reservation below it. -/
theorem SourceInv.persisted {stored highWater : UInt32} {src : PacketIdSource}
    (inv : SourceInv stored src) (hle : highWater ≤ stored) :
    SourceInv stored (src.persisted highWater) where
  next_le := by
    have := inv.next_le
    rw [PacketIdSource.persisted_next, PacketIdSource.persisted_blockEnd]
    omega
  blockEnd_le := by
    rw [PacketIdSource.persisted_blockEnd]
    exact max_le inv.blockEnd_le hle
  stored_le := by
    rw [PacketIdSource.persisted_next, PacketIdSource.persisted_block]
    exact inv.stored_le
  block_pos := by
    rw [PacketIdSource.persisted_block]
    exact inv.block_pos

/-- The identifier returned is below the mark, and above everything returned before. -/
theorem Inv.ready {src src' : PacketIdSource} {id : UInt32} (inv : Inv events n)
    (hsrc : n.source = some src) (hissue : src.issue = (.ready id, src')) :
    Inv (events ++ [.issued id n.stored]) { n with source := some src' } := by
  have hinv := inv.source src hsrc
  have hend := hinv.blockEnd_le
  have hstored := hinv.stored_le
  have hfrontier : n.frontier = src.next.toNat := by rw [frontier, hsrc]
  obtain ⟨rfl, hlt, hnext, hEnd, hblock⟩ := PacketIdSource.issue_ready hissue
  have hnew : issuedIds (events ++ [.issued src.next n.stored]) =
      issuedIds events ++ [src.next] := issuedIds_append _ _
  have hmark : src.next < n.stored := UInt32.lt_iff_toNat_lt.mpr (by omega)
  -- exhaustion leaves the counter where no mark is above it
  have hfresh : .exhausted ∉ events := fun hmem => by
    have hspent := inv.spent hmem
    have := src.blockEnd.toNat_lt
    omega
  constructor
  case source =>
    rintro src' ⟨⟩
    refine ⟨?_, hEnd.symm ▸ hend, ?_, hblock.symm ▸ hinv.block_pos⟩
    · rw [hEnd]
      omega
    · rw [hnext, hblock]
      dsimp only
      omega
  case asked =>
    intro highWater hasked
    obtain ⟨src₀, hsrc₀, hlow, hhigh⟩ := inv.asked highWater hasked
    obtain rfl := Option.some.inj (hsrc.symm.trans hsrc₀)
    exact ⟨src', rfl, hlow, by rw [hblock]; omega⟩
  case below =>
    intro id hid
    rw [hnew] at hid
    change id.toNat < src'.next.toNat
    rcases List.mem_append.mp hid with hid | hid
    · have := inv.below id hid
      omega
    · obtain rfl := List.mem_singleton.mp hid
      omega
  case sorted =>
    rw [hnew, List.pairwise_append]
    -- everything returned before lies below the counter
    refine ⟨inv.sorted, List.pairwise_singleton _ _, fun id hid last hlast => ?_⟩
    obtain rfl := List.mem_singleton.mp hlast
    exact UInt32.lt_iff_toNat_lt.mpr (hfrontier ▸ inv.below id hid)
  case marked =>
    intro id stored hmem
    rcases List.mem_append.mp hmem with hmem | hmem
    · exact inv.marked id stored hmem
    · obtain ⟨rfl, rfl⟩ := IdEvent.issued.inj (List.mem_singleton.mp hmem)
      exact hmark
  case skipped =>
    intro next stored block hmem
    rcases List.mem_append.mp hmem with hmem | hmem
    · exact inv.skipped next stored block hmem
    · exact IdEvent.noConfusion (List.mem_singleton.mp hmem)
  case spent =>
    intro hmem
    rcases List.mem_append.mp hmem with hmem | hmem
    · exact absurd hmem hfresh
    · exact IdEvent.noConfusion (List.mem_singleton.mp hmem)
  case silent =>
    exact fun _ _ h => inv.silent_snoc (fun hmem => absurd hmem hfresh) h

/-- Exhaustion happens only with the counter, and so the mark, at the end of the space. -/
theorem Inv.exhaust {src src' : PacketIdSource} (inv : Inv events n)
    (hsrc : n.source = some src) (hissue : src.issue = (.exhausted, src')) :
    Inv (events ++ [.exhausted]) { n with source := some src' } := by
  rcases PacketIdSource.issue_cases hissue with ⟨hr, -⟩ | ⟨_, hr, -⟩ | ⟨-, rfl, -, hlast⟩
  · exact NextId.noConfusion hr
  · exact NextId.noConfusion hr
  · -- the node is as it was, and only the account of it grows
    have hsame : n = { n with source := some src' } := by rw [← hsrc]
    rw [← hsame]
    refine ⟨inv.source, inv.asked, ?_, ?_, ?_, ?_, fun _ => ?_, fun _ _ h => ?_⟩
    · rw [issuedIds_snoc rfl]
      exact inv.below
    · rw [issuedIds_snoc rfl]
      exact inv.sorted
    · simpa using inv.marked
    · simpa using inv.skipped
    · rw [frontier, hsrc]
      exact hlast
    · exact inv.silent_snoc (fun _ => rfl) h

/-- Losing power skips what the mark was ahead of the counter, at most one block. -/
theorem Inv.crash {src : PacketIdSource} (inv : Inv events n) (hsrc : n.source = some src) :
    Inv (events ++ [.crashed src.next n.stored src.block]) ⟨n.stored, none, none⟩ := by
  have hinv := inv.source src hsrc
  have hle : src.next.toNat ≤ n.stored.toNat := hinv.next_le.trans hinv.blockEnd_le
  have hfrontier : n.frontier = src.next.toNat := by rw [frontier, hsrc]
  constructor
  case source => exact nofun
  case asked => exact nofun
  case below =>
    intro id hid
    rw [issuedIds_snoc rfl] at hid
    exact (hfrontier ▸ inv.below id hid).trans_le hle
  case sorted =>
    rw [issuedIds_snoc rfl]
    exact inv.sorted
  case marked => simpa using inv.marked
  case skipped =>
    intro next stored block hmem
    rcases List.mem_append.mp hmem with hmem | hmem
    · exact inv.skipped next stored block hmem
    · obtain ⟨rfl, rfl, rfl⟩ := IdEvent.crashed.inj (List.mem_singleton.mp hmem)
      have := hinv.stored_le
      exact ⟨UInt32.le_iff_toNat_le.mpr hle, by omega⟩
  case spent =>
    intro hmem
    -- the mark is no lower than the counter was, and cannot be higher
    have hspent := inv.spent (by simpa using hmem)
    have := n.stored.toNat_lt
    change n.stored.toNat = 2 ^ 32 - 1
    omega
  case silent => exact fun _ _ h => inv.silent_snoc (fun _ => rfl) h

/-- Powering up resumes at the mark, which is where the counter could have got to. -/
theorem Inv.boot (inv : Inv events n) (block : UInt32) (hoff : n.source = none) :
    Inv (events ++ [.booted block]) ⟨n.stored, some (.resume n.stored block), none⟩ := by
  apply inv.quiet rfl (by simp) (by simp)
  case hfrontier => simp only [frontier, hoff, PacketIdSource.resume_next]
  case source =>
    intro src hsrc
    obtain rfl := Option.some.inj hsrc
    exact sourceInv_resume _ _
  case asked => simp

/-- A mark is asked for only when the source is unchanged, and at most one block ahead. -/
theorem Inv.ask {src src' : PacketIdSource} {highWater : UInt32} (inv : Inv events n)
    (hsrc : n.source = some src) (hissue : src.issue = (.persistFirst highWater, src')) :
    Inv (events ++ [.asked highWater]) { n with source := some src', asked := some highWater } := by
  rcases PacketIdSource.issue_cases hissue with ⟨hr, -⟩ | ⟨_, hr, rfl, hend, hreq⟩ | ⟨hr, -⟩
  · exact NextId.noConfusion hr
  · obtain rfl := NextId.persistFirst.inj hr
    have hinv := inv.source src' hsrc
    have hstored := hinv.stored_le
    have := n.stored.toNat_lt
    rw [PacketIdSource.IsRequest] at hreq
    apply inv.quiet rfl (by simp) (by simp)
    case hfrontier => simp only [frontier, hsrc]
    case source =>
      intro src hsrc'
      obtain rfl := Option.some.inj hsrc'
      exact hinv
    case asked =>
      intro mark hmark
      obtain rfl := Option.some.inj hmark
      exact ⟨src', rfl, by dsimp only; omega, by omega⟩
  · exact NextId.noConfusion hr

/-- The mark written is the one asked for, so it lies between the old mark and one
block above the counter. -/
theorem Inv.write {highWater : UInt32} (inv : Inv events n) (hasked : n.asked = some highWater) :
    Inv (events ++ [.wrote highWater]) { n with stored := highWater } := by
  obtain ⟨src, hsrc, hlow, hhigh⟩ := inv.asked _ hasked
  have hinv := inv.source src hsrc
  apply inv.quiet rfl (by simp) (by simp)
  case hfrontier => simp only [frontier, hsrc]
  case source =>
    intro src₀ hsrc₀
    obtain rfl := Option.some.inj (hsrc.symm.trans hsrc₀)
    exact ⟨hinv.next_le, hinv.blockEnd_le.trans hlow, hhigh, hinv.block_pos⟩
  case asked =>
    intro _ hasked'
    obtain rfl := Option.some.inj (hasked.symm.trans hasked')
    exact ⟨src, hsrc, le_rfl, hhigh⟩

/-- A confirmation moves the reservation only, also when it is stale or replayed. -/
theorem Inv.confirm {src : PacketIdSource} {highWater : UInt32} (inv : Inv events n)
    (hsrc : n.source = some src) (hle : highWater ≤ n.stored) :
    Inv (events ++ [.confirmed highWater]) { n with source := some (src.persisted highWater) } := by
  apply inv.quiet rfl (by simp) (by simp)
  case hfrontier => simp only [frontier, hsrc, PacketIdSource.persisted_next]
  case source =>
    intro src' hsrc'
    obtain rfl := Option.some.inj hsrc'
    exact (inv.source src hsrc).persisted hle
  case asked =>
    intro _ hasked
    obtain ⟨src₀, hsrc₀, hlow, hhigh⟩ := inv.asked _ hasked
    obtain rfl := Option.some.inj (hsrc.symm.trans hsrc₀)
    refine ⟨_, rfl, hlow, ?_⟩
    rwa [PacketIdSource.persisted_next, PacketIdSource.persisted_block]

/-- **Step lemma.** Every step of the node keeps the invariant. -/
theorem Inv.step (inv : Inv events n) (h : Step n e n') : Inv (events ++ [e]) n' := by
  cases h with
  | boot block hoff => exact inv.boot block hoff
  | ready hsrc hissue => exact inv.ready hsrc hissue
  | ask hsrc hissue => exact inv.ask hsrc hissue
  | exhaust hsrc hissue => exact inv.exhaust hsrc hissue
  | write hasked => exact inv.write hasked
  | confirm hsrc hle => exact inv.confirm hsrc hle
  | crash hsrc => exact inv.crash hsrc

/-- The invariant holds after every run of a node, whatever seed its store held. -/
theorem inv_of_run (run : Run Step (fresh seed) events n) : Inv events n :=
  run.invariant (inv_fresh seed) fun _ inv hstep => inv.step hstep

/-- **Packet identifiers never repeat across reboots.** In every run, over all its
boots, the identifiers returned strictly increase and so are distinct; each was
below the durable mark at the moment it was returned; a crash at `next` under the
mark `stored` skips the identifiers in between, at most one block of them; and
once the source has reported exhaustion nothing is ever issued again. -/
theorem run_ids_never_repeat (run : Run Step (fresh seed) events n) :
    (issuedIds events).Pairwise (· < ·) ∧ (issuedIds events).Nodup ∧
      (∀ id stored, .issued id stored ∈ events → id < stored) ∧
      (∀ next stored block, .crashed next stored block ∈ events →
        next ≤ stored ∧ stored.toNat - next.toNat ≤ block.toNat) ∧
      (∀ pre post, events = pre ++ .exhausted :: post → issuedIds post = []) :=
  have inv := inv_of_run run
  ⟨inv.sorted, inv.sorted.imp UInt32.ne_of_lt, inv.marked, inv.skipped, inv.silent⟩

/-- The result at a run that loses power between the write of a mark and its
confirmation: the reboot resumes at the mark, skipping two identifiers. -/
theorem run_ids_never_repeat_crash :
    issuedIds [.booted 2, .asked 7, .wrote 7, .confirmed 7, .issued 5 7, .issued 6 7, .asked 9,
        .wrote 9, .crashed 7 9 2, .booted 0, .asked 265, .wrote 265, .confirmed 265,
        .issued 9 265] = [5, 6, 9] ∧
      [(5 : UInt32), 6, 9].Pairwise (· < ·) := by
  have first : Run Step (fresh 5) [.booted 2, .asked 7, .wrote 7, .confirmed 7, .issued 5 7,
      .issued 6 7, .asked 9, .wrote 9, .crashed 7 9 2] ⟨9, none, none⟩ :=
    .cons (.boot 2 rfl) <| .cons (.ask rfl rfl) <| .cons (.write rfl) <|
      .cons (.confirm rfl (by decide)) <| .cons (.ready rfl rfl) <| .cons (.ready rfl rfl) <|
      .cons (.ask rfl rfl) <| .cons (.write rfl) <|
      .cons (@Step.crash ⟨9, some ⟨7, 7, 2⟩, some 9⟩ ⟨7, 7, 2⟩ rfl) .nil
  have second : Run Step ⟨9, none, none⟩ [.booted 0, .asked 265, .wrote 265, .confirmed 265,
      .issued 9 265] ⟨265, some ⟨10, 265, 256⟩, some 265⟩ :=
    .cons (.boot 0 rfl) <| .cons (.ask rfl rfl) <| .cons (.write rfl) <|
      .cons (.confirm rfl (by decide)) <| .cons (.ready rfl rfl) .nil
  exact ⟨rfl, (run_ids_never_repeat (first.append second)).1⟩

end IdNode

end TetherMesh.Protocol
