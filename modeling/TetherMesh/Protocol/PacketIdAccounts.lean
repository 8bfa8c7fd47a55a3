import TetherMesh.Protocol.PacketIdRuns

/-!
# Where the identifiers go

A node issues identifiers one after another, and skips some of them each time it loses power. This
file shows that there is nothing else they are spent on: in every run the identifiers from the seed
up to the next one have each been issued once or skipped by one crash, in order. So the space lasts
for what the seed and the crashes leave of it. The store is spared: as long as nothing is confirmed
that was not stored, it takes one mark for a block of identifiers.

## Main definitions

* `IdEvent.spends` — the identifiers that an event takes out of the space
* `skippedIds`, `crashedBlocks` — what crashes skipped, and the blocks they could skip
* `IdNode.storedMarks` — the marks that have been in the store

## Main results

* `IdNode.Accounted.step` — an event takes the next identifiers
* `IdNode.run_accounts`
* `IdNode.Marked.step` — a mark that is stored is confirmed before the next one is asked for
* `IdNode.Frugal.step` — and paid for with identifiers
* `IdNode.run_stores_a_mark_a_block`
-/

namespace TetherMesh.Protocol

open CS

/-- The identifiers that are not left after an event. -/
def IdEvent.spends : IdEvent → List ℕ
  | issued id _ => [id.toNat]
  | crashed next stored _ => List.range' next.toNat (stored.toNat - next.toNat)
  | _ => []

/-- How many identifiers were skipped by crashes. -/
def skippedIds (events : List IdEvent) : ℕ :=
  (events.map fun
    | .crashed next stored _ => stored.toNat - next.toNat
    | _ => 0).sum

/-- The blocks of the sources that were lost in crashes. -/
def crashedBlocks (events : List IdEvent) : List ℕ :=
  events.filterMap fun
    | .crashed _ _ block => some block.toNat
    | _ => none

/-- What is spent has been issued or skipped. -/
theorem length_spends (events : List IdEvent) :
    (events.flatMap IdEvent.spends).length = (issuedIds events).length + skippedIds events := by
  induction events with
  | nil => rfl
  | cons e events ih =>
    rw [List.flatMap_cons, List.length_append, ih]
    cases e <;> simp [IdEvent.spends, issuedIds, skippedIds] <;> omega

namespace IdNode

variable {n n' : IdNode} {e : IdEvent} {events : List IdEvent} {seed : UInt32}

/-- The identifiers from the seed up to the next one are spent, each of them once. -/
structure Accounted (seed : UInt32) (events : List IdEvent) (n : IdNode) : Prop where
  seed_le : seed.toNat ≤ n.frontier
  spends_eq : events.flatMap IdEvent.spends =
    List.range' seed.toNat (n.frontier - seed.toNat)

theorem accounted_fresh (seed : UInt32) : Accounted seed [] (fresh seed) where
  seed_le := le_rfl
  spends_eq := by simp [frontier, fresh]

/-- An event that spends the next identifiers, as many as the node moves on by. -/
theorem Accounted.spend (h : Accounted seed events n) (hle : n.frontier ≤ n'.frontier)
    (hspends : e.spends = List.range' n.frontier (n'.frontier - n.frontier)) :
    Accounted seed (events ++ [e]) n' where
  seed_le := h.seed_le.trans hle
  spends_eq := by
    obtain ⟨k, hk⟩ := Nat.exists_eq_add_of_le h.seed_le
    obtain ⟨l, hl⟩ := Nat.exists_eq_add_of_le hle
    have hbefore : n.frontier - seed.toNat = k := by omega
    have hnew : n'.frontier - n.frontier = l := by omega
    have hafter : n'.frontier - seed.toNat = k + l := by omega
    rw [List.flatMap_append, List.flatMap_singleton, h.spends_eq, hspends, hbefore, hnew, hafter,
      hk]
    exact List.range'_append_1

/-- An event that spends nothing, of a node that stays where it is. -/
theorem Accounted.quiet (h : Accounted seed events n) (hspends : e.spends = [])
    (hfrontier : n'.frontier = n.frontier) : Accounted seed (events ++ [e]) n' := by
  apply h.spend hfrontier.ge
  rw [hspends, hfrontier, Nat.sub_self]
  rfl

/-- **Step lemma.** An identifier that is issued is the next one, and what a crash skips begins with
the next one. -/
theorem Accounted.step (h : Accounted seed events n) (inv : Inv events n) (hstep : Step n e n') :
    Accounted seed (events ++ [e]) n' := by
  cases hstep with
  | boot block hoff =>
    apply h.quiet rfl
    simp only [frontier, hoff, PacketIdSource.resume_next]
  | @ready src src' _ hsrc hissue =>
    obtain ⟨rfl, -, hnext, -⟩ := PacketIdSource.issue_ready hissue
    have hbefore : n.frontier = src.next.toNat := by rw [frontier, hsrc]
    have hafter : frontier { n with source := some src' } = src.next.toNat + 1 := hnext
    apply h.spend (by omega)
    rw [hbefore, hafter, Nat.add_sub_cancel_left]
    rfl
  | ask hsrc hissue =>
    obtain ⟨rfl, -⟩ := PacketIdSource.issue_persistFirst hissue
    exact h.quiet rfl (by simp only [frontier, hsrc])
  | exhaust hsrc hissue =>
    obtain ⟨rfl, -⟩ := PacketIdSource.issue_exhausted hissue
    exact h.quiet rfl (by simp only [frontier, hsrc])
  | write hasked =>
    obtain ⟨src, hsrc, -⟩ := inv.asked _ hasked
    exact h.quiet rfl (by simp only [frontier, hsrc])
  | confirm hsrc =>
    apply h.quiet rfl
    simp only [frontier, hsrc, PacketIdSource.persisted_next]
  | @crash src hsrc =>
    have hinv := inv.source src hsrc
    have hbefore : n.frontier = src.next.toNat := by rw [frontier, hsrc]
    have hafter : frontier ⟨n.stored, none, none⟩ = n.stored.toNat := rfl
    apply h.spend
    · rw [hbefore, hafter]
      exact hinv.next_le.trans hinv.blockEnd_le
    · rw [hbefore, hafter]
      rfl

theorem accounted_of_run (run : Run Step (fresh seed) events n) : Accounted seed events n :=
  run.invariant (accounted_fresh seed) fun hrun h hstep => h.step (inv_of_run hrun) hstep

/-- A powered source reports exhaustion at the end of the space and nowhere else. -/
theorem SourceInv.exhausted_iff {stored : UInt32} {src : PacketIdSource}
    (inv : SourceInv stored src) : src.issue.1 = .exhausted ↔ src.next.toNat = 2 ^ 32 - 1 := by
  constructor
  · intro h
    exact (PacketIdSource.issue_exhausted (Prod.ext h rfl : src.issue = (_, src.issue.2))).2
  · intro hlast
    have hend := src.blockEnd.toNat_lt
    have hpos := inv.block_pos
    -- nothing is reserved past the end, and no mark fits behind it
    have hreserved : ¬ src.next < src.blockEnd := by
      rw [UInt32.lt_iff_toNat_lt]
      omega
    have hfull : src.next.checkedAdd src.block = none := by
      rw [UInt32.checkedAdd_eq_none_iff]
      omega
    have hmax : ¬ src.next < UInt32.maxValue := by
      rw [UInt32.lt_iff_toNat_lt, UInt32.toNat_maxValue]
      omega
    rw [PacketIdSource.issue, if_neg hreserved, hfull]
    dsimp only
    rw [if_neg hmax]

/-- What crashes skip fits the blocks that were lost in them. -/
theorem skippedIds_le (h : ∀ next stored block, .crashed next stored block ∈ events →
    stored.toNat - next.toNat ≤ block.toNat) :
    skippedIds events ≤ (crashedBlocks events).sum := by
  induction events with
  | nil => exact le_rfl
  | cons e events ih =>
    have ih := ih fun next stored block hmem => h next stored block (List.mem_cons_of_mem e hmem)
    cases e with
    | crashed next stored block =>
      have hfits := h next stored block List.mem_cons_self
      simp only [skippedIds, crashedBlocks, List.map_cons, List.sum_cons, List.filterMap_cons] at *
      omega
    | _ => simpa [skippedIds, crashedBlocks] using ih

/-- **Every identifier is accounted for.** In every run, over all its boots, the identifiers that
were issued and those that crashes skipped are, in order, the numbers from the seed on, without a
gap; crashes skip no more than the blocks of the sources that were lost; and a powered source
reports exhaustion exactly when the seed, what was issued and what was skipped add up to
`u32::MAX`. -/
theorem run_accounts (run : Run Step (fresh seed) events n) :
    events.flatMap IdEvent.spends =
        List.range' seed.toNat ((issuedIds events).length + skippedIds events) ∧
      skippedIds events ≤ (crashedBlocks events).sum ∧
      ∀ src, n.source = some src →
        src.peek.toNat = seed.toNat + (issuedIds events).length + skippedIds events ∧
        (src.issue.1 = .exhausted ↔
          seed.toNat + (issuedIds events).length + skippedIds events = 2 ^ 32 - 1) := by
  have hinv := inv_of_run run
  have haccounted := accounted_of_run run
  have hspent : n.frontier - seed.toNat = (issuedIds events).length + skippedIds events := by
    rw [← length_spends, haccounted.spends_eq, List.length_range']
  have hseed := haccounted.seed_le
  refine ⟨hspent ▸ haccounted.spends_eq, skippedIds_le fun _ _ _ hmem =>
    (hinv.skipped _ _ _ hmem).2, fun src hsrc => ?_⟩
  have hnext : n.frontier = src.next.toNat := by rw [frontier, hsrc]
  have hpeek : src.peek.toNat = seed.toNat + (issuedIds events).length + skippedIds events := by
    rw [PacketIdSource.peek]
    omega
  refine ⟨hpeek, ?_⟩
  rw [(hinv.source src hsrc).exhausted_iff, ← hpeek]
  rfl

/-- A crash between two blocks: 5 is issued, 6 is skipped and 7 is issued. -/
theorem run_accounts_crash :
    ([.booted 2, .asked 7, .wrote 7, .confirmed 7, .issued 5 7, .crashed 6 7 2, .booted 1, .asked 8,
        .wrote 8, .confirmed 8, .issued 7 8] : List IdEvent).flatMap IdEvent.spends =
      [5, 6, 7] := by
  have first : Run Step (fresh 5)
      [.booted 2, .asked 7, .wrote 7, .confirmed 7, .issued 5 7, .crashed 6 7 2]
      ⟨7, none, none⟩ :=
    .cons (.boot 2 rfl) <| .cons (.ask rfl rfl) <| .cons (.write rfl) <|
      .cons (.confirm rfl (by decide)) <| .cons (.ready rfl rfl) <|
      .cons (@Step.crash ⟨7, some ⟨6, 7, 2⟩, some 7⟩ ⟨6, 7, 2⟩ rfl) .nil
  have second : Run Step ⟨7, none, none⟩
      [.booted 1, .asked 8, .wrote 8, .confirmed 8, .issued 7 8]
      ⟨8, some ⟨8, 8, 1⟩, some 8⟩ :=
    .cons (.boot 1 rfl) <| .cons (.ask rfl rfl) <| .cons (.write rfl) <|
      .cons (.confirm rfl (by decide)) <| .cons (.ready rfl rfl) .nil
  exact (run_accounts (first.append second)).1

/-! ## A mark a block -/

/-- The marks that have been in the store, the seed among them. -/
def storedMarks (seed : UInt32) (events : List IdEvent) : List UInt32 :=
  seed :: events.filterMap fun
    | .wrote highWater => some highWater
    | _ => none

theorem storedMarks_snoc (seed : UInt32) (events : List IdEvent) (e : IdEvent) :
    storedMarks seed (events ++ [e]) = storedMarks seed events ++ (storedMarks seed [e]).tail := by
  simp [storedMarks, List.filterMap_append]

/-- An event that is not a write leaves the marks as they were. -/
theorem storedMarks_quiet (h : (storedMarks seed [e]).tail = []) :
    storedMarks seed (events ++ [e]) = storedMarks seed events := by
  rw [storedMarks_snoc, h, List.append_nil]

/-- A source under the marks that have been stored. The last one is either confirmed, or what the
source asks for where it stands; the others are confirmed. -/
structure MarkedSource (marks : List UInt32) (b : ℕ) (stored : UInt32) (asked : Option UInt32)
    (src : PacketIdSource) : Prop where
  block_eq : src.block.toNat = b
  reserved : src.blockEnd = stored ∨
    src.next.toNat = src.blockEnd.toNat ∧ src.IsRequest stored
  covered : ∀ mark ∈ marks, mark = stored ∨ mark.toNat ≤ src.blockEnd.toNat
  asked : ∀ highWater, asked = some highWater → highWater = stored ∨
    src.next.toNat = stored.toNat ∧ src.IsRequest highWater

/-- What holds after `events` of a node whose confirmations name marks that have been stored. -/
structure Marked (seed : UInt32) (b : ℕ) (events : List IdEvent) (n : IdNode) : Prop where
  stored_mem : n.stored ∈ storedMarks seed events
  le_stored : ∀ mark ∈ storedMarks seed events, mark.toNat ≤ n.stored.toNat
  source : ∀ src, n.source = some src →
    MarkedSource (storedMarks seed events) b n.stored n.asked src

theorem marked_fresh (seed : UInt32) (b : ℕ) : Marked seed b [] (fresh seed) where
  stored_mem := List.mem_singleton_self _
  le_stored := by simp [storedMarks, fresh]
  source := nofun

variable {b : ℕ} {marks : List UInt32} {stored highWater id : UInt32} {asked : Option UInt32}
  {src src' : PacketIdSource}

/-- An event that leaves the store. -/
theorem Marked.quiet (h : Marked seed b events n) (he : (storedMarks seed [e]).tail = [])
    (hstored : n'.stored = n.stored)
    (source : ∀ src, n'.source = some src →
      MarkedSource (storedMarks seed events) b n.stored n'.asked src) :
    Marked seed b (events ++ [e]) n' := by
  constructor <;> rw [storedMarks_quiet he, hstored]
  · exact h.stored_mem
  · exact h.le_stored
  · exact source

/-- A source that issues is confirmed, and stays so. -/
theorem MarkedSource.ready (h : MarkedSource marks b stored asked src)
    (hissue : src.issue = (.ready id, src')) : MarkedSource marks b stored asked src' := by
  obtain ⟨-, hlt, hnext, hEnd, hblock⟩ := PacketIdSource.issue_ready hissue
  have hreserved : src.blockEnd = stored := by
    rcases h.reserved with hend | ⟨hstands, -⟩
    · exact hend
    · omega
  refine ⟨hblock ▸ h.block_eq, .inl (hEnd.trans hreserved), hEnd ▸ h.covered, fun mark hasked => ?_⟩
  rcases h.asked mark hasked with hsame | ⟨hstands, -⟩
  · exact .inl hsame
  · rw [hreserved] at hlt
    omega

/-- A source asks again for the mark that is stored and not confirmed, or for the next one. -/
theorem MarkedSource.ask (h : MarkedSource marks b stored asked src)
    (hle : src.next.toNat ≤ src.blockEnd.toNat) (hend : src.blockEnd.toNat ≤ src.next.toNat)
    (hreq : src.IsRequest highWater) : MarkedSource marks b stored (some highWater) src := by
  refine ⟨h.block_eq, h.reserved, h.covered, ?_⟩
  rintro _ ⟨⟩
  rcases h.reserved with hreserved | ⟨-, hreq'⟩
  · rw [hreserved] at hle hend
    exact .inr ⟨le_antisymm hle hend, hreq⟩
  · exact .inl (UInt32.toNat_inj.mp (hreq.trans hreq'.symm))

/-- A mark that was stored is the last one, or does not matter any more. -/
theorem MarkedSource.confirm (h : MarkedSource marks b stored asked src)
    (hle : src.blockEnd.toNat ≤ stored.toNat) (hmark : highWater ∈ marks) :
    MarkedSource marks b stored asked (src.persisted highWater) := by
  rcases h.covered highWater hmark with rfl | hcovered
  · have hend : (src.persisted highWater).blockEnd = highWater := by
      apply UInt32.toNat_inj.mp
      rw [PacketIdSource.persisted_blockEnd, max_eq_right hle]
    constructor
    case block_eq =>
      rw [PacketIdSource.persisted_block]
      exact h.block_eq
    case reserved => exact .inl hend
    case covered =>
      rw [hend]
      exact fun mark hmark => (h.covered mark hmark).imp_right fun hcovered => hcovered.trans hle
    case asked =>
      intro mark hasked
      have hcases := h.asked mark hasked
      rw [PacketIdSource.IsRequest] at hcases ⊢
      rwa [PacketIdSource.persisted_next, PacketIdSource.persisted_block]
  · have hsame : src.persisted highWater = src := by
      rw [PacketIdSource.persisted, if_neg]
      rwa [UInt32.lt_iff_toNat_lt, not_lt]
    rwa [hsame]

/-- A mark that was asked for is written. Either it is there already, or the one before it is
confirmed and used up. -/
theorem MarkedSource.write (h : MarkedSource marks b stored (some highWater) src)
    (inv : SourceInv stored src) (hmarks : ∀ mark ∈ marks, mark.toNat ≤ stored.toNat) :
    MarkedSource (marks ++ [highWater]) b highWater (some highWater) src := by
  have hnext := inv.next_le
  have hend := inv.blockEnd_le
  constructor
  case block_eq => exact h.block_eq
  case reserved =>
    rcases h.asked highWater rfl with rfl | ⟨hstands, hreq⟩
    · exact h.reserved
    · exact .inr ⟨by omega, hreq⟩
  case covered =>
    intro mark hmark
    rcases List.mem_append.mp hmark with hmark | hmark
    · rcases h.asked highWater rfl with rfl | ⟨hstands, -⟩
      · exact h.covered mark hmark
      · have := hmarks mark hmark
        exact .inr (by omega)
    · exact .inl (List.mem_singleton.mp hmark)
  case asked =>
    rintro _ ⟨⟩
    exact .inl rfl

/-- **Step lemma.** -/
theorem Marked.step (h : Marked seed b events n) (inv : Inv events n) (hstep : Step n e n')
    (hboot : ∀ block, e = .booted block → (PacketIdSource.resume 0 block).block.toNat = b)
    (hconfirm : ∀ highWater, e = .confirmed highWater → highWater ∈ storedMarks seed events) :
    Marked seed b (events ++ [e]) n' := by
  cases hstep with
  | boot block hoff =>
    refine h.quiet rfl rfl ?_
    rintro _ ⟨⟩
    exact ⟨hboot block rfl, .inl rfl, fun mark hmark => .inr (h.le_stored mark hmark), nofun⟩
  | ready hsrc hissue =>
    refine h.quiet rfl rfl ?_
    rintro _ ⟨⟩
    exact (h.source _ hsrc).ready hissue
  | ask hsrc hissue =>
    obtain ⟨rfl, hend, hreq⟩ := PacketIdSource.issue_persistFirst hissue
    refine h.quiet rfl rfl ?_
    rintro _ ⟨⟩
    exact (h.source _ hsrc).ask (inv.source _ hsrc).next_le hend hreq
  | exhaust hsrc hissue =>
    obtain ⟨rfl, -⟩ := PacketIdSource.issue_exhausted hissue
    refine h.quiet rfl rfl ?_
    rintro _ ⟨⟩
    exact h.source _ hsrc
  | @write highWater hasked =>
    obtain ⟨src, hsrc, hlow, -⟩ := inv.asked highWater hasked
    have hmarks : storedMarks seed (events ++ [.wrote highWater]) =
      storedMarks seed events ++ [highWater] := storedMarks_snoc _ _ _
    constructor <;> rw [hmarks]
    · exact List.mem_append_right _ (List.mem_singleton_self _)
    · intro mark hmark
      rcases List.mem_append.mp hmark with hmark | hmark
      · exact (h.le_stored mark hmark).trans hlow
      · rw [List.mem_singleton.mp hmark]
    · intro src' hsrc'
      have hsource := h.source src' hsrc'
      rw [hasked] at hsource ⊢
      exact hsource.write (inv.source src' hsrc') h.le_stored
  | @confirm src highWater hsrc hle =>
    refine h.quiet rfl rfl ?_
    rintro _ ⟨⟩
    exact (h.source _ hsrc).confirm (inv.source _ hsrc).blockEnd_le (hconfirm _ rfl)
  | crash hsrc => exact h.quiet rfl rfl nofun

/-- How many marks there can have been. What the mark is ahead of the counter pays for the next one,
unless the space ends there. -/
structure Frugal (seed : UInt32) (b : ℕ) (events : List IdEvent) (n : IdNode) : Prop where
  paid : n.stored.toNat ≠ 2 ^ 32 - 1 →
    (storedMarks seed events).toFinset.card * b + n.frontier ≤
      (issuedIds events).length + ((crashedBlocks events).length + 1) * b + n.stored.toNat
  bounded : (storedMarks seed events).toFinset.card * b ≤
    (issuedIds events).length + ((crashedBlocks events).length + 2) * b

theorem frugal_fresh (seed : UInt32) (b : ℕ) : Frugal seed b [] (fresh seed) := by
  constructor <;> simp [storedMarks, issuedIds, crashedBlocks, frontier, fresh]
  omega

/-- An event that is not a crash leaves the blocks as they were. -/
theorem crashedBlocks_snoc (h : crashedBlocks [e] = []) :
    crashedBlocks (events ++ [e]) = crashedBlocks events := by
  rw [crashedBlocks, List.filterMap_append]
  exact (congrArg _ h).trans (List.append_nil _)

/-- An event that stores nothing new, of a node that stays where it is. -/
theorem Frugal.quiet (h : Frugal seed b events n)
    (hmarks : (storedMarks seed (events ++ [e])).toFinset = (storedMarks seed events).toFinset)
    (hissue : issuedIds [e] = []) (hcrash : crashedBlocks [e] = []) (hstored : n'.stored = n.stored)
    (hfrontier : n'.frontier = n.frontier) : Frugal seed b (events ++ [e]) n' := by
  constructor <;> rw [hmarks, issuedIds_snoc hissue, crashedBlocks_snoc hcrash]
  · rw [hstored, hfrontier]
    exact h.paid
  · exact h.bounded

/-- An identifier is paid for with what the mark is ahead. -/
theorem Frugal.ready (h : Frugal seed b events n) (hsrc : n.source = some src)
    (hissue : src.issue = (.ready id, src')) :
    Frugal seed b (events ++ [.issued id n.stored]) { n with source := some src' } := by
  obtain ⟨-, -, hnext, -⟩ := PacketIdSource.issue_ready hissue
  have hbefore : n.frontier = src.next.toNat := by rw [frontier, hsrc]
  have hafter : frontier { n with source := some src' } = src'.next.toNat := rfl
  have hissued : (issuedIds (events ++ [.issued id n.stored])).length =
      (issuedIds events).length + 1 := by
    rw [issuedIds_append, List.length_append]
    rfl
  constructor <;> rw [storedMarks_quiet rfl, crashedBlocks_snoc rfl, hissued]
  · intro hroom
    have hpaid := h.paid hroom
    dsimp only
    omega
  · have hbounded := h.bounded
    omega

/-- A new mark is one block ahead, or ends the space. -/
theorem Frugal.write (h : Frugal seed b events n)
    (hsrc : n.source = some src)
    (hsource : MarkedSource (storedMarks seed events) b n.stored n.asked src)
    (hmem : n.stored ∈ storedMarks seed events)
    (hle : ∀ mark ∈ storedMarks seed events, mark.toNat ≤ n.stored.toNat)
    (hasked : n.asked = some highWater) :
    Frugal seed b (events ++ [.wrote highWater]) { n with stored := highWater } := by
  have hmarks : (storedMarks seed (events ++ [.wrote highWater])).toFinset =
      insert highWater (storedMarks seed events).toFinset := by
    rw [storedMarks_snoc, List.toFinset_append, Finset.union_comm]
    rfl
  have hfrontier : n.frontier = src.next.toNat := by rw [frontier, hsrc]
  have hafter : frontier { n with stored := highWater } = src.next.toNat := by
    simp only [frontier, hsrc]
  by_cases hsame : highWater = n.stored
  · subst hsame
    refine h.quiet ?_ rfl rfl rfl (hafter.trans hfrontier.symm)
    rw [hmarks, Finset.insert_eq_of_mem (List.mem_toFinset.mpr hmem)]
  · obtain ⟨hstands, hreq⟩ := (hsource.asked highWater hasked).resolve_left hsame
    rw [PacketIdSource.IsRequest, hsource.block_eq] at hreq
    have hstored := n.stored.toNat_lt
    have hroom : n.stored.toNat ≠ 2 ^ 32 - 1 := fun hfull =>
      hsame (UInt32.toNat_inj.mp (by omega))
    have hnew : highWater ∉ (storedMarks seed events).toFinset := fun hold => by
      have := hle highWater (List.mem_toFinset.mp hold)
      exact hsame (UInt32.toNat_inj.mp (by omega))
    have hpaid := h.paid hroom
    simp only [Nat.add_mul] at hpaid
    constructor <;>
      rw [hmarks, Finset.card_insert_of_notMem hnew, issuedIds_snoc rfl, crashedBlocks_snoc rfl]
    · intro hroom'
      dsimp only at hroom' ⊢
      simp only [Nat.add_mul]
      omega
    · simp only [Nat.add_mul]
      omega

/-- What the mark was ahead is no more than the block of the source that is lost. -/
theorem Frugal.crash (h : Frugal seed b events n)
    (hsrc : n.source = some src) (inv : SourceInv n.stored src) (hblock : src.block.toNat = b) :
    Frugal seed b (events ++ [.crashed src.next n.stored src.block]) ⟨n.stored, none, none⟩ := by
  have hfrontier : n.frontier = src.next.toNat := by rw [frontier, hsrc]
  have hafter : frontier ⟨n.stored, none, none⟩ = n.stored.toNat := rfl
  have hcrashes : (crashedBlocks (events ++ [.crashed src.next n.stored src.block])).length =
      (crashedBlocks events).length + 1 := by
    rw [crashedBlocks, List.filterMap_append, List.length_append]
    rfl
  have hahead := inv.stored_le
  constructor <;> rw [storedMarks_quiet rfl, issuedIds_snoc rfl, hcrashes]
  · intro hroom
    have hpaid := h.paid hroom
    simp only [Nat.add_mul] at hpaid ⊢
    omega
  · have hbounded := h.bounded
    simp only [Nat.add_mul] at hbounded ⊢
    omega

/-- **Step lemma.** -/
theorem Frugal.step (h : Frugal seed b events n) (inv : Inv events n)
    (hmarked : Marked seed b events n) (hstep : Step n e n') :
    Frugal seed b (events ++ [e]) n' := by
  have hquiet (hmarks : (storedMarks seed [e]).tail = []) :
      (storedMarks seed (events ++ [e])).toFinset = (storedMarks seed events).toFinset :=
    congrArg _ (storedMarks_quiet hmarks)
  cases hstep with
  | boot block hoff =>
    exact h.quiet (hquiet rfl) rfl rfl rfl
      (by simp only [frontier, hoff, PacketIdSource.resume_next])
  | ready hsrc hissue => exact h.ready hsrc hissue
  | ask hsrc hissue =>
    obtain ⟨rfl, -⟩ := PacketIdSource.issue_persistFirst hissue
    exact h.quiet (hquiet rfl) rfl rfl rfl (by simp only [frontier, hsrc])
  | exhaust hsrc hissue =>
    obtain ⟨rfl, -⟩ := PacketIdSource.issue_exhausted hissue
    exact h.quiet (hquiet rfl) rfl rfl rfl (by simp only [frontier, hsrc])
  | write hasked =>
    obtain ⟨src, hsrc, -⟩ := inv.asked _ hasked
    exact h.write hsrc (hmarked.source src hsrc) hmarked.stored_mem hmarked.le_stored hasked
  | confirm hsrc =>
    exact h.quiet (hquiet rfl) rfl rfl rfl
      (by simp only [frontier, hsrc, PacketIdSource.persisted_next])
  | crash hsrc =>
    exact h.crash hsrc (inv.source _ hsrc) (hmarked.source _ hsrc).block_eq

/-- **One mark is stored for a block of identifiers.** In every run whose boots all give the same
block size and whose confirmations, stale or replayed, name marks that have been stored: the marks
that have been in the store are no more than one for every block of identifiers issued, one for
every crash, the seed and one more. -/
theorem run_stores_a_mark_a_block (run : Run Step (fresh seed) events n)
    (hboot : ∀ block, .booted block ∈ events → (PacketIdSource.resume 0 block).block.toNat = b)
    (hconfirm : ∀ pre highWater post, events = pre ++ .confirmed highWater :: post →
      highWater ∈ storedMarks seed pre) :
    (storedMarks seed events).toFinset.card * b ≤
      (issuedIds events).length + ((crashedBlocks events).length + 2) * b := by
  suffices h : Marked seed b events n ∧ Frugal seed b events n from h.2.bounded
  induction run with
  | nil => exact ⟨marked_fresh seed b, frugal_fresh seed b⟩
  | @snoc events t u e hrun hstep ih =>
    obtain ⟨hmarked, hfrugal⟩ := ih (fun block hmem => hboot block (List.mem_append_left _ hmem))
      fun pre highWater post heq => hconfirm pre highWater (post ++ [e]) (by rw [heq]; simp)
    have inv := inv_of_run hrun
    refine ⟨hmarked.step inv hstep ?_ ?_, hfrugal.step inv hmarked hstep⟩
    · rintro block rfl
      exact hboot block (List.mem_append_right _ (List.mem_singleton_self _))
    · rintro highWater rfl
      exact hconfirm events highWater [] rfl

/-- The first block of a new node: the seed and one mark, for one identifier so far. -/
theorem run_stores_a_mark_a_block_new :
    (storedMarks 5 [.booted 2, .asked 7, .wrote 7, .confirmed 7, .issued 5 7]).toFinset.card * 2 ≤
      5 := by
  have run : Run Step (fresh 5) [.booted 2, .asked 7, .wrote 7, .confirmed 7, .issued 5 7]
      ⟨7, some ⟨6, 7, 2⟩, some 7⟩ :=
    .cons (.boot 2 rfl) <| .cons (.ask rfl rfl) <| .cons (.write rfl) <|
      .cons (.confirm rfl (by decide)) <| .cons (.ready rfl rfl) .nil
  refine run_stores_a_mark_a_block run (fun block hmem => ?_) fun pre highWater post heq => ?_
  · obtain rfl : block = 2 := by simpa using hmem
    rfl
  · obtain ⟨rfl, rfl, -⟩ : pre = [.booted 2, .asked 7, .wrote 7] ∧ highWater = 7 ∧
        post = [.issued 5 7] := by
      simpa [List.cons_eq_append_iff] using heq
    decide

end IdNode

end TetherMesh.Protocol
