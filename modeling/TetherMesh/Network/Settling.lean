import TetherMesh.Network.Ground

/-!
# Flooding settles

Each hop takes a copy closer to its end, so once no node originates anything more, only so many
receptions and relays can follow, and a mesh can always be brought to rest. On the way no node
relays a packet more than once.

## Main definitions

* `Ground.cost` — a bound on what can still happen
* `MeshEvent.relays`, `MeshEvent.introduces` — a node relays a packet, or sends it first

## Main results

* `Ground.Inv.cost_step` — every reception and every relay lowers it
* `flood_settles`
* `on_air_once`
-/

namespace TetherMesh.Network

open CApi CS Math Protocol

variable {ι : Type*} {G : SimpleGraph ι} {n : ι} {events : List (MeshEvent ι)} {e : MeshEvent ι}
  {t t' : Ground ι} {degree : ℕ}

/-! ## What can still happen -/

/-- A reception or a relay. -/
def MeshEvent.moves : MeshEvent ι → Bool
  | observed .. | relayed _ => true
  | originated .. | cancelled _ | lost | retuned _ => false

/-- Something was originated. -/
def MeshEvent.originates : MeshEvent ι → Bool
  | originated .. => true
  | _ => false

/-- The hops a copy has left. -/
def Copy.hops (c : Copy ι) : ℕ := ((Header.decode c.frame).map fun h => h.hopLimit.toNat).getD 0

theorem Copy.hops_eq {c : Copy ι} {h : Header} (hdec : Header.decode c.frame = some h) :
    c.hops = h.hopLimit.toNat := by
  rw [hops, hdec, Option.map_some, Option.getD_some]

/-- What a reception can lead to, if no node has more neighbours than `degree`. -/
def dueCost (degree : ℕ) (r : ι × Copy ι) : ℕ := (degree + 2) ^ (2 * r.2.hops + 1)

/-- What a relay can lead to. -/
def offerCost (degree : ℕ) (o : Offer ι) : ℕ := (degree + 2) ^ (2 * (o.relayHopLimit.toNat + 1))

/-- A bound on the receptions and relays that can follow. -/
def Ground.cost (degree : ℕ) (t : Ground ι) : ℕ :=
  (t.due.map (dueCost degree)).sum + (t.mesh.offers.map (offerCost degree)).sum

/-- A reception costs more than the relay it may lead to. -/
theorem pow_two_mul_lt (degree hops : ℕ) :
    (degree + 2) ^ (2 * hops) < (degree + 2) ^ (2 * hops + 1) :=
  Nat.pow_lt_pow_right (by omega) (Nat.lt_succ_self _)

/-- A relay costs more than all the receptions it leads to. -/
theorem mul_pow_lt {count : ℕ} (hcount : count ≤ degree) (hops : ℕ) :
    count * (degree + 2) ^ (2 * hops + 1) < (degree + 2) ^ (2 * (hops + 1)) := by
  rw [show 2 * (hops + 1) = 2 * hops + 1 + 1 by omega, pow_succ, Nat.mul_comm]
  exact Nat.mul_lt_mul_of_pos_left (by omega) (by positivity)

theorem sum_receptions (next : List ι) (c : Copy ι) :
    ((receptions next c).map (dueCost degree)).sum =
      next.length * (degree + 2) ^ (2 * c.hops + 1) := by
  induction next with
  | nil => simp [receptions]
  | cons m next ih =>
    rw [receptions] at ih
    rw [receptions, List.map_cons, List.map_cons, List.sum_cons, ih, List.length_cons,
      Nat.succ_mul next.length]
    exact Nat.add_comm _ _

/-- A relayed copy has the hops it was to be relayed with. -/
theorem hops_relayed {c : Copy ι} {h : Header} (hdec : Header.decode c.frame = some h)
    {relayHopLimit : UInt8} (hhops : relayHopLimit.toNat + 1 = h.hopLimit.toNat)
    {ourNodeNum : UInt32} {frame' : List UInt8}
    (hcall : tmRelayPrepare (some c.frame) relayHopLimit ourNodeNum = (tmOk, some frame'))
    (sent : List UInt8) (path : List ι) :
    (⟨frame', sent, path⟩ : Copy ι).hops = relayHopLimit.toNat := by
  obtain ⟨head, body, hframe, rfl⟩ := Header.decode_eq_some_iff.mp hdec
  rw [hframe, tmRelayPrepare_append] at hcall
  obtain rfl := Option.some.inj (Prod.mk.inj hcall).2
  have hold : (Header.ofBytes head).hopLimit.toNat ≤ 7 := by
    change (head[12] &&& (7 : UInt8)).toNat ≤ 7
    rw [UInt8.toNat_and]
    exact Nat.and_le_right
  rw [Copy.hops_eq (Header.decode_append _ body), ofBytes_relayedHead]
  change (relayHopLimit &&& 7).toNat = relayHopLimit.toNat
  rw [UInt8.toNat_and]
  exact Nat.and_two_pow_sub_one_of_lt_two_pow (n := 3) (by omega)

variable [DecidableEq ι]

/-- **Every reception and every relay lowers the cost**, and nothing but an origination
raises it. -/
theorem Ground.Inv.cost_step (inv : t.Inv events) (hstep : Ground.Step G t e t')
    (hdegree : ∀ n next, Hearers G n next → next.length ≤ degree)
    (hquiet : e.originates = false) :
    t'.cost degree + (if e.moves then 1 else 0) ≤ t.cost degree := by
  cases hstep with
  | originate => cases hquiet
  | @hear before after n c snrQ4 airtimeUs nowUs heardRelayed old rx ctx' hdue hlen hheard hcall =>
    obtain ⟨h, seen, hdec, -, -, -, hrelay⟩ := observe_spec hcall
    have hlt := pow_two_mul_lt degree c.hops
    have hmoves : (MeshEvent.observed n rx).moves = true := rfl
    rw [cost, cost, hdue, List.map_append, List.map_append, List.map_cons, List.sum_append,
      List.sum_append, List.sum_cons, hmoves, if_pos rfl]
    change _ + _ ≤ _ + ((degree + 2) ^ (2 * c.hops + 1) + _) + _
    dsimp only
    split_ifs with htold
    · have hoffer : offerCost degree ⟨n, c, rx.relayHopLimit⟩ = (degree + 2) ^ (2 * c.hops) := by
        rw [offerCost, (hrelay htold).2, Copy.hops_eq hdec]
      rw [List.map_append, List.map_singleton, List.sum_append, List.sum_singleton, hoffer]
      omega
    · omega
  | @relay before after o frame' next hnext hoffers hcall =>
    obtain ⟨-, h, hdec, hhops⟩ :=
      inv.mesh.offers o (hoffers ▸ List.mem_append_right _ List.mem_cons_self)
    have hlt := mul_pow_lt (hdegree _ _ hnext) o.relayHopLimit.toNat
    have hmoves : (MeshEvent.relayed o).moves = true := rfl
    rw [cost, cost, hoffers, List.map_append, List.map_append, List.map_append, List.map_cons,
      List.sum_append, List.sum_append, List.sum_append, List.sum_cons, sum_receptions,
      hops_relayed hdec hhops hcall, hmoves, if_pos rfl]
    change _ + _ + _ + 1 ≤ _ + (_ + ((degree + 2) ^ (2 * (o.relayHopLimit.toNat + 1)) + _))
    omega
  | @cancel before after o hoffers =>
    rw [cost, cost, hoffers, List.map_append, List.map_append, List.map_cons, List.sum_append,
      List.sum_append, List.sum_cons]
    exact Nat.add_le_add_left (Nat.add_le_add_left (Nat.le_add_left _ _) _) _
  | ask => exact Nat.le_refl _

/-- What a run without originations does is paid for. -/
theorem Ground.Inv.cost_run (inv : t.Inv events) {more : List (MeshEvent ι)}
    (run : Run (Ground.Step G) t more t')
    (hdegree : ∀ n next, Hearers G n next → next.length ≤ degree)
    (hquiet : ∀ e ∈ more, e.originates = false) :
    t'.cost degree + more.countP MeshEvent.moves ≤ t.cost degree ∧ t'.Inv (events ++ more) := by
  induction run with
  | nil => exact ⟨Nat.le_refl _, (List.append_nil events).symm ▸ inv⟩
  | @snoc more t₁ t₂ e _ hstep ih =>
    rw [List.forall_mem_append] at hquiet
    obtain ⟨hcost, inv₁⟩ := ih hquiet.1
    have hlast := inv₁.cost_step hstep hdegree (hquiet.2 e (List.mem_singleton_self _))
    rw [List.countP_append, List.countP_singleton, ← List.append_assoc]
    exact ⟨by omega, inv₁.step hstep⟩

/-! ## Coming to rest -/

/-- Nothing is left to be received or relayed. -/
def Ground.Quiet (t : Ground ι) : Prop := t.due = [] ∧ t.mesh.offers = []

/-- Something can happen while something is left. -/
theorem Ground.Inv.exists_move [Fintype ι] (inv : t.Inv events) (hleft : ¬ t.Quiet) :
    ∃ e t', Ground.Step G t e t' ∧ e.moves = true := by
  classical
  cases hdue : t.due with
  | cons r after =>
    obtain ⟨n, c⟩ := r
    obtain ⟨-, -, h, hdec, -⟩ := inv.mesh.air c (inv.air (n, c) (hdue ▸ List.mem_cons_self))
    obtain ⟨ctx', rx, hcall⟩ : ∃ ctx' rx, tmRxObserve (some (t.mesh.ctx n)) (some c.frame) 0 0 0 0
        (some noReport) = (tmOk, some ctx', some rx) :=
      ⟨_, _, tmRxObserve_decoded hdec⟩
    exact ⟨_, _, .hear (hdue.trans (List.nil_append _).symm) (by simp) (by simp) hcall, rfl⟩
  | nil =>
    cases hoffers : t.mesh.offers with
    | nil => exact absurd ⟨hdue, hoffers⟩ hleft
    | cons o after =>
      obtain ⟨-, h, hdec, -⟩ := inv.mesh.offers o (hoffers ▸ List.mem_cons_self)
      obtain ⟨head, body, hframe, -⟩ := Header.decode_eq_some_iff.mp hdec
      have hnext : Hearers G o.node (Finset.univ.filter (G.Adj o.node)).toList :=
        ⟨Finset.nodup_toList _, fun m => by simp⟩
      have hcall := tmRelayPrepare_append head body o.relayHopLimit (t.mesh.ctx o.node).nodeNum
      rw [← hframe] at hcall
      exact ⟨_, _, .relay hnext (hoffers.trans (List.nil_append _).symm) hcall, rfl⟩

/-- **Flooding settles.** In every state that can be reached on the ground, however many
receptions and relays there still are: without new originations no run has more of them than
the cost of the state, and some run of them leads to rest. -/
theorem flood_settles [Fintype ι] {num : ι → UInt32} {start : Ground ι}
    (hstart : start.Started num) (run : Run (Ground.Step G) start events t) :
    (∀ more t', Run (Ground.Step G) t more t' → (∀ e ∈ more, e.originates = false) →
      more.countP MeshEvent.moves ≤ t.cost (Fintype.card ι)) ∧
    ∃ more t', Run (Ground.Step G) t more t' ∧ (∀ e ∈ more, e.moves = true) ∧ t'.Quiet := by
  have inv := Ground.inv_of_run hstart run
  have hdegree (n : ι) (next : List ι) (hnext : Hearers G n next) :
      next.length ≤ Fintype.card ι := hnext.nodup.length_le_card
  refine ⟨fun more t' hmore hquiet => ?_, ?_⟩
  · exact (Nat.le_add_left _ _).trans (inv.cost_run hmore hdegree hquiet).1
  · clear run hstart
    induction hcost : t.cost (Fintype.card ι) using Nat.strong_induction_on generalizing t events
    rename_i cost ih
    by_cases hleft : t.Quiet
    · exact ⟨[], t, .nil, fun _ he => absurd he List.not_mem_nil, hleft⟩
    · obtain ⟨e, t₁, hstep, hmoves⟩ := inv.exists_move (G := G) hleft
      have hquiet : e.originates = false := by
        cases e with
        | originated => cases hmoves
        | observed | relayed | cancelled | lost | retuned => rfl
      have hless := inv.cost_step hstep hdegree hquiet
      rw [hmoves, if_pos rfl] at hless
      obtain ⟨more, t', hrun, hall, hrest⟩ := ih _ (by omega) (inv.step hstep) rfl
      exact ⟨e :: more, t', .cons hstep hrun, List.forall_mem_cons.mpr ⟨hmoves, hall⟩, hrest⟩

set_option maxRecDepth 4000 in
/-- The three nodes, once the first has originated its broadcast. -/
theorem flood_settles_line : ∃ seen t more t', Run (Ground.Step line) lineStart
    [.originated 0 lineFrame (1, 7) seen] t ∧ ¬ t.Quiet ∧ Run (Ground.Step line) t more t' ∧
      t'.Quiet := by
  have hnext : Hearers line 0 [1] :=
    ⟨by simp, (by decide : ∀ m : Fin 3, m ∈ [1] ↔ 0 + 1 = m.val ∨ m.val + 1 = 0)⟩
  have run := Run.single
    (@Ground.Step.originate _ _ line lineStart 0 lineFrame _ _ [1] hnext rfl rfl rfl)
  obtain ⟨-, more, t', hmore, -, hquiet⟩ := flood_settles lineStart_started run
  exact ⟨_, _, more, t', run, fun hrest => List.cons_ne_nil _ _ hrest.1, hmore, hquiet⟩

/-! ## One packet, one relay -/

/-- The node sends the packet, and its history did not contain it. -/
def MeshEvent.introduces (n : ι) (k : PacketKey) : MeshEvent ι → Bool
  | originated m _ key seen => m = n ∧ key = k ∧ seen = .new
  | _ => false

/-- The node is to relay this copy of the packet. -/
def Offer.isFor (n : ι) (k : PacketKey) (o : Offer ι) : Bool :=
  o.node = n ∧ o.copy.packet = some k

/-- The node relays the packet. -/
def MeshEvent.relays (n : ι) (k : PacketKey) : MeshEvent ι → Bool
  | relayed o => o.isFor n k
  | _ => false

/-- The node was the last to relay this copy of the packet. -/
def Copy.relayedBy (n : ι) (k : PacketKey) (c : Copy ι) : Bool :=
  c.packet = some k ∧ c.path.getLast? = some n

/-- How often the node sent a packet first or relayed it, or is to relay it. -/
def tally (n : ι) (k : PacketKey) (events : List (MeshEvent ι)) (net : Mesh ι) : ℕ :=
  events.countP (MeshEvent.relays n k) + net.offers.countP (Offer.isFor n k) +
    events.countP (MeshEvent.introduces n k)

/-- What a node sends first, it records. -/
theorem introduces_le (n : ι) (k : PacketKey) (e : MeshEvent ι) :
    (if e.introduces n k then 1 else 0) ≤ (e.recorded n).count k := by
  cases e with
  | originated m frame key seen =>
    by_cases hboth : m = n ∧ seen = .new
    · by_cases hkey : key = k <;> simp [MeshEvent.introduces, MeshEvent.recorded, hboth, hkey]
    · have hnot : ¬ (m = n ∧ key = k ∧ seen = .new) := fun h => hboth ⟨h.1, h.2.2⟩
      simp [MeshEvent.introduces, hnot]
  | observed | relayed | cancelled | lost | retuned => exact Nat.zero_le _

variable {net net' : Mesh ι} {k : PacketKey}

/-- **Whatever a node relays, it has recorded.** -/
theorem tally_step (htally : tally n k events net ≤ (recordings n events).count k)
    (hstep : Mesh.Step net e net') :
    tally n k (events ++ [e]) net' ≤ (recordings n (events ++ [e])).count k := by
  have hintroduced := introduces_le n k e
  rw [tally] at htally
  rw [tally, recordings_snoc, List.count_append, List.countP_append, List.countP_append,
    List.countP_singleton, List.countP_singleton]
  cases hstep with
  | @originate m frame h ctx' hdec hhops hcall =>
    have hnone : (MeshEvent.originated m frame (h.fromNode, h.id)
      ((net.ctx m).history.observe h.fromNode h.id).1).relays n k = false := rfl
    rw [hnone, if_neg Bool.false_ne_true]
    dsimp only
    omega
  | @observe m c snrQ4 airtimeUs nowUs heardRelayed old rx ctx' hc hcall =>
    obtain ⟨h, seen, hdec, hkey, -, hdup, hrelay⟩ := observe_spec hcall
    have hnone : (MeshEvent.observed m rx).introduces n k = false := rfl
    have hnone' : (MeshEvent.observed m rx).relays n k = false := rfl
    rw [hnone, hnone', if_neg Bool.false_ne_true]
    dsimp only
    split_ifs with htold
    · -- what is to be relayed was recorded now
      have hoffer : (if Offer.isFor n k ⟨m, c, rx.relayHopLimit⟩ then 1 else 0) ≤
          ((MeshEvent.observed m rx).recorded n).count k := by
        by_cases hfor : m = n ∧ c.packet = some k
        · have hpacket : packetOf rx = k := by
            rw [hkey, ← Option.some_inj, ← Copy.packet_eq hdec, hfor.2]
          have hfirst : rx.duplicate = 0 := hdup.mpr (hrelay htold).1
          simp [Offer.isFor, MeshEvent.recorded, hfor, hpacket, hfirst]
        · simp [Offer.isFor, hfor]
      rw [List.countP_append, List.countP_singleton]
      omega
    · omega
  | @relay before after o frame' hoffers hcall =>
    rw [hoffers, List.countP_append, List.countP_cons] at htally
    have hnone : (MeshEvent.relayed o).introduces n k = false := rfl
    have hsame : (MeshEvent.relayed o).relays n k = o.isFor n k := rfl
    rw [hnone, hsame, if_neg Bool.false_ne_true]
    dsimp only
    rw [List.countP_append]
    omega
  | @cancel before after o hoffers =>
    rw [hoffers, List.countP_append, List.countP_cons] at htally
    have hnone : (MeshEvent.cancelled o).introduces n k = false := rfl
    have hnone' : (MeshEvent.cancelled o).relays n k = false := rfl
    rw [hnone, hnone', if_neg Bool.false_ne_true]
    dsimp only
    rw [List.countP_append]
    omega
  | lose | retune => exact htally.trans (Nat.le_add_right _ _)

/-- Run lemma. -/
theorem tally_run (hfresh : net.Fresh) (run : Run Mesh.Step net events net') (n : ι)
    (k : PacketKey) : tally n k events net' ≤ (recordings n events).count k := by
  induction run with
  | nil =>
    rw [tally, hfresh.offers_eq]
    exact Nat.zero_le _
  | snoc _ hstep ih => exact tally_step ih hstep

/-- A copy in the air was relayed by the last node on its path. -/
theorem relayedBy_step (inv : net.Inv events)
    (hcount : net.air.countP (Copy.relayedBy n k) ≤ events.countP (MeshEvent.relays n k))
    (hstep : Mesh.Step net e net') :
    net'.air.countP (Copy.relayedBy n k) ≤ (events ++ [e]).countP (MeshEvent.relays n k) := by
  rw [List.countP_append, List.countP_singleton]
  cases hstep with
  | @originate m frame h ctx' hdec hhops hcall =>
    -- no node relayed the copy that was sent
    have hnone : Copy.relayedBy n k (⟨frame, frame, []⟩ : Copy ι) = false := by
      simp [Copy.relayedBy]
    rw [List.countP_append, List.countP_singleton, hnone, if_neg Bool.false_ne_true]
    exact hcount.trans (Nat.le_add_right _ _)
  | @relay before after o frame' hoffers hcall =>
    obtain ⟨-, h, hdec, -⟩ := inv.offers o (hoffers ▸ List.mem_append_right _ List.mem_cons_self)
    have hsame : Copy.relayedBy n k ⟨frame', o.copy.sent, o.copy.path ++ [o.node]⟩ =
        (MeshEvent.relayed o).relays n k := by
      rw [Copy.relayedBy, packet_relayed hdec hcall, MeshEvent.relays, Offer.isFor]
      simp [and_comm]
    rw [List.countP_append, List.countP_singleton, hsame]
    exact Nat.add_le_add_right hcount _
  | @lose before after c hair =>
    rw [hair, List.countP_append, List.countP_cons] at hcount
    rw [List.countP_append]
    omega
  | observe | cancel | retune => exact hcount.trans (Nat.le_add_right _ _)

/-- Run lemma. -/
theorem relayedBy_run (hfresh : net.Fresh) (run : Run Mesh.Step net events net') (n : ι)
    (k : PacketKey) :
    net'.air.countP (Copy.relayedBy n k) ≤ events.countP (MeshEvent.relays n k) := by
  induction run with
  | nil =>
    rw [hfresh.air_eq]
    exact Nat.zero_le _
  | snoc run hstep ih => exact relayedBy_step (Mesh.inv_of_run hfresh run) ih hstep

/-- **What a node had not met** is new to its history. -/
theorem introduces_of_not_met (inv : net.Inv events) {frame : List UInt8} {seen : Seen}
    (hstep : Mesh.Step net (.originated n frame k seen) net') (hout : ¬ Met events k n) :
    seen = .new := by
  cases hstep with
  | @originate _ _ h ctx' hdec hhops hcall =>
    rcases (inv.recalls n).remembers.observe
      (Prod.mk.eta (p := (net.ctx n).history.observe h.fromNode h.id)).symm with
      ⟨-, -, hmem⟩ | ⟨hnew, -, -⟩
    · exact absurd (met_of_mem_recordings (List.mem_of_mem_drop hmem)) hout
    · exact hnew

/-- **No node relays a packet twice.** In every run of a fresh mesh, while a node's history has
not overflowed: the node relays a packet at most once, and not at all if it sent it when its
history did not contain it, as when it sent it before it had met it. So of the copies in the air
it was the last to relay one at most. -/
theorem on_air_once (hfresh : net.Fresh) (run : Run Mesh.Step net events net')
    (hroom : (recordings n events).length ≤ historyLen) (k : PacketKey) :
    events.countP (MeshEvent.relays n k) + events.countP (MeshEvent.introduces n k) ≤ 1 ∧
      (∀ past frame seen rest, events = past ++ .originated n frame k seen :: rest →
        ¬ Met past k n → events.countP (MeshEvent.relays n k) = 0) ∧
      net'.air.countP (Copy.relayedBy n k) ≤ events.countP (MeshEvent.relays n k) := by
  have htally := tally_run hfresh run n k
  -- all that was recorded is still remembered, so it is distinct
  have hspaced : Spaced historyLen ([] ++ recordings n events) :=
    ((Mesh.inv_of_run hfresh run).recalls n).spaced
  have hnodup := hspaced.nodup (hroom.trans (Nat.le_succ _))
  have honce := List.nodup_iff_count_le_one.mp hnodup k
  rw [tally] at htally
  refine ⟨by omega, fun past frame seen rest hevents hout => ?_, relayedBy_run hfresh run n k⟩
  obtain ⟨t, t', hpast, hstep, -⟩ := (hevents ▸ run).step_at
  obtain rfl := introduces_of_not_met (Mesh.inv_of_run hfresh hpast) hstep hout
  have hfirst : 0 < events.countP (MeshEvent.introduces n k) :=
    List.countP_pos_iff.mpr ⟨.originated n frame k .new,
      hevents ▸ List.mem_append_right _ List.mem_cons_self, by simp [MeshEvent.introduces]⟩
  omega

set_option maxRecDepth 4000 in
/-- Of the broadcast of the first node, the second has relayed the one copy it may, and the first
relays none. -/
theorem on_air_once_line : ∃ events net', Run Mesh.Step lineStart.mesh events net' ∧
    net'.air.countP (Copy.relayedBy 1 (1, 7)) = 1 ∧
      events.countP (MeshEvent.relays 1 (1, 7)) = 1 ∧
      events.countP (MeshEvent.relays 0 (1, 7)) = 0 := by
  obtain ⟨rx, o, net', run, hone⟩ : ∃ rx o net', Run Mesh.Step lineStart.mesh
      [.originated 0 lineFrame (1, 7) .new, .observed 1 rx, .relayed o] net' ∧
        net'.air.countP (Copy.relayedBy 1 (1, 7)) = 1 := by
    have run₁ := Run.single
      (@Mesh.Step.originate _ _ lineStart.mesh 0 lineFrame _ _ rfl rfl rfl)
    have run₂ := run₁.snoc (@Mesh.Step.observe _ _ _ 1 _ 0 0 0 0
      noReport _ _ List.mem_cons_self rfl)
    have run₃ := run₂.snoc (@Mesh.Step.relay _ _ _ [] [] _ _ rfl rfl)
    exact ⟨_, _, _, run₃, rfl⟩
  have hroom (n : Fin 3) : (recordings n [.originated 0 lineFrame (1, 7) .new, .observed 1 rx,
      .relayed o]).length ≤ historyLen :=
    (length_recordings_le_length n _).trans (by simp [historyLen])
  obtain ⟨hsecond, -, hair⟩ := on_air_once lineStart_started.fresh run (hroom 1) (1, 7)
  obtain ⟨-, hfirst, -⟩ := on_air_once lineStart_started.fresh run (hroom 0) (1, 7)
  refine ⟨_, net', run, hone, by omega, hfirst [] lineFrame .new _ rfl ?_⟩
  rintro ⟨e, he, -⟩
  exact absurd he List.not_mem_nil

end TetherMesh.Network
