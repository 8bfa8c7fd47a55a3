import TetherMesh.Network.Flooding

/-!
# Flooding neither loops nor multiplies

Whatever order copies are delivered in, a copy is its original but for what relays
rewrite, and has lost one hop for each of them. A node that has met a packet is not
told to relay it before its history has recorded four hundred others.

## Main definitions

* `Genuine` — a copy goes back to a frame that was originated
* `Recalls` — a history holds what its node recorded, and the node recorded what it met
* `Mesh.Inv` — both of these, for the whole mesh

## Main results

* `Mesh.Inv.step` — the invariant survives every step
* `flooding_bounded` — every copy in every reachable state, and every relay that was told
-/

namespace TetherMesh.Network

open CApi CS Protocol

variable {ι : Type*} {events : List (MeshEvent ι)} {e : MeshEvent ι}

/-! ## Copies -/

/-- The copy goes back to a frame that was originated: it is that frame but for what relays
rewrite, and its hop limit has gone down by the relays on its path. -/
structure Genuine (events : List (MeshEvent ι)) (c : Copy ι) : Prop where
  /-- The frame it goes back to. -/
  origin : ∃ n key seen, .originated n c.sent key seen ∈ events
  same : SameButRelay c.frame c.sent
  hops : ∃ h, Header.decode c.frame = some h ∧ h.hopLimit.toNat + c.path.length = h.hopStart.toNat

namespace Genuine

variable {c : Copy ι}

theorem snoc (h : Genuine events c) (e : MeshEvent ι) : Genuine (events ++ [e]) c where
  origin := by
    obtain ⟨n, key, seen, hmem⟩ := h.origin
    exact ⟨n, key, seen, List.mem_append_left _ hmem⟩
  same := h.same
  hops := h.hops

/-- A frame at its origin, with all of its hops left. -/
theorem original {n : ι} {frame : List UInt8} {key : PacketKey} {seen : Seen} {h : Header}
    (hdec : Header.decode frame = some h) (hhops : h.hopLimit = h.hopStart) :
    Genuine (events ++ [.originated n frame key seen]) ⟨frame, frame, []⟩ where
  origin := ⟨n, key, seen, List.mem_append_right _ (List.mem_singleton_self _)⟩
  same := .refl frame
  hops := ⟨h, hdec, congrArg UInt8.toNat hhops⟩

/-- **A relay keeps a copy genuine**: it takes one hop off and adds one to the path. -/
theorem relay (hc : Genuine events c) {h : Header} (hdec : Header.decode c.frame = some h)
    {relayHopLimit : UInt8} (hhops : relayHopLimit.toNat + 1 = h.hopLimit.toNat)
    {ourNodeNum : UInt32} {frame' : List UInt8}
    (hcall : tmRelayPrepare (some c.frame) relayHopLimit ourNodeNum = (tmOk, some frame')) (n : ι) :
    Genuine events ⟨frame', c.sent, c.path ++ [n]⟩ := by
  obtain ⟨h', hdec', hpath⟩ := hc.hops
  obtain rfl := Option.some.inj (hdec.symm.trans hdec')
  obtain ⟨head, body, hframe, rfl⟩ := Header.decode_eq_some_iff.mp hdec
  rw [hframe, tmRelayPrepare_append] at hcall
  obtain rfl := Option.some.inj (Prod.mk.inj hcall).2
  have hsame := sameButRelay_relayed head body relayHopLimit ourNodeNum
  refine ⟨hc.origin, hsame.trans (hframe ▸ hc.same), _, Header.decode_append _ body, ?_⟩
  -- three bits hold the new limit, as they held the old one
  have hold : (Header.ofBytes head).hopLimit.toNat ≤ 7 := by
    change (head[12] &&& (7 : UInt8)).toNat ≤ 7
    rw [UInt8.toNat_and]
    exact Nat.and_le_right
  have hlimit : (relayHopLimit &&& 7).toNat = relayHopLimit.toNat := by
    rw [UInt8.toNat_and]
    exact Nat.and_two_pow_sub_one_of_lt_two_pow (n := 3) (by omega)
  rw [ofBytes_relayedHead, List.length_append, List.length_singleton]
  change (relayHopLimit &&& 7).toNat + (c.path.length + 1) = (Header.ofBytes head).hopStart.toNat
  omega

end Genuine

/-! ## Histories -/

variable [DecidableEq ι] {n : ι} {history history' : PacketHistory historyLen} {k : PacketKey}

/-- The history holds the last packets its node recorded; these were all new when they were
recorded, and the node recorded what it met. -/
structure Recalls (n : ι) (events : List (MeshEvent ι)) (history : PacketHistory historyLen) :
    Prop where
  remembers : history.Remembers (recordings n events)
  spaced : Spaced historyLen (recordings n events)
  met : ∀ k, (∃ e ∈ events, e.Meets n k) → k ∈ recordings n events

namespace Recalls

theorem empty (n : ι) : Recalls n [] PacketHistory.empty where
  remembers := PacketHistory.remembers_empty
  spaced := .nil
  met _ := fun ⟨_, he, _⟩ => absurd he List.not_mem_nil

/-- An event of another node. -/
theorem silent (h : Recalls n events history) (hrecorded : e.recorded n = [])
    (hmeets : ∀ k, ¬ e.Meets n k) : Recalls n (events ++ [e]) history := by
  have hsame : recordings n (events ++ [e]) = recordings n events := by
    rw [recordings_snoc, hrecorded, List.append_nil]
  refine ⟨hsame ▸ h.remembers, hsame ▸ h.spaced, fun k => ?_⟩
  rintro ⟨e', he', hmet⟩
  rw [hsame]
  rcases List.mem_append.mp he' with hold | hnew
  · exact h.met k ⟨e', hold, hmet⟩
  · exact absurd (List.mem_singleton.mp hnew ▸ hmet) (hmeets k)

/-- **The history is asked about the packet the node meets.** -/
theorem observe (h : Recalls n events history) {seen : Seen}
    (hobs : history.observe k.1 k.2 = (seen, history'))
    (hrecorded : e.recorded n = if seen = .new then [k] else [])
    (hmeets : ∀ k', e.Meets n k' → k' = k) : Recalls n (events ++ [e]) history' := by
  -- either way the packet is among those recorded now
  suffices hnow : history'.Remembers (recordings n (events ++ [e])) ∧
      Spaced historyLen (recordings n (events ++ [e])) ∧ k ∈ recordings n (events ++ [e]) by
    refine ⟨hnow.1, hnow.2.1, fun k' => ?_⟩
    rintro ⟨e', he', hmet⟩
    rcases List.mem_append.mp he' with hold | hnew
    · rw [recordings_snoc]
      exact List.mem_append_left _ (h.met k' ⟨e', hold, hmet⟩)
    · rw [hmeets k' (List.mem_singleton.mp hnew ▸ hmet)]
      exact hnow.2.2
  rw [recordings_snoc, hrecorded]
  rcases h.remembers.observe hobs with ⟨rfl, rfl, hmem⟩ | ⟨rfl, hremembers, hnotMem⟩
  · rw [if_neg (by decide), List.append_nil]
    exact ⟨h.remembers, h.spaced, List.mem_of_mem_drop hmem⟩
  · rw [if_pos rfl]
    exact ⟨hremembers, h.spaced.push hnotMem, List.mem_append_right _ (List.mem_singleton_self _)⟩

end Recalls

/-! ## The mesh -/

variable {net net' : Mesh ι}

/-- What holds of a mesh after `events`. -/
structure Mesh.Inv (events : List (MeshEvent ι)) (net : Mesh ι) : Prop where
  recalls : ∀ n, Recalls n events (net.ctx n).history
  air : ∀ c ∈ net.air, Genuine events c
  offers : ∀ o ∈ net.offers, Genuine events o.copy ∧ ∃ h, Header.decode o.copy.frame = some h ∧
    o.relayHopLimit.toNat + 1 = h.hopLimit.toNat

namespace Mesh

theorem Fresh.inv (h : net.Fresh) : Inv [] net where
  recalls n := h.history_eq n ▸ Recalls.empty n
  air _ hc := absurd (h.air_eq ▸ hc) List.not_mem_nil
  offers _ ho := absurd (h.offers_eq ▸ ho) List.not_mem_nil

namespace Inv

/-- Only one node's history was asked. -/
theorem recalls_update (inv : Inv events net) {ctx' : TmCtx}
    (hn : Recalls n (events ++ [e]) ctx'.history)
    (hother : ∀ m, m ≠ n → e.recorded m = [] ∧ ∀ k, ¬ e.Meets m k) (m : ι) :
    Recalls m (events ++ [e]) (Function.update net.ctx n ctx' m).history := by
  by_cases hm : m = n
  · subst hm
    rwa [Function.update_self]
  · rw [Function.update_of_ne hm]
    exact (inv.recalls m).silent (hother m hm).1 (hother m hm).2

theorem offers_snoc (inv : Inv events net) (e : MeshEvent ι) {o : Offer ι} (ho : o ∈ net.offers) :
    Genuine (events ++ [e]) o.copy ∧ ∃ h, Header.decode o.copy.frame = some h ∧
      o.relayHopLimit.toNat + 1 = h.hopLimit.toNat :=
  ⟨(inv.offers o ho).1.snoc e, (inv.offers o ho).2⟩

/-- A copy in the air is as genuine after one more event. -/
theorem genuine_snoc (inv : Inv events net) (e : MeshEvent ι) {c : Copy ι} (hc : c ∈ net.air) :
    Genuine (events ++ [e]) c := (inv.air c hc).snoc e

/-- An origination puts a frame with all of its hops on the air, and the node's history is
asked about it. -/
theorem originate (inv : Inv events net) {frame : List UInt8} {h : Header} {ctx' : TmCtx}
    (hdec : Header.decode frame = some h) (hhops : h.hopLimit = h.hopStart)
    (hcall : tmNoteOriginated (some (net.ctx n)) h.fromNode h.id = (tmOk, some ctx')) :
    Inv (events ++ [.originated n frame (h.fromNode, h.id)
        ((net.ctx n).history.observe h.fromNode h.id).1])
      { net with
        ctx := Function.update net.ctx n ctx'
        air := net.air ++ [⟨frame, frame, []⟩] } := by
  have hctx : ctx'.history = ((net.ctx n).history.observe h.fromNode h.id).2 := by
    obtain rfl := Option.some.inj (Prod.mk.inj hcall).2
    rfl
  constructor
  case recalls =>
    apply inv.recalls_update
    · rw [hctx]
      apply (inv.recalls n).observe (k := (h.fromNode, h.id)) (Prod.eta _).symm
      · simp only [MeshEvent.recorded, true_and]
      · exact fun k' hmeets => hmeets.2.symm
    · exact fun m hm => ⟨if_neg fun hboth => hm hboth.1.symm, fun k hmeets => hm hmeets.1.symm⟩
  case air =>
    intro c hc
    rcases List.mem_append.mp hc with hold | hnew
    · exact inv.genuine_snoc _ hold
    · rw [List.mem_singleton.mp hnew]
      exact .original hdec hhops
  case offers => exact fun o ho => inv.offers_snoc _ ho

/-- A reception asks the node's history, and offers at most the copy received, with one hop
less. -/
theorem observe (inv : Inv events net) {c : Copy ι} {snrQ4 : Int16} {airtimeUs : Micros}
    {nowUs : UInt64} {heardRelayed : UInt8} {old rx : TmRx} {ctx' : TmCtx} (hc : c ∈ net.air)
    (hcall : tmRxObserve (some (net.ctx n)) (some c.frame) snrQ4 airtimeUs nowUs heardRelayed
      (some old) = (tmOk, some ctx', some rx)) :
    Inv (events ++ [.observed n rx])
      { net with
        ctx := Function.update net.ctx n ctx'
        offers :=
          if rx.relay = 1 then net.offers ++ [⟨n, c, rx.relayHopLimit⟩] else net.offers } := by
  obtain ⟨h, seen, hdec, hkey, hobs, hdup, hrelay⟩ := observe_spec hcall
  constructor
  case recalls =>
    apply inv.recalls_update
    · apply (inv.recalls n).observe (k := (h.fromNode, h.id)) hobs
      · simp only [MeshEvent.recorded, true_and, hdup, hkey]
      · exact fun k' hmeets => hmeets.2.symm.trans hkey
    · exact fun m hm => ⟨if_neg fun hboth => hm hboth.1.symm, fun k hmeets => hm hmeets.1.symm⟩
  case air => exact fun c hc => inv.genuine_snoc _ hc
  case offers =>
    intro o ho
    dsimp only at ho
    split at ho
    · next htold =>
      rcases List.mem_append.mp ho with hold | hnew
      · exact inv.offers_snoc _ hold
      · rw [List.mem_singleton.mp hnew]
        exact ⟨inv.genuine_snoc _ hc, h, hdec, (hrelay htold).2⟩
    · exact inv.offers_snoc _ ho

/-- A relay puts a copy on the air that goes back to the same frame. -/
theorem relay (inv : Inv events net) {before after : List (Offer ι)} {o : Offer ι}
    {frame' : List UInt8} (hoffers : net.offers = before ++ o :: after)
    (hcall : tmRelayPrepare (some o.copy.frame) o.relayHopLimit (net.ctx o.node).nodeNum =
      (tmOk, some frame')) :
    Inv (events ++ [.relayed o])
      { net with
        air := net.air ++ [⟨frame', o.copy.sent, o.copy.path ++ [o.node]⟩]
        offers := before ++ after } := by
  have ho : o ∈ net.offers := hoffers ▸ List.mem_append_right _ List.mem_cons_self
  obtain ⟨hgenuine, h, hdec, hhops⟩ := inv.offers_snoc (.relayed o) ho
  constructor
  case recalls => exact fun m => (inv.recalls m).silent rfl fun _ => id
  case air =>
    intro c hc
    rcases List.mem_append.mp hc with hold | hnew
    · exact inv.genuine_snoc _ hold
    · rw [List.mem_singleton.mp hnew]
      exact hgenuine.relay hdec hhops hcall o.node
  case offers =>
    intro o' ho'
    apply inv.offers_snoc
    rw [hoffers]
    exact List.Sublist.mem ho' (List.Sublist.append_left (List.sublist_cons_self _ _) _)

/-- What is left to be relayed was to be relayed before. -/
theorem cancel (inv : Inv events net) {before after : List (Offer ι)} {o : Offer ι}
    (hoffers : net.offers = before ++ o :: after) :
    Inv (events ++ [.cancelled o]) { net with offers := before ++ after } where
  recalls m := (inv.recalls m).silent rfl fun _ => id
  air c hc := inv.genuine_snoc _ hc
  offers o' ho' := by
    apply inv.offers_snoc
    rw [hoffers]
    exact List.Sublist.mem ho' (List.Sublist.append_left (List.sublist_cons_self _ _) _)

/-- What is left after a copy was lost was there before. -/
theorem lose (inv : Inv events net) {before after : List (Copy ι)} {c : Copy ι}
    (hair : net.air = before ++ c :: after) :
    Inv (events ++ [.lost]) { net with air := before ++ after } where
  recalls m := (inv.recalls m).silent rfl fun _ => id
  air c' hc' := by
    apply inv.genuine_snoc
    rw [hair]
    exact List.Sublist.mem hc' (List.Sublist.append_left (List.sublist_cons_self _ _) _)
  offers o ho := inv.offers_snoc _ ho

/-- A call that leaves the history alone leaves what is recalled. -/
theorem retune (inv : Inv events net) {ctx' : TmCtx}
    (hhistory : ctx'.history = (net.ctx n).history) :
    Inv (events ++ [.retuned n]) { net with ctx := Function.update net.ctx n ctx' } where
  recalls := by
    apply inv.recalls_update
    · rw [hhistory]
      exact (inv.recalls n).silent rfl fun _ => id
    · exact fun m _ => ⟨rfl, fun _ => id⟩
  air c hc := inv.genuine_snoc _ hc
  offers o ho := inv.offers_snoc _ ho

/-- **Step lemma.** Every step keeps the invariant. -/
theorem step (inv : Inv events net) (hstep : Step net e net') : Inv (events ++ [e]) net' := by
  cases hstep with
  | originate hdec hhops hcall => exact inv.originate hdec hhops hcall
  | observe hc hcall => exact inv.observe hc hcall
  | relay hoffers hcall => exact inv.relay hoffers hcall
  | cancel hoffers => exact inv.cancel hoffers
  | lose hair => exact inv.lose hair
  | retune hhistory => exact inv.retune hhistory

/-- **A packet that is to be relayed has left the history**, if the node has met it before. -/
theorem forgotten_of_tells (inv : Inv events net) (hstep : Step net e net') (htells : e.Tells n k)
    (hmet : ∃ e' ∈ events, e'.Meets n k) :
    ∃ before others, recordings n events = before ++ k :: others ∧ k ∉ others ∧
      historyLen ≤ others.length ∧ (others.take historyLen).Nodup := by
  cases hstep with
  | originate | relay | cancel | lose | retune => exact htells.elim
  | @observe m c snrQ4 airtimeUs nowUs heardRelayed old rx ctx' hc hcall =>
    obtain ⟨rfl, rfl, htold⟩ := htells
    obtain ⟨h, seen, hdec, hkey, hobs, hdup, hrelay⟩ := observe_spec hcall
    obtain ⟨remembers, hspaced, hmeets⟩ := inv.recalls m
    -- cut what was recorded at the last time this packet was
    obtain ⟨before, others, hsplit, hlast⟩ := exists_last_of_mem (hmeets _ hmet)
    refine ⟨before, others, hsplit, hlast, ?_, ?_⟩
    · rcases remembers.observe hobs with ⟨rfl, -⟩ | ⟨-, -, hnotMem⟩
      · exact Seen.noConfusion (hrelay htold).1
      · rw [← hkey, hsplit] at hnotMem
        exact le_length_of_notMem_rtake hnotMem
    · rw [hsplit, ← List.take_append_drop historyLen others, List.append_cons, ← List.append_assoc]
        at hspaced
      exact hspaced.of_append.nodup ((List.length_take_le ..).trans (Nat.le_succ _))

end Inv

/-- The invariant holds after every run. -/
theorem inv_of_run (hfresh : net.Fresh) (run : Run Step net events net') : Inv events net' :=
  run.invariant hfresh.inv fun _ inv hstep => inv.step hstep

end Mesh

/-- **Managed flooding does not loop or multiply.** After every run of a fresh mesh, every
copy in the air is the frame of some origination but for what relays rewrite, and its hop
limit lies below its hop start by the relays on its path. And whenever a node is told to
relay a packet that it has originated, or received, before, its history has recorded four
hundred others since it last recorded that one. -/
theorem flooding_bounded (hfresh : net.Fresh) (run : Run Mesh.Step net events net') :
    (∀ c ∈ net'.air, (∃ n key seen, .originated n c.sent key seen ∈ events) ∧
      SameButRelay c.frame c.sent ∧
      ∃ h, Header.decode c.frame = some h ∧ h.hopLimit ≤ h.hopStart ∧
        h.hopStart.toNat - h.hopLimit.toNat = c.path.length) ∧
    ∀ past e rest n k, events = past ++ e :: rest → e.Tells n k → (∃ e' ∈ past, e'.Meets n k) →
      ∃ before others, recordings n past = before ++ k :: others ∧ k ∉ others ∧
        historyLen ≤ others.length ∧ (others.take historyLen).Nodup := by
  refine ⟨fun c hc => ?_, fun past e rest n k hevents htells hmet => ?_⟩
  · obtain ⟨horigin, hsame, h, hdec, hhops⟩ := (Mesh.inv_of_run hfresh run).air c hc
    refine ⟨horigin, hsame, h, hdec, ?_, by omega⟩
    rw [UInt8.le_iff_toNat_le]
    omega
  · subst hevents
    obtain ⟨t, t', hpast, hstep, -⟩ := run.step_at
    exact (Mesh.inv_of_run hfresh hpast).forgotten_of_tells hstep htells hmet

set_option maxRecDepth 4000 in
/-- Two nodes: the first originates a frame with three hops, the second is told to relay it
and does. The relayed copy in the air has one hop less, and one relay on its path. -/
theorem flooding_bounded_relayed :
    let ctx (n : Bool) : TmCtx := ⟨PacketHistory.empty, ⟨1000, 3600000, 0, 0⟩, .meshtasticShape,
      if n then 2 else 1, .client⟩
    let frame : List UInt8 := [2, 0, 0, 0, 1, 0, 0, 0, 7, 0, 0, 0, 0x63, 8, 0, 1]
    ∃ events net', Run Mesh.Step ⟨ctx, [], []⟩ events net' ∧
      ∃ c ∈ net'.air, c.sent = frame ∧ c.path = [true] ∧ SameButRelay c.frame frame ∧
        ∃ h, Header.decode c.frame = some h ∧ h.hopStart.toNat - h.hopLimit.toNat = 1 := by
  intro ctx frame
  have hfresh : (⟨ctx, [], []⟩ : Mesh Bool).Fresh := ⟨fun _ => rfl, rfl, rfl⟩
  have run : ∃ events net', Run Mesh.Step ⟨ctx, [], []⟩ events net' ∧
      ∃ c ∈ net'.air, c.sent = frame ∧ c.path = [true] :=
    ⟨_, _, .cons (@Mesh.Step.originate _ _ _ false frame _ _ rfl rfl rfl) <|
      .cons (@Mesh.Step.observe _ _ _ true _ 0 0 0 0 noReport _ _
        List.mem_cons_self rfl) <|
      .cons (@Mesh.Step.relay _ _ _ [] [] _ _ rfl rfl) .nil,
      _, List.mem_cons_of_mem _ List.mem_cons_self, rfl, rfl⟩
  obtain ⟨events, net', run, c, hc, hsent, hpath⟩ := run
  obtain ⟨-, hsame, h, hdec, -, hhops⟩ := (flooding_bounded hfresh run).1 c hc
  refine ⟨events, net', run, c, hc, hsent, hpath, hsent ▸ hsame, h, hdec, ?_⟩
  rw [hhops, hpath]
  rfl

end TetherMesh.Network
