import Mathlib.Combinatorics.SimpleGraph.Basic
import TetherMesh.CApi.DutyBudget
import TetherMesh.Network.FloodingRuns

/-!
# A mesh whose nodes hear their neighbours

The mesh on the ground: a graph says which nodes hear each other. Whatever a node puts on the
air reaches each of its neighbours, once, at any later time and in any order. Every node has a
context that `tm_ctx_init` made, and calls the interface as its contract says: it reports a
frame as heard from another relay only while it has that frame queued itself. It may then drop
what it has queued.

## Main definitions

* `Copy.packet` — the packet a copy belongs to
* `Ground`, `Ground.Step` — a mesh and the receptions still to come
* `Met` — a node has met a packet

## Main results

* `Ground.run_mesh` — a run on the ground is a run of the mesh
* `Ground.inv_of_run` — what holds of every reachable state
-/

namespace TetherMesh.Network

open CApi CS Math Protocol

variable {ι : Type*}

/-! ## Copies -/

/-- The packet a copy belongs to. -/
def Copy.packet (c : Copy ι) : Option PacketKey :=
  (Header.decode c.frame).map fun h => (h.fromNode, h.id)

theorem Copy.packet_eq {c : Copy ι} {h : Header} (hdec : Header.decode c.frame = some h) :
    c.packet = some (h.fromNode, h.id) := by
  rw [packet, hdec, Option.map_some]

/-- Relays leave the packet and the hop count it started with. -/
theorem header_of_sameButRelay {frame sent : List UInt8} (hsame : SameButRelay frame sent)
    {h h' : Header} (hdec : Header.decode frame = some h) (hdec' : Header.decode sent = some h') :
    (h.fromNode, h.id) = (h'.fromNode, h'.id) ∧ h.hopStart = h'.hopStart := by
  obtain ⟨head, rest, rfl, rfl⟩ := Header.decode_eq_some_iff.mp hdec
  obtain ⟨head', rest', rfl, rfl⟩ := Header.decode_eq_some_iff.mp hdec'
  have hread (v : Vector UInt8 headerLen) (xs : List UInt8) {i : ℕ} (hi : i < headerLen) :
      (v.toList ++ xs)[i]? = some v[i] := by
    rw [List.getElem?_append_left (by rwa [Vector.length_toList]), getElem?_toList v hi]
  have hbyte {i : ℕ} (hi : i < headerLen) (h12 : i ≠ 12) (h15 : i ≠ 15) : head[i] = head'[i] := by
    have heq := hsame.byte_eq i h12 h15
    rw [hread head rest hi, hread head' rest' hi] at heq
    exact Option.some.inj heq
  have hflags : head[12] &&& (0xF8 : UInt8) = head'[12] &&& (0xF8 : UInt8) := by
    have heq := hsame.flags_eq
    rw [hread head rest (by decide), hread head' rest' (by decide)] at heq
    exact Option.some.inj heq
  -- the bits of the start lie within those that relays leave
  have hmask : ∀ b : UInt8, b &&& Header.hopStartMask = (b &&& 0xF8) &&& Header.hopStartMask :=
    Header.forall_byte (by decide +kernel)
  constructor
  · simp only [Header.ofBytes]
    rw [hbyte (by decide : 4 < headerLen), hbyte (by decide : 5 < headerLen),
      hbyte (by decide : 6 < headerLen), hbyte (by decide : 7 < headerLen),
      hbyte (by decide : 8 < headerLen), hbyte (by decide : 9 < headerLen),
      hbyte (by decide : 10 < headerLen), hbyte (by decide : 11 < headerLen)] <;> decide
  · simp only [Header.ofBytes]
    rw [hmask, hflags, ← hmask]

/-- A relay leaves the packet. -/
theorem packet_relayed {c : Copy ι} {h : Header} (hdec : Header.decode c.frame = some h)
    {relayHopLimit : UInt8} {ourNodeNum : UInt32} {frame' : List UInt8}
    (hcall : tmRelayPrepare (some c.frame) relayHopLimit ourNodeNum = (tmOk, some frame'))
    (sent : List UInt8) (path : List ι) : (⟨frame', sent, path⟩ : Copy ι).packet = c.packet := by
  obtain ⟨head, body, hframe, rfl⟩ := Header.decode_eq_some_iff.mp hdec
  rw [hframe, tmRelayPrepare_append] at hcall
  obtain rfl := Option.some.inj (Prod.mk.inj hcall).2
  rw [Copy.packet_eq (Header.decode_append _ body), Copy.packet_eq hdec, ofBytes_relayedHead]

/-! ## Meeting a packet -/

section Met

variable {events : List (MeshEvent ι)} {e : MeshEvent ι} {n : ι} {k : PacketKey}

/-- The node has originated or received the packet. -/
def Met (events : List (MeshEvent ι)) (k : PacketKey) (n : ι) : Prop :=
  ∃ e ∈ events, e.Meets n k

theorem met_snoc : Met (events ++ [e]) k n ↔ Met events k n ∨ e.Meets n k := by
  simp only [Met, List.mem_append, List.mem_singleton, or_and_right, exists_or, exists_eq_left]

theorem Met.snoc (h : Met events k n) : Met (events ++ [e]) k n := met_snoc.mpr (.inl h)

/-- What a node recorded, it has met. -/
theorem met_of_mem_recordings [DecidableEq ι] (h : k ∈ recordings n events) : Met events k n := by
  obtain ⟨e, hmem, hrecorded⟩ := List.mem_flatMap.mp h
  refine ⟨e, hmem, ?_⟩
  cases e with
  | originated m frame key seen =>
    rw [MeshEvent.recorded] at hrecorded
    split_ifs at hrecorded with hboth
    · exact ⟨hboth.1, (List.mem_singleton.mp hrecorded).symm⟩
    · exact absurd hrecorded List.not_mem_nil
  | observed m rx =>
    rw [MeshEvent.recorded] at hrecorded
    split_ifs at hrecorded with hboth
    · exact ⟨hboth.1, (List.mem_singleton.mp hrecorded).symm⟩
    · exact absurd hrecorded List.not_mem_nil
  | relayed | cancelled | lost | retuned => exact absurd hrecorded List.not_mem_nil

end Met

/-! ## The ground -/

/-- A mesh, and the receptions still to come: a node, and the copy that is to reach it. -/
structure Ground (ι : Type*) where
  mesh : Mesh ι
  due : List (ι × Copy ι)

/-- The neighbours of a node, each once. -/
structure Hearers (G : SimpleGraph ι) (n : ι) (next : List ι) : Prop where
  nodup : next.Nodup
  mem_iff : ∀ m, m ∈ next ↔ G.Adj n m

/-- A copy is to reach each of these. -/
def receptions (next : List ι) (c : Copy ι) : List (ι × Copy ι) := next.map fun m => (m, c)

theorem mem_receptions {next : List ι} {c : Copy ι} {r : ι × Copy ι} :
    r ∈ receptions next c ↔ r.1 ∈ next ∧ r.2 = c := by
  rw [receptions, List.mem_map]
  constructor
  · rintro ⟨m, hm, rfl⟩
    exact ⟨hm, rfl⟩
  · rintro ⟨hm, rfl⟩
    exact ⟨r.1, hm, rfl⟩

/-- Every node has just been initialised, and nothing is in the air. -/
structure Ground.Started (num : ι → UInt32) (t : Ground ι) : Prop where
  ctx_eq : ∀ n, ∃ old, tmCtxInit (some old) tmAbiVersion (num n) = (tmOk, some (t.mesh.ctx n))
  air_eq : t.mesh.air = []
  offers_eq : t.mesh.offers = []
  due_eq : t.due = []

/-- What will be received is in the air. -/
def Ground.InAir (t : Ground ι) : Prop := ∀ r ∈ t.due, r.2 ∈ t.mesh.air

theorem Ground.Started.fresh {num : ι → UInt32} {t : Ground ι} (h : t.Started num) :
    t.mesh.Fresh where
  history_eq n := tmCtxInit_history (h.ctx_eq n).choose_spec
  air_eq := h.air_eq
  offers_eq := h.offers_eq

variable [DecidableEq ι]

/-- One step on the ground, with any signal and clock. No frame is an hour long. -/
inductive Ground.Step (G : SimpleGraph ι) : Ground ι → MeshEvent ι → Ground ι → Prop
  | originate {t : Ground ι} {n : ι} {frame : List UInt8} {h : Header} {ctx' : TmCtx}
      {next : List ι} :
      Hearers G n next → Header.decode frame = some h → h.hopLimit = h.hopStart →
      tmNoteOriginated (some (t.mesh.ctx n)) h.fromNode h.id = (tmOk, some ctx') →
      Step G t
        (.originated n frame (h.fromNode, h.id)
          ((t.mesh.ctx n).history.observe h.fromNode h.id).1)
        ⟨{ t.mesh with
            ctx := Function.update t.mesh.ctx n ctx'
            air := t.mesh.air ++ [⟨frame, frame, []⟩] },
          t.due ++ receptions next ⟨frame, frame, []⟩⟩
  | hear {t : Ground ι} {before after : List (ι × Copy ι)} {n : ι} {c : Copy ι} {snrQ4 : Int16}
      {airtimeUs : Micros} {nowUs : UInt64} {heardRelayed : UInt8} {old rx : TmRx} {ctx' : TmCtx} :
      t.due = before ++ (n, c) :: after → airtimeUs.toNat ≤ 3600000000 →
      (heardRelayed ≠ 0 → ∃ o ∈ t.mesh.offers, o.node = n ∧ o.copy.packet = c.packet) →
      tmRxObserve (some (t.mesh.ctx n)) (some c.frame) snrQ4 airtimeUs nowUs heardRelayed
        (some old) = (tmOk, some ctx', some rx) →
      Step G t (.observed n rx)
        ⟨{ t.mesh with
            ctx := Function.update t.mesh.ctx n ctx'
            offers :=
              if rx.relay = 1 then t.mesh.offers ++ [⟨n, c, rx.relayHopLimit⟩]
              else t.mesh.offers },
          before ++ after⟩
  | relay {t : Ground ι} {before after : List (Offer ι)} {o : Offer ι} {frame' : List UInt8}
      {next : List ι} :
      Hearers G o.node next → t.mesh.offers = before ++ o :: after →
      tmRelayPrepare (some o.copy.frame) o.relayHopLimit (t.mesh.ctx o.node).nodeNum =
        (tmOk, some frame') →
      Step G t (.relayed o)
        ⟨{ t.mesh with
            air := t.mesh.air ++ [⟨frame', o.copy.sent, o.copy.path ++ [o.node]⟩]
            offers := before ++ after },
          t.due ++ receptions next ⟨frame', o.copy.sent, o.copy.path ++ [o.node]⟩⟩
  | cancel {t : Ground ι} {before after : List (Offer ι)} {o : Offer ι} :
      t.mesh.offers = before ++ o :: after →
      Step G t (.cancelled o) ⟨{ t.mesh with offers := before ++ after }, t.due⟩
  /-- The outbox is asked for what is due, with the context to ask for the duty cycle. -/
  | ask {t : Ground ι} {n : ι} {nowUs : UInt64} {airtimeUs : Micros} {out : Ptr (List UInt8)}
      {outAttempt : Ptr UInt8} {asked : Option Micros} {ob ob' : TmOutbox} {ctx' : TmCtx} :
      NodeCall.Step ⟨t.mesh.ctx n, ob⟩ (.nextDue nowUs airtimeUs out outAttempt, asked)
        ⟨ctx', ob'⟩ →
      Step G t (.retuned n) ⟨{ t.mesh with ctx := Function.update t.mesh.ctx n ctx' }, t.due⟩

namespace Ground

variable {G : SimpleGraph ι} {t t' : Ground ι} {events : List (MeshEvent ι)} {e : MeshEvent ι}
  {n : ι}
  {c : Copy ι} {k : PacketKey}

/-- A step on the ground is a step of the mesh. -/
theorem Step.mesh (hair : t.InAir) (hstep : Step G t e t') :
    Mesh.Step t.mesh e t'.mesh ∧ t'.InAir := by
  cases hstep with
  | originate _ hdec hhops hcall =>
    refine ⟨.originate hdec hhops hcall, fun r hr => ?_⟩
    rcases List.mem_append.mp hr with hold | hnew
    · exact List.mem_append_left _ (hair r hold)
    · rw [(mem_receptions.mp hnew).2]
      exact List.mem_append_right _ (List.mem_singleton_self _)
  | hear hdue _ _ hcall =>
    refine ⟨.observe (hair _ (hdue ▸ List.mem_append_right _ List.mem_cons_self)) hcall,
      fun r hr => hair r ?_⟩
    rw [hdue]
    exact List.Sublist.mem hr (List.Sublist.append_left (List.sublist_cons_self _ _) _)
  | relay _ hoffers hcall =>
    refine ⟨.relay hoffers hcall, fun r hr => ?_⟩
    rcases List.mem_append.mp hr with hold | hnew
    · exact List.mem_append_left _ (hair r hold)
    · rw [(mem_receptions.mp hnew).2]
      exact List.mem_append_right _ (List.mem_singleton_self _)
  | cancel hoffers => exact ⟨.cancel hoffers, hair⟩
  | ask hcall =>
    refine ⟨.retune ?_, hair⟩
    obtain ⟨duty, rfl⟩ := CtxCall.exists_duty_outboxNextDue (Prod.mk.inj hcall.2).1
    rfl

/-- **A run on the ground is a run of the mesh.** -/
theorem run_mesh (hair : t.InAir) (run : Run (Step G) t events t') :
    Run Mesh.Step t.mesh events t'.mesh ∧ t'.InAir := by
  induction run with
  | nil => exact ⟨.nil, hair⟩
  | snoc _ hstep ih =>
    obtain ⟨hmesh, hair'⟩ := hstep.mesh ih.2
    exact ⟨ih.1.snoc hmesh, hair'⟩

/-! ## What holds of every reachable state -/

/-- What holds on the ground after `events`. -/
structure Inv (events : List (MeshEvent ι)) (t : Ground ι) : Prop where
  mesh : t.mesh.Inv events
  air : t.InAir
  /-- No duty cycle was charged. -/
  duty : ∀ n, Uncharged (t.mesh.ctx n).duty
  /-- A frame that was originated had a header that names its packet. -/
  origin : ∀ n frame key seen, .originated n frame key seen ∈ events →
    ∃ h, Header.decode frame = some h ∧ (h.fromNode, h.id) = key

theorem Started.inv {num : ι → UInt32} (h : t.Started num) : Inv [] t where
  mesh := h.fresh.inv
  air r hr := absurd (h.due_eq ▸ hr) List.not_mem_nil
  duty n := by
    obtain ⟨old, hinit⟩ := h.ctx_eq n
    rw [tmCtxInit_eq] at hinit
    rw [← Option.some.inj (Prod.mk.inj hinit).2]
    exact ⟨rfl, hourBudget⟩
  origin _ _ _ _ hmem := absurd hmem List.not_mem_nil

/-- One node's duty cycle was asked, or none. -/
theorem uncharged_update {ctx : ι → TmCtx} (h : ∀ n, Uncharged (ctx n).duty) {ctx' : TmCtx}
    (hn : Uncharged ctx'.duty) (m : ι) : Uncharged (Function.update ctx n ctx' m).duty := by
  by_cases hm : m = n
  · subst hm
    rwa [Function.update_self]
  · rw [Function.update_of_ne hm]
    exact h m

theorem Inv.step (inv : Inv events t) (hstep : Step G t e t') : Inv (events ++ [e]) t' := by
  obtain ⟨hmesh, hair⟩ := hstep.mesh inv.air
  refine ⟨inv.mesh.step hmesh, hair, ?_, fun n frame key seen hmem => ?_⟩
  · cases hstep with
    | originate hnext hdec hhops hcall =>
      cases hcall
      exact uncharged_update inv.duty (inv.duty _)
    | hear hdue hlen hheard hcall =>
      obtain ⟨hsame | hasked, -⟩ := tmRxObserve_duty hcall
      · exact uncharged_update inv.duty (hsame ▸ inv.duty _)
      · exact uncharged_update inv.duty (hasked ▸ (inv.duty _).ask _ _)
    | relay | cancel => exact inv.duty
    | ask hcall => exact uncharged_update inv.duty (NodeCall.uncharged_step (inv.duty _) hcall).1
  · rcases List.mem_append.mp hmem with hold | hnew
    · exact inv.origin n frame key seen hold
    · rw [List.mem_singleton] at hnew
      cases hstep with
      | originate _ hdec _ _ =>
        cases hnew
        exact ⟨_, hdec, rfl⟩
      | hear | relay | cancel | ask => cases hnew

theorem inv_of_run {num : ι → UInt32} (hstart : t.Started num) (run : Run (Step G) t events t') :
    Inv events t' :=
  run.invariant hstart.inv fun _ inv hstep => inv.step hstep

end Ground

/-! ## What histories record -/

/-- What is recorded only grows. -/
theorem length_recordings_le (n : ι) (events : List (MeshEvent ι))
    (e : MeshEvent ι) :
    (recordings n events).length ≤ (recordings n (events ++ [e])).length := by
  rw [recordings_snoc, List.length_append]
  exact Nat.le_add_right _ _

/-- At most one packet is recorded for an event. -/
theorem length_recordings_le_length (n : ι) (events : List (MeshEvent ι)) :
    (recordings n events).length ≤ events.length := by
  induction events using List.reverseRecOn with
  | nil => exact Nat.le_refl 0
  | append_singleton events e ih =>
    have hone : (e.recorded n).length ≤ 1 := by
      cases e with
      | originated | observed =>
        rw [MeshEvent.recorded]
        split_ifs <;> simp
      | relayed | cancelled | lost | retuned => exact Nat.zero_le 1
    rw [recordings_snoc, List.length_append, List.length_append, List.length_singleton]
    exact Nat.add_le_add ih hone

/-! ## Three nodes -/

/-- A line of three nodes. -/
def line : SimpleGraph (Fin 3) where
  Adj m n := m.val + 1 = n.val ∨ n.val + 1 = m.val
  symm := ⟨fun _ _ => Or.symm⟩
  loopless := ⟨fun n => by simp⟩

/-- Three nodes that have just been initialised. -/
def lineStart : Ground (Fin 3) := ⟨⟨fun n => freshCtx n.val.toUInt32, [], []⟩, []⟩

/-- A broadcast of node 1, with one hop. -/
def lineFrame : List UInt8 := [0xFF, 0xFF, 0xFF, 0xFF, 1, 0, 0, 0, 7, 0, 0, 0, 0x21, 8, 0, 1]

theorem lineStart_started : lineStart.Started fun n => n.val.toUInt32 :=
  ⟨fun _ => ⟨freshCtx 0, rfl⟩, rfl, rfl, rfl⟩

end TetherMesh.Network
