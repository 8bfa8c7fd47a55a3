import TetherMesh.Groups.TagInput
import TetherMesh.Network.Delivery
import TetherMesh.Protocol.Keystream

/-!
# No two frames are sealed alike

Every cipher here takes its nonce from the packet identifier and the sender. Over any run,
with any losses of power, no two frames that stations build have both in common, so no two
share a counter block of the channel cipher, the nonce of a direct message, or the nonce of an
envelope. Frames that are relayed or sent again are not built anew.

## Main definitions

* `sentCalls` — the calls that built a frame in a run, in order
* `Apart` — what two calls seal under has nothing in common

## Main results

* `run_seals_apart`
-/

namespace TetherMesh.Network

open CApi CS Math Protocol

/-! ## What a nonce tells -/

/-- The upper 96 bits of a counter block are the identifier and the sender it belongs to. -/
theorem prefix_of_mem_counterBlocks {id fromNode : UInt32} {data : List UInt8} {counter : Block}
    (hdata : (chunks blockSize data).length ≤ 2 ^ 32)
    (h : counter ∈ counterBlocks (Protocol.nonce id fromNode 0) data) :
    beValue counter.toList / 2 ^ 32 = beValue (noncePrefix id fromNode) := by
  obtain ⟨i, hi, hvalue⟩ := beValue_of_mem_counterBlocks h
  have hprefix := beValue_noncePrefix_lt id fromNode
  have hzero : beValue (0 : UInt32).toLeBytes.toList = 0 := rfl
  rw [hvalue, beValue_nonce, hzero]
  omega

/-- The first four bytes of the nonce of a direct message are the identifier, and the sender
stands in the ninth to twelfth. -/
theorem byteAt_pkiNonce (id fromNode : UInt32) (extraNonce : Vector UInt8 4) {i : ℕ} (hi : i < 4) :
    byteAt (pkiNonce id extraNonce fromNode) i = byteAt id.toLeBytes i ∧
      byteAt (pkiNonce id extraNonce fromNode) (i + 8) = byteAt fromNode.toLeBytes i := by
  have hlt : i < ccmNonceLen := hi.trans (by norm_num)
  have hlt' : i + 8 < ccmNonceLen := (Nat.add_lt_add_right hi 8).trans (by norm_num)
  constructor
  · rw [pkiNonce, byteAt_updateBytes _ _ _ _ hlt, if_neg (by omega),
      byteAt_updateBytes _ _ _ _ hlt, if_neg (by omega), byteAt_updateBytes _ _ _ _ hlt,
      if_pos (by omega), Nat.sub_zero]
  · rw [pkiNonce, byteAt_updateBytes _ _ _ _ hlt', if_pos (by omega), Nat.add_sub_cancel]

/-- The nonce of a direct message determines its identifier and its sender. -/
theorem pkiNonce_injective {id id' fromNode fromNode' : UInt32}
    {extraNonce extraNonce' : Vector UInt8 4}
    (h : pkiNonce id extraNonce fromNode = pkiNonce id' extraNonce' fromNode') :
    id = id' ∧ fromNode = fromNode' := by
  constructor
  · refine UInt32.toLeBytes_injective (ext_byteAt fun i hi => ?_)
    rw [← (byteAt_pkiNonce id fromNode extraNonce hi).1, h,
      (byteAt_pkiNonce id' fromNode' extraNonce' hi).1]
  · refine UInt32.toLeBytes_injective (ext_byteAt fun i hi => ?_)
    rw [← (byteAt_pkiNonce id fromNode extraNonce hi).2, h,
      (byteAt_pkiNonce id' fromNode' extraNonce' hi).2]

/-! ## What was sent -/

variable {ι : Type*} {num : ι → UInt32} {key : TmKey} {seed : ι → UInt32}
  {net net' : Net ι} {events : List (NetEvent ι)} {call call' : EncodeCall}

/-- The call that built a frame, if one was sent. -/
def NetEvent.calls : NetEvent ι → List EncodeCall
  | did _ (.sent _ call) => [call]
  | _ => []

/-- The calls that built a frame, in order. -/
def sentCalls (events : List (NetEvent ι)) : List EncodeCall := events.flatMap NetEvent.calls

theorem mem_sentCalls (h : call ∈ sentCalls events) :
    ∃ n stored, .did n (.sent stored call) ∈ events := by
  obtain ⟨event, hmem, hcall⟩ := List.mem_flatMap.mp h
  cases event with
  | lost => exact absurd hcall List.not_mem_nil
  | did n e =>
    cases e with
    | sent stored call' =>
      obtain rfl := List.mem_singleton.mp hcall
      exact ⟨n, stored, hmem⟩
    | identifiers | heard | retired | reaped | asked | resent | relayed =>
      exact absurd hcall List.not_mem_nil

/-- Nothing is sealed under the same by two calls. -/
structure Apart (call call' : EncodeCall) : Prop where
  /-- Their channel frames are encrypted with different counter blocks. -/
  channel : ∀ data data', call.carried = some data → call'.carried = some data' →
    List.Disjoint (counterBlocks (Protocol.nonce call.id call.fromNode 0) (wrapped data))
      (counterBlocks (Protocol.nonce call'.id call'.fromNode 0) (wrapped data'))
  /-- Their direct messages have different nonces, whatever the extra ones. -/
  direct : ∀ extraNonce extraNonce',
    pkiNonce call.id extraNonce call.fromNode ≠ pkiNonce call'.id extraNonce' call'.fromNode
  /-- The envelopes in them have different nonces, whatever the epochs. -/
  group : ∀ epoch epoch',
    Groups.nonce call.fromNode call.id epoch ≠ Groups.nonce call'.fromNode call'.id epoch'

/-- What a channel frame wraps takes fewer blocks than the counter has room for. -/
theorem length_chunks_wrapped {data : Message.Data} (hpos : 0 < call.answer.1)
    (huses : call.Uses key) (hcarried : call.carried = some data) :
    (chunks blockSize (wrapped data)).length ≤ 2 ^ 32 := by
  have hlen := (EncodeCall.built_channel hpos huses hcarried).1
  rw [length_chunks]
  change ((wrapped data).length + 16 - 1) / 16 ≤ 2 ^ 32
  omega

/-- Calls that differ in identifier or sender are apart. -/
theorem apart_of_ne (hpos : 0 < call.answer.1) (huses : call.Uses key) (hpos' : 0 < call'.answer.1)
    (huses' : call'.Uses key) (hne : ¬ (call.id = call'.id ∧ call.fromNode = call'.fromNode)) :
    Apart call call' where
  channel data data' hdata hdata' counter hmem hmem' := by
    have hprefix := prefix_of_mem_counterBlocks (length_chunks_wrapped hpos huses hdata) hmem
    rw [prefix_of_mem_counterBlocks (length_chunks_wrapped hpos' huses' hdata') hmem'] at hprefix
    have hlen : (noncePrefix call'.id call'.fromNode).length =
        (noncePrefix call.id call.fromNode).length := by
      rw [length_noncePrefix, length_noncePrefix]
    obtain ⟨hid, hfrom⟩ := noncePrefix_inj (beValue_inj hlen hprefix)
    exact hne ⟨hid.symm, hfrom.symm⟩
  direct extraNonce extraNonce' h := hne (pkiNonce_injective h)
  group epoch epoch' h := hne (Groups.nonce_injective h).symm

variable [DecidableEq ι]

/-- **No two frames are sealed alike.** In every run of stations with different numbers, with
any losses of frames and of power, the frames that are built are pairwise apart. What a channel
frame wraps is encrypted with its counter blocks, none of them twice. -/
theorem run_seals_apart (hnum : Function.Injective num) (hfresh : net.Fresh seed)
    (run : Run (Net.Step num key) net events net') :
    (sentCalls events).Pairwise Apart ∧
      ∀ call ∈ sentCalls events, ∀ data, call.carried = some data →
        let nonce := Protocol.nonce call.id call.fromNode 0
        built call.answer =
            call.origin.encode.toList ++ ctrApply key.bytes nonce (wrapped data) ∧
          ctrApply key.bytes nonce (wrapped data) =
            xorInto (wrapped data) ((counterBlocks nonce (wrapped data)).flatMap fun counter =>
              ((Aes128.new key.bytes).encryptBlock counter).toList) ∧
          (counterBlocks nonce (wrapped data)).Nodup := by
  constructor
  · induction run with
    | nil => exact .nil
    | @snoc events t u event run hstep ih =>
      have inv := Net.inv_of_run hfresh (run.snoc hstep)
      have hquiet (hcalls : event.calls = []) : (sentCalls (events ++ [event])).Pairwise Apart := by
        rwa [sentCalls, List.flatMap_append, List.flatMap_singleton, hcalls, List.append_nil]
      cases event with
      | lost => exact hquiet rfl
      | did n e =>
        cases e with
        | identifiers | heard | retired | reaped | asked | resent | relayed => exact hquiet rfl
        | sent stored call =>
          rw [sentCalls, List.flatMap_append, List.flatMap_singleton]
          refine List.pairwise_append.mpr
            ⟨ih, List.pairwise_singleton _ _, fun c hc c' hc' => ?_⟩
          obtain rfl := List.mem_singleton.mp hc'
          obtain ⟨m, stored', hmem⟩ := mem_sentCalls hc
          obtain ⟨hown, huses, hpos⟩ :=
            inv.justified (List.mem_append_right events (List.mem_singleton_self _))
          obtain ⟨hown', huses', hpos'⟩ := inv.justified (List.mem_append_left _ hmem)
          refine apart_of_ne hpos' huses' hpos huses fun ⟨hid, hfrom⟩ => ?_
          -- of one station, the later call has the larger identifier
          obtain rfl : m = n := hnum (hown'.symm.trans (hfrom.trans hown))
          have hstation := inv.station m
          rw [Net.history_snoc_self] at hstation
          exact UInt32.ne_of_lt (hstation.id_lt_of_snoc (Net.mem_history.mpr hmem)) hid
  · intro call hcall data hcarried nonce
    obtain ⟨n, stored, hmem⟩ := mem_sentCalls hcall
    obtain ⟨-, huses, hpos⟩ := (Net.inv_of_run hfresh run).justified hmem
    exact ⟨(EncodeCall.built_channel hpos huses hcarried).2, ctrApply_eq_xorInto _ _ _,
      nodup_counterBlocks _ (length_chunks_wrapped hpos huses hcarried)⟩

/-- The text of the first station and one that the second sends under the same identifier. -/
theorem run_seals_apart_pair : ∃ events stored call net,
    Run (Net.Step pairNum pairKey) pair (events ++ [.did true (.sent stored call)]) net ∧
      call.id = pairText.id ∧ Apart pairText call ∧
      ∃ data, pairText.carried = some data ∧
        (counterBlocks (Protocol.nonce 7 1 0) (wrapped data)).Nodup := by
  obtain ⟨events, net, run, -, -, -, hready, -, -, ⟨stored', hsent⟩, -⟩ := exists_pair_waiting
  let call : EncodeCall :=
    .text 2 1 7 3 8 0 (some pairKey) (some [104, 105]) (some (List.replicate 64 0))
  have hpos : 0 < call.answer.1 := by
    refine tmTextEncode_pos ?_ ?_
    · rw [length_hi]
      norm_num
    · rw [length_hi, List.length_replicate]
      norm_num
  obtain ⟨stored, net', hstep, -⟩ :=
    exists_sent hready (rfl : call.id = 7) (rfl : _ = pairNum true) rfl hpos (.inl rfl)
  have hrun := run.snoc hstep
  obtain ⟨hapart, hblocks⟩ := run_seals_apart pairNum_injective pair_fresh hrun
  have hfirst : pairText ∈ sentCalls (events ++ [.did true (.sent stored call)]) :=
    List.mem_flatMap_of_mem (List.mem_append_left _ hsent) (List.mem_singleton_self _)
  rw [sentCalls, List.flatMap_append, List.pairwise_append] at hapart
  exact ⟨events, stored, call, net', hrun, rfl,
    hapart.2.2 _ (List.mem_flatMap_of_mem hsent (List.mem_singleton_self _)) _
      (List.mem_flatMap_of_mem (List.mem_singleton_self _) (List.mem_singleton_self _)),
    _, rfl, (hblocks pairText hfirst _ rfl).2.2⟩

end TetherMesh.Network
