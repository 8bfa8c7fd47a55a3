import TetherMesh.Math.Trails
import TetherMesh.Network.Ground

/-!
# Flooding leaves no node out

A node that meets a packet for the first time is told to relay it, unless the copy has no hops
left. That copy has come over a path of its own nodes, one for each hop it was sent with. So if
every node relays the packet as it is told, then once nothing is left to be received or relayed
every node that a path leads to has met the packet, provided no path from the origin is longer
than the hops by more than one.

If nodes drop what they have heard others relay, a node behind one of them can be left out: of
four nodes, let the first be heard by the second and the third, who hear each other, and the
fourth by the second alone. The third relays first, and the second drops its own.

A copy that came the long way may arrive first, and a copy with more hops left is then a
duplicate: that is why all paths count, and not only the shortest.

## Main definitions

* `Spreads` — how far a packet has come

## Main results

* `flood_reaches_all`
-/

namespace TetherMesh.Network

open CApi CS Math Protocol

variable {ι : Type*} {G : SimpleGraph ι} {a m n : ι} {k : PacketKey} {limit : ℕ}
  {events events' : List (MeshEvent ι)} {e : MeshEvent ι} {t t' : Ground ι}

/-! ## Meeting a packet -/

/-- While the history has room for all it recorded, nothing is to be relayed twice. -/
theorem Mesh.Inv.not_tells_of_met [DecidableEq ι] {net net' : Mesh ι} (inv : net.Inv events)
    (hstep : Mesh.Step net e net') (hroom : (recordings n events).length ≤ historyLen)
    (hmet : Met events k n) : ¬ e.Tells n k := by
  intro htells
  obtain ⟨before, others, hsplit, -, hlen, -⟩ := inv.forgotten_of_tells hstep htells hmet
  rw [hsplit, List.length_append, List.length_cons] at hroom
  omega

/-- **A new packet is to be relayed while it has hops.** -/
theorem told_or_spent {ctx ctx' : TmCtx} {frame : List UInt8} {h : Header} {snrQ4 : Int16}
    {airtimeUs : Micros} {nowUs : UInt64} {old rx : TmRx} (hduty : Uncharged ctx.duty)
    (hlen : airtimeUs.toNat ≤ 3600000000) (hdec : Header.decode frame = some h)
    (hnew : (ctx.history.observe h.fromNode h.id).1 = .new)
    (hcall : tmRxObserve (some ctx) (some frame) snrQ4 airtimeUs nowUs 0 (some old) =
      (tmOk, some ctx', some rx)) : rx.relay = 1 ∨ h.hopLimit = 0 := by
  rw [tmRxObserve_decoded hdec] at hcall
  cases hcall
  rcases shouldRelay_cases (observedOf ctx h snrQ4 airtimeUs 0) ctx.role ctx.window ctx.duty
    nowUs with ⟨hdup, -⟩ | ⟨-, hhops, -⟩ | ⟨-, -, hdefer, -⟩ | ⟨-, -, -, ⟨hrefused, -⟩ | ⟨-, heq⟩⟩
  · rw [observedOf, hnew] at hdup
    cases hdup
  · exact .inr hhops
  · cases hdefer
  · rw [observedOf, hduty.permits hlen] at hrefused
    cases hrefused
  · rw [heq]
    exact .inl rfl

/-! ## How far a packet has come -/

/-- A node has handed the packet on, or will: it went on the air, or is to, or the copy that
came had no hops left. -/
def Handed (G : SimpleGraph ι) (a : ι) (k : PacketKey) (limit : ℕ) (events : List (MeshEvent ι))
    (t : Ground ι) (n : ι) : Prop :=
  (∀ m, G.Adj n m → Met events k m ∨ ∃ c, (m, c) ∈ t.due ∧ c.packet = some k) ∨
    (∃ o ∈ t.mesh.offers, o.node = n ∧ o.copy.packet = some k) ∨
    Trail G (Met events k) a n (limit + 1)

/-- What was handed on stays so while nothing that matters is lost. -/
theorem Handed.mono (h : Handed G a k limit events t n)
    (hmet : ∀ m, Met events k m → Met events' k m)
    (hdue : ∀ m c, (m, c) ∈ t.due → c.packet = some k → Met events' k m ∨ (m, c) ∈ t'.due)
    (hoffers : ∀ o ∈ t.mesh.offers, o.node = n → o.copy.packet = some k → o ∈ t'.mesh.offers) :
    Handed G a k limit events' t' n := by
  rcases h with hair | ⟨o, ho, hnode, hpacket⟩ | hspent
  · refine .inl fun m hadj => ?_
    rcases hair m hadj with hold | ⟨c, hc, hpacket⟩
    · exact .inl (hmet m hold)
    · exact (hdue m c hc hpacket).imp_right fun hmem => ⟨c, hmem, hpacket⟩
  · exact .inr (.inl ⟨o, hoffers o ho hnode hpacket, hnode, hpacket⟩)
  · exact .inr (.inr (hspent.mono hmet))

/-- Every copy of a packet has come over a path of nodes that have met it, and whoever has met
it hands it on. -/
structure Spreads (G : SimpleGraph ι) (a : ι) (k : PacketKey) (limit : ℕ)
    (events : List (MeshEvent ι)) (t : Ground ι) : Prop where
  due : ∀ r ∈ t.due, r.2.packet = some k →
    ∃ n, G.Adj n r.1 ∧ Trail G (Met events k) a n r.2.path.length
  offers : ∀ o ∈ t.mesh.offers, o.copy.packet = some k →
    Trail G (Met events k) a o.node (o.copy.path.length + 1)
  handed : ∀ n, Met events k n → Handed G a k limit events t n

namespace Spreads

/-- A step in which no node meets the packet, nothing due is received and nothing is relayed. -/
theorem mono (h : Spreads G a k limit events t) (hmet : ∀ m, ¬ e.Meets m k)
    (hdue : ∀ r, r ∈ t'.due ∧ r.2.packet = some k ↔ r ∈ t.due ∧ r.2.packet = some k)
    (hoffers : ∀ o, o ∈ t'.mesh.offers ∧ o.copy.packet = some k ↔
      o ∈ t.mesh.offers ∧ o.copy.packet = some k) :
    Spreads G a k limit (events ++ [e]) t' where
  due r hr hpacket := by
    obtain ⟨n, hadj, htrail⟩ := h.due r ((hdue r).mp ⟨hr, hpacket⟩).1 hpacket
    exact ⟨n, hadj, htrail.mono fun _ => Met.snoc⟩
  offers o ho hpacket :=
    (h.offers o ((hoffers o).mp ⟨ho, hpacket⟩).1 hpacket).mono fun _ => Met.snoc
  handed n hn := by
    refine (h.handed n ((met_snoc.mp hn).resolve_right (hmet n))).mono (fun _ => Met.snoc) ?_ ?_
    · exact fun m c hc hpacket => .inr ((hdue (m, c)).mpr ⟨hc, hpacket⟩).1
    · exact fun o ho _ hpacket => ((hoffers o).mpr ⟨ho, hpacket⟩).1

/-- **A reception** of the packet: a node that had not met it is told to relay it, or the copy
had no hops left. -/
theorem hear (h : Spreads G a k limit events t) {before after : List (ι × Copy ι)} {c : Copy ι}
    (hdue : t.due = before ++ (n, c) :: after) (hpacket : c.packet = some k) {rx : TmRx}
    (hrx : packetOf rx = k) (hdue' : t'.due = before ++ after)
    (hoffers' : t'.mesh.offers = if rx.relay = 1 then t.mesh.offers ++ [⟨n, c, rx.relayHopLimit⟩]
      else t.mesh.offers)
    (htold : rx.relay = 1 → ¬ Met events k n)
    (hnew : ¬ Met events k n → rx.relay = 1 ∨ c.path.length = limit) :
    Spreads G a k limit (events ++ [.observed n rx]) t' := by
  have hmet : Met (events ++ [.observed n rx]) k n := met_snoc.mpr (.inr ⟨rfl, hrx⟩)
  have hmem : (n, c) ∈ t.due := hdue ▸ List.mem_append_right _ List.mem_cons_self
  have hgrows (hout : ¬ Met events k n) :
      Trail G (Met (events ++ [.observed n rx]) k) a n (c.path.length + 1) := by
    obtain ⟨m, hadj, htrail⟩ := h.due _ hmem hpacket
    exact htrail.concat hadj hout (fun _ => Met.snoc) hmet
  refine ⟨fun r hr hr' => ?_, fun o ho ho' => ?_, fun m hm => ?_⟩
  · rw [hdue'] at hr
    obtain ⟨m, hadj, htrail⟩ := h.due r
      (hdue ▸ List.Sublist.mem hr (List.Sublist.append_left (List.sublist_cons_self _ _) _)) hr'
    exact ⟨m, hadj, htrail.mono fun _ => Met.snoc⟩
  · rw [hoffers'] at ho
    split_ifs at ho with hrelay
    · rcases List.mem_append.mp ho with hold | hlast
      · exact (h.offers o hold ho').mono fun _ => Met.snoc
      · rw [List.mem_singleton.mp hlast]
        exact hgrows (htold hrelay)
    · exact (h.offers o ho ho').mono fun _ => Met.snoc
  · by_cases hm' : Met events k m
    · -- the only reception that is gone is that of a node which has met the packet now
      refine (h.handed m hm').mono (fun _ => Met.snoc) (fun v d hd _ => ?_) fun o ho _ _ => ?_
      · rw [hdue, List.mem_append, List.mem_cons] at hd
        rw [hdue']
        rcases hd with hd | hd | hd
        · exact .inr (List.mem_append_left _ hd)
        · cases hd
          exact .inl hmet
        · exact .inr (List.mem_append_right _ hd)
      · rw [hoffers']
        split_ifs
        · exact List.mem_append_left _ ho
        · exact ho
    · obtain rfl : n = m := ((met_snoc.mp hm).resolve_left hm').1
      rcases hnew hm' with hrelay | hspent
      · refine .inr (.inl ⟨⟨n, c, rx.relayHopLimit⟩, ?_, rfl, hpacket⟩)
        rw [hoffers', if_pos hrelay]
        exact List.mem_append_right _ (List.mem_singleton_self _)
      · exact .inr (.inr (hspent ▸ hgrows hm'))

/-- A reception of another packet. -/
theorem hear_other (h : Spreads G a k limit events t) {before after : List (ι × Copy ι)}
    {c : Copy ι} (hdue : t.due = before ++ (n, c) :: after) (hother : c.packet ≠ some k) {rx : TmRx}
    (hrx : packetOf rx ≠ k) (hdue' : t'.due = before ++ after)
    (hoffers' : t'.mesh.offers = if rx.relay = 1 then t.mesh.offers ++ [⟨n, c, rx.relayHopLimit⟩]
      else t.mesh.offers) :
    Spreads G a k limit (events ++ [.observed n rx]) t' := by
  refine h.mono (fun m hmeets => hrx hmeets.2) (fun r => ?_) fun o => ?_
  · rw [hdue, hdue', List.mem_append, List.mem_append, List.mem_cons]
    constructor
    · exact And.imp_left (Or.imp_right .inr)
    · rintro ⟨hr | rfl | hr, hr'⟩
      · exact ⟨.inl hr, hr'⟩
      · exact absurd hr' hother
      · exact ⟨.inr hr, hr'⟩
  · rw [hoffers']
    split_ifs
    · rw [List.mem_append, or_and_right, or_iff_left]
      rintro ⟨hlast, ho⟩
      rw [List.mem_singleton.mp hlast] at ho
      exact hother ho
    · exact Iff.rfl

/-- **The origin** hands the packet to its neighbours. -/
theorem originate (h : Spreads G a k limit events t) {frame : List UInt8} {seen : Seen}
    (hframe : (⟨frame, frame, []⟩ : Copy ι).packet = some k) {next : List ι}
    (hnext : Hearers G a next) (hdue : t'.due = t.due ++ receptions next ⟨frame, frame, []⟩)
    (hoffers : t'.mesh.offers = t.mesh.offers) :
    Spreads G a k limit (events ++ [.originated a frame k seen]) t' where
  due r hr hpacket := by
    rcases List.mem_append.mp (hdue ▸ hr) with hold | hnew
    · obtain ⟨n, hadj, htrail⟩ := h.due r hold hpacket
      exact ⟨n, hadj, htrail.mono fun _ => Met.snoc⟩
    · obtain ⟨hmem, hcopy⟩ := mem_receptions.mp hnew
      rw [hcopy]
      exact ⟨a, (hnext.mem_iff _).mp hmem, .nil (met_snoc.mpr (.inr ⟨rfl, rfl⟩))⟩
  offers o ho hpacket := (h.offers o (hoffers ▸ ho) hpacket).mono fun _ => Met.snoc
  handed n hn := by
    by_cases hna : n = a
    · subst hna
      exact .inl fun m hadj => .inr
        ⟨_, hdue ▸ List.mem_append_right _
          (mem_receptions.mpr ⟨(hnext.mem_iff m).mpr hadj, rfl⟩), hframe⟩
    · refine (h.handed n ((met_snoc.mp hn).resolve_right fun hmeets => hna hmeets.1.symm)).mono
        (fun _ => Met.snoc) (fun m c hc _ => .inr (hdue ▸ List.mem_append_left _ hc)) ?_
      exact fun o ho _ _ => hoffers ▸ ho

/-- **A relay** hands the packet to the neighbours. -/
theorem relay (h : Spreads G a k limit events t) {before after : List (Offer ι)} {o : Offer ι}
    {c : Copy ι} (hoffers : t.mesh.offers = before ++ o :: after)
    (hsame : c.packet = o.copy.packet) (hpath : c.path = o.copy.path ++ [o.node])
    {next : List ι} (hnext : Hearers G o.node next) (hdue : t'.due = t.due ++ receptions next c)
    (hoffers' : t'.mesh.offers = before ++ after) :
    Spreads G a k limit (events ++ [.relayed o]) t' := by
  have ho : o ∈ t.mesh.offers := hoffers ▸ List.mem_append_right _ List.mem_cons_self
  refine ⟨fun r hr hr' => ?_, fun o' ho' hpacket => ?_, fun m hm => ?_⟩
  · rcases List.mem_append.mp (hdue ▸ hr) with hold | hnew
    · obtain ⟨m, hadj, htrail⟩ := h.due r hold hr'
      exact ⟨m, hadj, htrail.mono fun _ => Met.snoc⟩
    · obtain ⟨hmem, hcopy⟩ := mem_receptions.mp hnew
      rw [hcopy, hsame] at hr'
      refine ⟨o.node, (hnext.mem_iff _).mp hmem, ?_⟩
      rw [hcopy, hpath, List.length_append, List.length_singleton]
      exact (h.offers o ho hr').mono fun _ => Met.snoc
  · refine (h.offers o' ?_ hpacket).mono fun _ => Met.snoc
    rw [hoffers]
    rw [hoffers'] at ho'
    exact List.Sublist.mem ho' (List.Sublist.append_left (List.sublist_cons_self _ _) _)
  · by_cases hlast : o.node = m ∧ o.copy.packet = some k
    · obtain ⟨rfl, hpacket⟩ := hlast
      exact .inl fun v hadj => .inr
        ⟨_, hdue ▸ List.mem_append_right _
          (mem_receptions.mpr ⟨(hnext.mem_iff v).mpr hadj, rfl⟩), hsame.trans hpacket⟩
    · refine (h.handed m ((met_snoc.mp hm).resolve_right id)).mono (fun _ => Met.snoc)
        (fun v d hd _ => .inr (hdue ▸ List.mem_append_left _ hd)) fun o' ho' hnode hpacket => ?_
      rw [hoffers, List.mem_append, List.mem_cons] at ho'
      rw [hoffers']
      rcases ho' with ho' | rfl | ho'
      · exact List.mem_append_left _ ho'
      · exact absurd ⟨hnode, hpacket⟩ hlast
      · exact List.mem_append_right _ ho'

/-- A relay of another packet is dropped. -/
theorem cancel (h : Spreads G a k limit events t) {before after : List (Offer ι)} {o : Offer ι}
    (hoffers : t.mesh.offers = before ++ o :: after) (hother : o.copy.packet ≠ some k)
    (hdue : t'.due = t.due) (hoffers' : t'.mesh.offers = before ++ after) :
    Spreads G a k limit (events ++ [.cancelled o]) t' := by
  refine h.mono (fun m => id) (fun r => by rw [hdue]) fun o' => ?_
  rw [hoffers, hoffers', List.mem_append, List.mem_append, List.mem_cons]
  constructor
  · exact And.imp_left (Or.imp_right .inr)
  · rintro ⟨ho | rfl | ho, ho'⟩
    · exact ⟨.inl ho, ho'⟩
    · exact absurd ho' hother
    · exact ⟨.inr ho, ho'⟩

variable [DecidableEq ι]

/-- A copy of the packet was sent with all of its hops. -/
theorem hops_of_packet (inv : t.Inv events) {frame : List UInt8} {h : Header}
    (hdec : Header.decode frame = some h)
    (honly : ∀ n f seen, .originated n f k seen ∈ events → n = a ∧ f = frame) {c : Copy ι}
    (hc : c ∈ t.mesh.air) {h' : Header} (hdec' : Header.decode c.frame = some h')
    (hk : (h'.fromNode, h'.id) = k) : h'.hopLimit.toNat + c.path.length = h.hopStart.toNat := by
  obtain ⟨⟨n, key, seen, hmem⟩, hsame, h'', hdec'', hhops⟩ := inv.mesh.air c hc
  obtain rfl := Option.some.inj (hdec'.symm.trans hdec'')
  obtain ⟨sent, hsent, rfl⟩ := inv.origin n c.sent key seen hmem
  obtain ⟨hkey, hstart⟩ := header_of_sameButRelay hsame hdec' hsent
  obtain ⟨-, rfl⟩ := honly n c.sent seen (by rwa [← hk, hkey])
  obtain rfl := Option.some.inj (hdec.symm.trans hsent)
  rwa [← hstart]

/-- **Step lemma.** The packet spreads on in every step. -/
theorem step (hspreads : Spreads G a k limit events t) (inv : t.Inv events)
    (hstep : Ground.Step G t e t') (hroom : ∀ n, (recordings n events).length ≤ historyLen)
    {frame : List UInt8} {h : Header} (hdec : Header.decode frame = some h)
    (hlimit : h.hopStart.toNat = limit)
    (honly : ∀ n f seen, .originated n f k seen ∈ events ++ [e] → n = a ∧ f = frame)
    (hkept : ∀ o, .cancelled o ∈ events ++ [e] → o.copy.packet ≠ some k) :
    Spreads G a k limit (events ++ [e]) t' := by
  have htold (n : ι) (hmet : Met events k n) : ¬ e.Tells n k :=
    inv.mesh.not_tells_of_met (hstep.mesh inv.air).1 (hroom n) hmet
  cases hstep with
  | @originate n frame' h' ctx' next hnext hdec' hhops hcall =>
    have hpacket : (⟨frame', frame', []⟩ : Copy ι).packet = some (h'.fromNode, h'.id) :=
      Copy.packet_eq hdec'
    by_cases hk : (h'.fromNode, h'.id) = k
    · subst hk
      obtain ⟨rfl, -⟩ := honly n frame' _ (List.mem_append_right _ (List.mem_singleton_self _))
      exact hspreads.originate hpacket hnext rfl rfl
    · refine hspreads.mono (fun m hmeets => hk hmeets.2) (fun r => ?_) fun o => Iff.rfl
      rw [List.mem_append, or_and_right, or_iff_left]
      rintro ⟨hnew, hr⟩
      rw [(mem_receptions.mp hnew).2, hpacket, Option.some_inj] at hr
      exact hk hr
  | @hear before after n c snrQ4 airtimeUs nowUs heardRelayed old rx ctx' hdue hlen hheard hcall =>
    obtain ⟨h', seen, hdec', hkey, hobs, -, -⟩ := observe_spec hcall
    have hpacket := Copy.packet_eq hdec'
    have hair := inv.air _ (hdue ▸ List.mem_append_right _ List.mem_cons_self)
    by_cases hk : (h'.fromNode, h'.id) = k
    · rw [hk] at hpacket hkey
      refine hspreads.hear hdue hpacket hkey rfl rfl
        (fun hrelay hmet => htold n hmet ⟨rfl, hkey, hrelay⟩) fun hout => ?_
      -- a node that has the frame queued has met the packet
      have hfirst : heardRelayed = 0 := by
        by_contra hne
        obtain ⟨o, ho, rfl, hqueued⟩ := hheard hne
        exact hout (hspreads.offers o ho (hqueued.trans hpacket)).end_mem
      have hnew : (t.mesh.ctx n |>.history.observe h'.fromNode h'.id).1 = .new := by
        rcases (inv.mesh.recalls n).remembers.observe hobs with ⟨-, -, hmem⟩ | ⟨rfl, -, -⟩
        · rw [hk] at hmem
          exact absurd (met_of_mem_recordings (List.mem_of_mem_drop hmem)) hout
        · rw [hobs]
      rw [hfirst] at hcall
      refine (told_or_spent (inv.duty n) hlen hdec' hnew hcall).imp_right fun hspent => ?_
      have hhops := hops_of_packet inv hdec
        (fun m f s hmem => honly m f s (List.mem_append_left _ hmem)) hair hdec' hk
      rw [hspent, UInt8.toNat_zero, Nat.zero_add] at hhops
      exact hhops.trans hlimit
    · have hother : c.packet ≠ some k := fun hc => hk (Option.some.inj (hpacket.symm.trans hc))
      exact hspreads.hear_other hdue hother (fun hrx => hk (hkey.symm.trans hrx)) rfl rfl
  | @relay before after o frame' next hnext hoffers hcall =>
    obtain ⟨-, h', hdec', -⟩ :=
      inv.mesh.offers o (hoffers ▸ List.mem_append_right _ List.mem_cons_self)
    exact hspreads.relay hoffers (packet_relayed hdec' hcall _ _) rfl hnext rfl rfl
  | @cancel before after o hoffers =>
    have hother := hkept o (List.mem_append_right _ (List.mem_singleton_self _))
    exact hspreads.cancel hoffers hother rfl rfl
  | ask => exact hspreads.mono (fun m => id) (fun r => Iff.rfl) fun o => Iff.rfl

end Spreads

/-! ## Coverage -/

variable [DecidableEq ι] {num : ι → UInt32}

theorem spreads_of_run (hstart : t.Started num) (run : Run (Ground.Step G) t events t')
    (hroom : ∀ n, (recordings n events).length ≤ historyLen) {frame : List UInt8} {h : Header}
    (hdec : Header.decode frame = some h) (hlimit : h.hopStart.toNat = limit)
    (honly : ∀ n f seen, .originated n f k seen ∈ events → n = a ∧ f = frame)
    (hkept : ∀ o, .cancelled o ∈ events → o.copy.packet ≠ some k) :
    Spreads G a k limit events t' := by
  induction run with
  | nil =>
    refine ⟨fun r hr => ?_, fun o ho => ?_, fun n ⟨e, he, _⟩ => absurd he List.not_mem_nil⟩
    · exact absurd (hstart.due_eq ▸ hr) List.not_mem_nil
    · exact absurd (hstart.offers_eq ▸ ho) List.not_mem_nil
  | @snoc events t₁ t₂ e run hstep ih =>
    have hroom' (n : ι) := (length_recordings_le n events e).trans (hroom n)
    have hbefore := ih hroom' (fun n f seen hmem => honly n f seen (List.mem_append_left _ hmem))
      fun o hmem => hkept o (List.mem_append_left _ hmem)
    exact hbefore.step (Ground.inv_of_run hstart run) hstep hroom' hdec hlimit honly hkept

/-- **Flooding leaves no node out.** Take any run on the ground in which no history has
overflowed, at whose end nothing is left to be received or relayed, and a packet that one node
originated and whose relays nobody dropped. If no path from that node is longer by more than one
than the hops the packet was sent with, then every node that a path leads to has met the
packet. -/
theorem flood_reaches_all (hstart : t.Started num) (run : Run (Ground.Step G) t events t')
    (hdue : t'.due = []) (hoffers : t'.mesh.offers = [])
    (hroom : ∀ n, (recordings n events).length ≤ historyLen) {frame : List UInt8} {h : Header}
    {seen : Seen} (hdec : Header.decode frame = some h)
    (hsent : .originated a frame k seen ∈ events)
    (honly : ∀ n f seen, .originated n f k seen ∈ events → n = a ∧ f = frame)
    (hkept : ∀ o, .cancelled o ∈ events → o.copy.packet ≠ some k)
    (hpaths : ∀ n (p : G.Walk a n), p.IsPath → p.length ≤ h.hopStart.toNat + 1) :
    ∀ n, G.Reachable a n → ∃ e ∈ events, e.Meets n k := by
  have hspreads := spreads_of_run hstart run hroom hdec rfl honly hkept
  intro n hreach
  refine mem_of_reachable (S := Met events k) ⟨_, hsent, rfl, rfl⟩ hpaths (fun m hm => ?_) hreach
  -- nothing is on its way any more
  rcases hspreads.handed m hm with hair | ⟨o, ho, -⟩ | hspent
  · refine .inl fun v hadj => (hair v hadj).resolve_right ?_
    rintro ⟨c, hc, -⟩
    exact absurd (hdue ▸ hc) List.not_mem_nil
  · exact absurd (hoffers ▸ ho) List.not_mem_nil
  · exact .inr hspent

set_option maxRecDepth 4000 in
/-- The first node originates it, the second relays it, and the third receives it. -/
theorem flood_reaches_all_line : ∃ events t', Run (Ground.Step line) lineStart events t' ∧
    ∀ n, ∃ e ∈ events, e.Meets n (1, 7) := by
  have hnext (n : Fin 3) (next : List (Fin 3)) (hnodup : next.Nodup)
      (hmem : ∀ m, m ∈ next ↔ n.val + 1 = m.val ∨ m.val + 1 = n.val) : Hearers line n next :=
    ⟨hnodup, hmem⟩
  have hconnected (n : Fin 3) : line.Reachable 0 n := by
    have h₁ : line.Reachable 0 1 := SimpleGraph.Adj.reachable (.inl rfl)
    have h₂ : line.Adj 1 2 := .inl rfl
    match n with
    | 0 => exact .refl 0
    | 1 => exact h₁
    | 2 => exact h₁.trans h₂.reachable
  obtain ⟨rx₁, rx₂, rx₃, o, t', run, hdue, hoffers⟩ : ∃ rx₁ rx₂ rx₃ o t', Run (Ground.Step line)
      lineStart [.originated 0 lineFrame (1, 7) .new, .observed 1 rx₁, .relayed o, .observed 0 rx₂,
        .observed 2 rx₃] t' ∧ t'.due = [] ∧ t'.mesh.offers = [] := by
    have run₁ := Run.single (@Ground.Step.originate _ _ line lineStart 0 lineFrame _ _ [1]
      (hnext 0 [1] (by simp) (by decide)) rfl rfl rfl)
    have run₂ := run₁.snoc
      (@Ground.Step.hear _ _ _ _ [] [] 1 _ 0 0 0 0 noReport _ _ rfl (by simp) (by simp) rfl)
    have run₃ := run₂.snoc (@Ground.Step.relay _ _ _ _ [] [] _ _ [0, 2]
      (hnext 1 [0, 2] (by simp) (by decide)) rfl rfl)
    have run₄ := run₃.snoc
      (@Ground.Step.hear _ _ _ _ [] _ 0 _ 0 0 0 0 noReport _ _ rfl (by simp) (by simp) rfl)
    have run₅ := run₄.snoc
      (@Ground.Step.hear _ _ _ _ [] [] 2 _ 0 0 0 0 noReport _ _ rfl (by simp) (by simp) rfl)
    exact ⟨_, _, _, _, _, run₅, rfl, rfl⟩
  refine ⟨_, t', run, fun n => flood_reaches_all lineStart_started run hdue hoffers ?_
    (rfl : Header.decode lineFrame = some _) List.mem_cons_self ?_ (by simp) ?_ n ?_⟩
  · exact fun n => (length_recordings_le_length n _).trans (by simp [historyLen])
  · intro m f seen hmem
    simp only [List.mem_cons, List.not_mem_nil, or_false, MeshEvent.originated.injEq,
      reduceCtorEq] at hmem
    exact ⟨hmem.1, hmem.2.1⟩
  · -- a path in three nodes has two edges at most
    intro m p hpath
    exact Nat.le_of_lt_succ hpath.length_lt
  · exact hconnected n

end TetherMesh.Network
