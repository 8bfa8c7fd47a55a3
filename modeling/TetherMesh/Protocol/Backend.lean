import TetherMesh.CS.LabelledRun
import TetherMesh.Protocol.CcmAccesses
import TetherMesh.Protocol.FieldReference
import TetherMesh.Protocol.KeyAgreement
import TetherMesh.Protocol.Sha256

/-!
# Where a hardware accelerator plugs in

A backend routes any of six primitives onto hardware; the others fall back to software. It may
hold private keys that it never surrenders, and it may fail. What it may not do is answer
anything else than software would with the key in hand: then accelerators and software talk to
each other, and no caller retries its way past a tag or a bad peer key.

## Main definitions

* `Crypto`, `software` — a backend, and the one that is all defaults
* `Call`, `Answer`, `Crypto.answer` — the six primitives as calls with answers
* `Crypto.Conforms` — the backend fails, or answers as software does with the keys it holds

## Main results

* `Crypto.conforms_defaults` — software conforms, and so does whatever overrides nothing
* `same_answers` — over whole runs, of whatever calls
* `backends_interoperate` — from two private keys to a message
-/

namespace TetherMesh.Protocol.Backend

open CS X25519

/-- Why a backend could not complete an operation. -/
inductive Error
  /-- The hardware did not complete the operation. It says nothing about the input. -/
  | hardware
  /-- The backend cannot perform the operation as asked. -/
  | unsupported
  /-- The peer's public key is of small order. -/
  | smallOrderPeer
  /-- A CCM failure. -/
  | ccm (e : CcmError)
  deriving DecidableEq, Repr

/-- How the caller names a private key. -/
inductive SecretKey
  /-- The scalar itself. -/
  | bytes (scalar : Vector UInt8 keyLen)
  /-- A key held inside the accelerator. -/
  | slot (number : UInt16)
  deriving DecidableEq, Repr

/-- The primitives this stack needs, over the state of a peripheral. What is not overridden is
software. -/
structure Crypto (f : Fiat) (σ : Type) where
  /-- X25519 agreement. -/
  x25519 : SecretKey → Vector UInt8 keyLen → StateM σ (Except Error (Vector UInt8 keyLen)) :=
    fun secret peer => pure <|
      match secret with
      | .bytes s => (f.x25519 s peer).elim (.error .smallOrderPeer) .ok
      | .slot _ => .error .unsupported
  /-- The public key for a secret key. -/
  publicKey : SecretKey → StateM σ (Except Error (Vector UInt8 keyLen)) :=
    fun secret => pure <|
      match secret with
      | .bytes s => .ok (f.publicKey s)
      | .slot _ => .error .unsupported
  /-- SHA-256, in one piece. -/
  sha256 : List UInt8 → StateM σ (Except Error (Vector UInt8 digestLen)) :=
    fun data => pure (.ok (Protocol.sha256 data))
  /-- AES-CTR over channel traffic, in place. -/
  aesCtr : Block → Block → List UInt8 → StateM σ (Except Error Unit × List UInt8) :=
    fun key nonce data => pure (.ok (), ctrApply key nonce data)
  /-- AES-256-CCM open, in place. -/
  ccmOpen : Vector UInt8 32 → List UInt8 → List UInt8 → ℕ →
      StateM σ (Except Error ℕ × List UInt8) :=
    fun key nonce buf tagLen =>
      let (answer, buf) := ccmDecryptInPlace key nonce buf tagLen
      pure (answer.mapError .ccm, buf)
  /-- AES-256-CCM seal, in place. -/
  ccmSeal : Vector UInt8 32 → List UInt8 → List UInt8 → ℕ → ℕ →
      StateM σ (Except Error ℕ × List UInt8) :=
    fun key nonce buf msgLen tagLen =>
      let (answer, buf) := ccmEncryptInPlace key nonce buf msgLen tagLen
      pure (answer.mapError .ccm, buf)

/-- The portable implementation, all defaults. -/
def software (f : Fiat) : Crypto f Unit := {}

/-! ## Calls and answers -/

/-- A call of one of the primitives. -/
inductive Call
  | x25519 (secret : SecretKey) (peer : Vector UInt8 keyLen)
  | publicKey (secret : SecretKey)
  | sha256 (data : List UInt8)
  | aesCtr (key nonce : Block) (data : List UInt8)
  | ccmOpen (key : Vector UInt8 32) (nonce buf : List UInt8) (tagLen : ℕ)
  | ccmSeal (key : Vector UInt8 32) (nonce buf : List UInt8) (msgLen tagLen : ℕ)
  deriving DecidableEq, Repr

/-- What a call comes back with, and the buffer it leaves. -/
inductive Answer
  | key (answer : Except Error (Vector UInt8 32))
  | done (answer : Except Error Unit) (data : List UInt8)
  | length (answer : Except Error ℕ) (buf : List UInt8)

/-- The hardware failed. Nothing is said of the buffer then. -/
def Answer.failed : Answer → Bool
  | .key (.error .hardware) | .done (.error .hardware) _ | .length (.error .hardware) _ => true
  | _ => false

namespace Crypto

variable {f : Fiat} {σ : Type}

/-- A call of a backend. -/
def answer (b : Crypto f σ) : Call → StateM σ Answer
  | .x25519 secret peer => .key <$> b.x25519 secret peer
  | .publicKey secret => .key <$> b.publicKey secret
  | .sha256 data => .key <$> b.sha256 data
  | .aesCtr key nonce data => (fun r => .done r.1 r.2) <$> b.aesCtr key nonce data
  | .ccmOpen key nonce buf tagLen => (fun r => .length r.1 r.2) <$> b.ccmOpen key nonce buf tagLen
  | .ccmSeal key nonce buf msgLen tagLen =>
    (fun r => .length r.1 r.2) <$> b.ccmSeal key nonce buf msgLen tagLen

end Crypto

/-- A key that a slot holds, by its bytes. -/
def SecretKey.resolve (slots : UInt16 → Option (Vector UInt8 keyLen)) : SecretKey → SecretKey
  | .bytes scalar => .bytes scalar
  | .slot number => (slots number).elim (.slot number) .bytes

/-- The call with the bytes of the key that it names. -/
def Call.resolve (slots : UInt16 → Option (Vector UInt8 keyLen)) : Call → Call
  | .x25519 secret peer => .x25519 (secret.resolve slots) peer
  | .publicKey secret => .publicKey (secret.resolve slots)
  | call => call

/-- What software answers. -/
def plain (f : Fiat) (call : Call) : Answer := ((software f).answer call ()).1

/-- A backend that holds these keys **conforms** when a call of it fails, or is answered as
software answers it with the bytes of the key. -/
def Crypto.Conforms {f : Fiat} {σ : Type} (b : Crypto f σ)
    (slots : UInt16 → Option (Vector UInt8 keyLen)) : Prop :=
  ∀ call s, (b.answer call s).1.failed = true ∨ (b.answer call s).1 = plain f (call.resolve slots)

variable {f : Fiat} {σ τ : Type} {slots slots' : UInt16 → Option (Vector UInt8 keyLen)}

/-- Software never reports its hardware. -/
theorem plain_failed (f : Fiat) (call : Call) : (plain f call).failed = false := by
  cases call with
  | x25519 secret peer =>
    cases secret with
    | slot number => rfl
    | bytes scalar =>
      change (Answer.key ((f.x25519 scalar peer).elim (.error .smallOrderPeer) .ok)).failed = false
      cases f.x25519 scalar peer <;> rfl
  | publicKey secret => cases secret <;> rfl
  | sha256 data => rfl
  | aesCtr key nonce data => rfl
  | ccmOpen key nonce buf tagLen =>
    generalize hplain : plain f (.ccmOpen key nonce buf tagLen) = answer
    change Answer.length ((ccmDecryptInPlace key nonce buf tagLen).1.mapError .ccm) _ = _ at hplain
    rw [← hplain]
    cases (ccmDecryptInPlace key nonce buf tagLen).1 <;> rfl
  | ccmSeal key nonce buf msgLen tagLen =>
    generalize hplain : plain f (.ccmSeal key nonce buf msgLen tagLen) = answer
    change Answer.length ((ccmEncryptInPlace key nonce buf msgLen tagLen).1.mapError .ccm) _ = _
      at hplain
    rw [← hplain]
    cases (ccmEncryptInPlace key nonce buf msgLen tagLen).1 <;> rfl

theorem plain_x25519 (f : Fiat) (scalar peer : Vector UInt8 keyLen) :
    plain f (.x25519 (.bytes scalar) peer) =
      .key ((f.x25519 scalar peer).elim (.error .smallOrderPeer) .ok) := rfl

theorem plain_publicKey (f : Fiat) (scalar : Vector UInt8 keyLen) :
    plain f (.publicKey (.bytes scalar)) = .key (.ok (f.publicKey scalar)) := rfl

theorem plain_aesCtr (f : Fiat) (key nonce : Block) (data : List UInt8) :
    plain f (.aesCtr key nonce data) = .done (.ok ()) (ctrApply key nonce data) := rfl

theorem plain_ccmOpen (f : Fiat) (key : Vector UInt8 32) (nonce buf : List UInt8) (tagLen : ℕ) :
    plain f (.ccmOpen key nonce buf tagLen) =
      .length ((ccmDecryptInPlace key nonce buf tagLen).1.mapError .ccm)
        (ccmDecryptInPlace key nonce buf tagLen).2 := rfl

theorem plain_ccmSeal (f : Fiat) (key : Vector UInt8 32) (nonce buf : List UInt8)
    (msgLen tagLen : ℕ) :
    plain f (.ccmSeal key nonce buf msgLen tagLen) =
      .length ((ccmEncryptInPlace key nonce buf msgLen tagLen).1.mapError .ccm)
        (ccmEncryptInPlace key nonce buf msgLen tagLen).2 := rfl

/-- **What overrides nothing conforms**, and holds no key. -/
theorem Crypto.conforms_defaults : ({} : Crypto f σ).Conforms fun _ => none := by
  intro call s
  right
  cases call with
  | x25519 secret peer => cases secret <;> rfl
  | publicKey secret => cases secret <;> rfl
  | sha256 | aesCtr | ccmOpen | ccmSeal => rfl

/-! ## Runs -/

/-- One call, with its answer. -/
def Asks (b : Crypto f σ) (s : σ) (asked : Call × Answer) (s' : σ) : Prop :=
  b.answer asked.1 s = (asked.2, s')

variable {a : Crypto f σ} {b : Crypto f τ} {s s' : σ} {t t' : τ}
  {asked asked' : List (Call × Answer)} {call call' : Call} {answer answer' : Answer}

/-- **In a run of a conforming backend** every answer is software's, or the hardware failed. -/
theorem answers_of_run (ha : a.Conforms slots) (run : Run (Asks a) s asked s') :
    ∀ x ∈ asked, x.2.failed = true ∨ x.2 = plain f (x.1.resolve slots) := by
  refine run.invariant (I := fun asked _ =>
    ∀ x ∈ asked, x.2.failed = true ∨ x.2 = plain f (x.1.resolve slots)) (by simp) ?_
  intro asked t u x _ ih hstep
  rw [List.forall_mem_append, List.forall_mem_singleton]
  have hanswer : (a.answer x.1 t).1 = x.2 := congrArg Prod.fst hstep
  exact ⟨ih, hanswer ▸ ha x.1 t⟩

theorem eq_plain_of_run (ha : a.Conforms slots) (run : Run (Asks a) s asked s')
    (hmem : (call, answer) ∈ asked) (hok : answer.failed = false) :
    answer = plain f (call.resolve slots) := by
  rcases answers_of_run ha run _ hmem with hfailed | hplain
  · exact absurd hfailed (by simp [hok])
  · exact hplain

/-- A part with key custody whose bus works every other time. -/
def custody (f : Fiat) (slots : UInt16 → Option (Vector UInt8 keyLen)) : Crypto f Bool where
  x25519 secret peer := everyOther ((software f).x25519 (secret.resolve slots) peer)
  publicKey secret := everyOther ((software f).publicKey (secret.resolve slots))
where
  /-- An answer when the bus works. -/
  everyOther {α : Type} (answer : StateM Unit (Except Error α)) : StateM Bool (Except Error α) :=
    fun busy => (if busy then .error .hardware else (answer ()).1, !busy)

theorem conforms_custody (f : Fiat) (slots : UInt16 → Option (Vector UInt8 keyLen)) :
    (custody f slots).Conforms slots := by
  intro call busy
  cases call with
  | x25519 | publicKey =>
    cases busy with
    | true => exact .inl rfl
    | false => exact .inr rfl
  | sha256 | aesCtr | ccmOpen | ccmSeal => exact .inr rfl

/-- What it does without a key it leaves to software. -/
theorem asks_custody (f : Fiat) (busy : Bool) (hagree : ∀ secret peer, call ≠ .x25519 secret peer)
    (hpublic : ∀ secret, call ≠ .publicKey secret) :
    Asks (custody f slots) busy (call, plain f call) busy := by
  cases call with
  | x25519 secret peer => exact absurd rfl (hagree secret peer)
  | publicKey secret => exact absurd rfl (hpublic secret)
  | sha256 | aesCtr | ccmOpen | ccmSeal => rfl

/-- One that holds a key tells the public key, fails, and then agrees. -/
theorem run_custody (f : Fiat) {slots : UInt16 → Option (Vector UInt8 keyLen)} (number : UInt16)
    {x : Vector UInt8 keyLen} (hslot : slots number = some x) (peer : Vector UInt8 keyLen) :
    Run (Asks (custody f slots)) false
      [(.publicKey (.slot number), .key (.ok (f.publicKey x))),
        (.x25519 (.slot number) peer, .key (.error .hardware)),
        (.x25519 (.slot number) peer, plain f (.x25519 (.bytes x) peer))] true := by
  have hresolve : (SecretKey.slot number).resolve slots = .bytes x := by
    rw [SecretKey.resolve, hslot]
    rfl
  have hpublic : Asks (custody f slots) false
      (.publicKey (.slot number), .key (.ok (f.publicKey x))) true := by
    change (plain f (.publicKey ((SecretKey.slot number).resolve slots)), true) = _
    rw [hresolve, plain_publicKey]
  have hagree : Asks (custody f slots) false
      (.x25519 (.slot number) peer, plain f (.x25519 (.bytes x) peer)) true := by
    change (plain f (.x25519 ((SecretKey.slot number).resolve slots) peer), true) = _
    rw [hresolve]
  exact .cons hpublic (.cons rfl (.single hagree))

/-- The run of software does not fail. -/
theorem run_software (f : Fiat) (calls : List Call) :
    Run (Asks (software f)) () (calls.map fun call => (call, plain f call)) () := by
  induction calls with
  | nil => exact .nil
  | cons call calls ih => exact .cons rfl ih

/-- **Same question, same answer.** Over any runs of two conforming backends, or of one, calls
that name the same key material are answered alike wherever the hardware does not fail. So a
bad tag is not accepted on another try, nor a peer key of small order, here or anywhere. -/
theorem same_answers (ha : a.Conforms slots) (hb : b.Conforms slots')
    (run : Run (Asks a) s asked s') (run' : Run (Asks b) t asked' t')
    (hmem : (call, answer) ∈ asked) (hmem' : (call', answer') ∈ asked')
    (hsame : call.resolve slots = call'.resolve slots') (hok : answer.failed = false)
    (hok' : answer'.failed = false) : answer = answer' := by
  rw [eq_plain_of_run ha run hmem hok, eq_plain_of_run hb run' hmem' hok', hsame]

/-! ## Interoperation -/

/-- Software seals whatever has room for its tag. -/
theorem exists_plain_ccmSeal (f : Fiat) (key : Vector UInt8 32) {nonce : List UInt8}
    (hnonce : nonce.length = ccmNonceLen) (p room : List UInt8) :
    ∃ sealed, plain f (.ccmSeal key nonce (p ++ room) p.length room.length) =
      .length (.ok (p.length + room.length)) sealed := by
  have hanswer := ccmEncrypt_answer key nonce [] (p ++ room) p.length room.length
  rw [if_neg (by rw [List.length_append]; exact lt_irrefl _), if_neg (not_not.mpr hnonce)]
    at hanswer
  refine ⟨(ccmEncryptInPlace key nonce (p ++ room) p.length room.length).2, ?_⟩
  rw [plain_ccmSeal]
  change Answer.length ((ccmEncryptInPlaceAad key nonce [] (p ++ room) p.length room.length).1
    |>.mapError Error.ccm) _ = _
  rw [hanswer]
  rfl

/-- What software seals, software opens. -/
theorem plain_ccmOpen_of_ccmSeal {key : Vector UInt8 32} {nonce p room sealed : List UInt8}
    {tagLen n : ℕ} (htag : tagLen ≤ blockSize) (hroom : room.length = tagLen)
    (h : Answer.length (.ok n) sealed = plain f (.ccmSeal key nonce (p ++ room) p.length tagLen)) :
    ∃ out, plain f (.ccmOpen key nonce sealed tagLen) = .length (.ok p.length) out ∧
      out.take p.length = p := by
  rw [plain_ccmSeal] at h
  obtain ⟨hanswer, rfl⟩ := Answer.length.inj h
  have hencrypt := ccmEncrypt_answer key nonce [] (p ++ room) p.length tagLen
  change (ccmEncryptInPlace key nonce (p ++ room) p.length tagLen).1 = _ at hencrypt
  rw [hencrypt] at hanswer
  split_ifs at hanswer hencrypt
  · cases hanswer
  · cases hanswer
  · have hsealed : ccmSealed key nonce [] p tagLen =
        some (ccmEncryptInPlace key nonce (p ++ room) p.length tagLen).2 :=
      ccmSealed_iff_encrypt.mpr ⟨room, hroom, Prod.ext hencrypt rfl⟩
    obtain ⟨hok, hplain⟩ := (ccmDecrypt_ok_iff htag).mpr ⟨hsealed, rfl⟩
    refine ⟨_, ?_, hplain⟩
    rw [plain_ccmOpen, ccmDecryptInPlace, hok]
    rfl

/-- **Backends interoperate.** Two parties, each with a conforming backend that holds or is given
its private key. When each has the other's public key and its hardware has completed the
agreement, they share one secret, and no peer was refused. From one secret they have one message
key; what either seals the other opens, and what either enciphers the other deciphers. -/
theorem backends_interoperate (h : f.Sound) (ha : a.Conforms slots) (hb : b.Conforms slots')
    (run : Run (Asks a) s asked s') (run' : Run (Asks b) t asked' t')
    {ka kb : SecretKey} {x y pa pb : Vector UInt8 keyLen}
    (hka : ka.resolve slots = .bytes x) (hkb : kb.resolve slots' = .bytes y)
    (hpa : (.publicKey ka, .key (.ok pa)) ∈ asked) (hpb : (.publicKey kb, .key (.ok pb)) ∈ asked')
    (hra : (.x25519 ka pb, answer) ∈ asked) (hrb : (.x25519 kb pa, answer') ∈ asked')
    (hok : answer.failed = false) (hok' : answer'.failed = false) :
    ∃ shared, answer = .key (.ok shared) ∧ answer' = .key (.ok shared) ∧
      (∀ d d', (.sha256 shared.toList, .key (.ok d)) ∈ asked →
        (.sha256 shared.toList, .key (.ok d')) ∈ asked' → d = d') ∧
      (∀ key nonce p room tagLen n sealed r, tagLen ≤ blockSize → room.length = tagLen →
        (.ccmSeal key nonce (p ++ room) p.length tagLen, .length (.ok n) sealed) ∈ asked →
        (.ccmOpen key nonce sealed tagLen, r) ∈ asked' → r.failed = false →
          ∃ out, r = .length (.ok p.length) out ∧ out.take p.length = p) ∧
      ∀ key nonce data out r, (.aesCtr key nonce data, .done (.ok ()) out) ∈ asked →
        (.aesCtr key nonce out, r) ∈ asked' → r.failed = false → r = .done (.ok ()) data := by
  have hpublic := eq_plain_of_run ha run hpa rfl
  have hpublic' := eq_plain_of_run hb run' hpb rfl
  simp only [Call.resolve, hka, hkb, plain_publicKey, Answer.key.injEq, Except.ok.injEq]
    at hpublic hpublic'
  have hanswer := eq_plain_of_run ha run hra hok
  have hanswer' := eq_plain_of_run hb run' hrb hok'
  simp only [Call.resolve, hka, hkb, plain_x25519] at hanswer hanswer'
  rw [hpublic', h.x25519_publicKey x y] at hanswer
  rw [hpublic, h.x25519_publicKey y x, h.scalarmult_publicKey_comm y x] at hanswer'
  refine ⟨_, hanswer, hanswer', ?_, ?_, ?_⟩
  · intro d d' hd hd'
    have hdigest := same_answers ha hb run run' hd hd' rfl rfl rfl
    exact Except.ok.inj (Answer.key.inj hdigest)
  · intro key nonce p room tagLen n sealed r htag hroom hseal hopen hfine
    obtain ⟨out, hplain, hout⟩ :=
      plain_ccmOpen_of_ccmSeal htag hroom (eq_plain_of_run ha run hseal rfl)
    exact ⟨out, (eq_plain_of_run hb run' hopen hfine).trans hplain, hout⟩
  · intro key nonce data out r hencipher hdecipher hfine
    have hout := eq_plain_of_run ha run hencipher rfl
    simp only [Call.resolve, plain_aesCtr, Answer.done.injEq, true_and] at hout
    have hplain : plain f (.aesCtr key nonce out) = .done (.ok ()) data := by
      rw [plain_aesCtr, hout, ctrApply_ctrApply]
    exact (eq_plain_of_run hb run' hdecipher hfine).trans hplain

/-- One party agrees, on another try, then hashes what is shared, seals two letters and enciphers
them. -/
def sealing (pa pb shared digest : Vector UInt8 32) (sealed enciphered : List UInt8) :
    List (Call × Answer) :=
  [(.publicKey (.slot 7), .key (.ok pa)), (.x25519 (.slot 7) pb, .key (.error .hardware)),
    (.x25519 (.slot 7) pb, .key (.ok shared)), (.sha256 shared.toList, .key (.ok digest)),
    (.ccmSeal digest (List.replicate 13 0) ([104, 105] ++ List.replicate 8 0) 2 8,
      .length (.ok 10) sealed),
    (.aesCtr (Vector.replicate 16 7) (Vector.replicate 16 0) [104, 105],
      .done (.ok ()) enciphered)]

/-- The other agrees, hashes, opens and deciphers. -/
def opening (y pa shared digest : Vector UInt8 32) (sealed enciphered : List UInt8) : List Call :=
  [.publicKey (.bytes y), .x25519 (.bytes y) pa, .sha256 shared.toList,
    .ccmOpen digest (List.replicate 13 0) sealed 8,
    .aesCtr (Vector.replicate 16 7) (Vector.replicate 16 0) enciphered]

/-- One with its key in a slot of a part that fails at first, one with its key in memory: they
have one secret and one digest of it, and the two letters come across both ways. -/
theorem backends_interoperate_custody :
    let x : Vector UInt8 keyLen := Vector.replicate keyLen 0x11
    let y : Vector UInt8 keyLen := Vector.replicate keyLen 0xA5
    let pa := Fiat.reference.publicKey x
    let pb := Fiat.reference.publicKey y
    ∃ shared digest sealed opened enciphered,
      Run (Asks (custody .reference fun _ => some x)) false
        (sealing pa pb shared digest sealed enciphered) true ∧
      Run (Asks (software .reference)) () ((opening y pa shared digest sealed enciphered).zip
        [.key (.ok pb), .key (.ok shared), .key (.ok digest), .length (.ok 2) opened,
          .done (.ok ()) [104, 105]]) () ∧
      opened.take 2 = [104, 105] := by
  intro x y pa pb
  have hpa : pa = Fiat.reference.publicKey x := rfl
  have hpb : pb = Fiat.reference.publicKey y := rfl
  have hsound := Fiat.reference_sound
  -- nothing below depends on which keys they are, nor on the arithmetic
  clear_value pa pb x y
  generalize Fiat.reference = f at hpa hpb hsound ⊢
  obtain ⟨shared, hshared⟩ : ∃ shared, plain f (.x25519 (.bytes x) pb) = .key (.ok shared) := by
    rw [plain_x25519, hpb, hsound.x25519_publicKey]
    exact ⟨_, rfl⟩
  obtain ⟨digest, hdigest⟩ : ∃ digest, plain f (.sha256 shared.toList) = .key (.ok digest) :=
    ⟨_, rfl⟩
  obtain ⟨sealed, hsealed⟩ : ∃ sealed, plain f (.ccmSeal digest (List.replicate 13 0)
      ([104, 105] ++ List.replicate 8 0) 2 8) = .length (.ok 10) sealed :=
    exists_plain_ccmSeal f digest List.length_replicate [104, 105] (List.replicate 8 0)
  obtain ⟨enciphered, henciphered⟩ : ∃ enciphered, plain f (.aesCtr (Vector.replicate 16 7)
      (Vector.replicate 16 0) [104, 105]) = .done (.ok ()) enciphered := ⟨_, rfl⟩
  have run : Run (Asks (custody f fun _ => some x)) false
      (sealing pa pb shared digest sealed enciphered) true := by
    rw [sealing, ← hshared, ← hdigest, ← hsealed, ← henciphered, hpa]
    exact (((run_custody f 7 rfl pb).snoc (asks_custody f true (by simp) (by simp))).snoc
      (asks_custody f true (by simp) (by simp))).snoc (asks_custody f true (by simp) (by simp))
  have run' := run_software f (opening y pa shared digest sealed enciphered)
  have hmem' {call : Call} (h : call ∈ opening y pa shared digest sealed enciphered) :=
    List.mem_map_of_mem (f := fun call => (call, plain f call)) h
  have hra : (Call.x25519 (.slot 7) pb, Answer.key (.ok shared)) ∈
      sealing pa pb shared digest sealed enciphered := by simp [sealing]
  have hpb' : (Call.publicKey (.bytes y), Answer.key (.ok pb)) ∈
      (opening y pa shared digest sealed enciphered).map fun call => (call, plain f call) := by
    rw [hpb]
    exact hmem' List.mem_cons_self
  -- what one is answered is known, and what the other is answered follows
  obtain ⟨shared', hsame, hshared', -, hopen, hdecipher⟩ :=
    backends_interoperate hsound (conforms_custody f fun _ => some x) Crypto.conforms_defaults
      run run' rfl rfl List.mem_cons_self hpb' hra (hmem' (by simp [opening])) rfl
      (plain_failed f _)
  obtain rfl := Except.ok.inj (Answer.key.inj hsame)
  obtain ⟨opened, hopened, htake⟩ := hopen digest (List.replicate 13 0) [104, 105]
    (List.replicate 8 0) 8 10 sealed _ (by decide) List.length_replicate (by simp [sealing])
    (hmem' (by simp [opening])) (plain_failed f _)
  have hdeciphered := hdecipher (Vector.replicate 16 7) (Vector.replicate 16 0) [104, 105]
    enciphered _ (by simp [sealing]) (hmem' (by simp [opening])) (plain_failed f _)
  refine ⟨shared, digest, sealed, opened, enciphered, run, ?_, htake⟩
  simp only [opening, List.map_cons, List.map_nil, plain_publicKey, ← hpb, hshared', hdigest,
    hopened, hdeciphered] at run'
  exact run'

end TetherMesh.Protocol.Backend
