import Botnats.Envelope

/-!
# Envelopes are accepted once and only if genuine

Holders of the key encode envelopes and sign store records; one receiver decodes
arbitrary bytes. A nonce drawn by `secrets.token_hex` is new each time, and an
envelope carries the digest of its own signed text only if a holder digested that
text. Readings of the receiver's clock stay less than 30 seconds below earlier ones.

The signed text is canonical JSON, so what a receiver accepts is what a holder
encoded up to joining surrogate pairs, and exactly that where no string holds a
surrogate.
-/
namespace Botnats

open Json

/-- What a holder of the key encoded. -/
structure Encoded where
  nonce : Str
  sender : Str
  subject : Str
  payload : Fields
  timestamp : ℤ

/-- `signed` are the texts holders digested; `latest` is the highest reading so far. -/
structure ReplayState where
  receiver : Receiver
  encoded : List Encoded
  signed : List Str
  latest : WithBot ℚ

inductive ReplayAction
  | encode (botId subject : Str) (payload : Fields) (nonce : Str) (clock : ℚ)
  | sign (tag : Str) (fields : List Str)
  | decode (call : DecodeCall)

namespace ReplayState

def init : ReplayState := ⟨Receiver.init, [], [], ⊥⟩

/-- The value presented does not carry the digest of its own text unless a holder
digested that text. -/
def unforged (F : FloatRepr) (mac : Str → Str) (loads : List Byte → Except LoadsError Json)
    (signed : List Str) (value : List Byte) : Bool :=
  match readEnvelope loads value with
  | .ok p =>
    let text := body F p.nonce p.payload p.sender p.timestamp
    mac text ≠ p.signature || text ∈ signed
  | .error _ => true

variable (F : FloatRepr) (mac : Str → Str) (loads : List Byte → Except LoadsError Json)

def step (s : ReplayState) : ReplayAction → Option ReplayState
  | .encode botId subject payload nonce clock =>
    if hexText 32 nonce ∧ nonce ∉ s.encoded.map Encoded.nonce then
      match encode F mac botId subject payload nonce clock with
      | .error _ => some s
      | .ok _ =>
        let signedPayload := payload ++ [(subjectField, .str subject)]
        let timestamp := truncate clock
        some { s with
          encoded := ⟨nonce, botId, subject, payload, timestamp⟩ :: s.encoded
          signed := body F nonce signedPayload botId timestamp :: s.signed }
    else none
  | .sign tag fields =>
    some { s with signed := join [0] ((lit "botnats-" ++ tag) :: fields) :: s.signed }
  | .decode call =>
    if s.latest < ((call.now + 30 : ℚ) : WithBot ℚ) ∧ unforged F mac loads s.signed call.value then
      some { s with
        receiver := s.receiver.receive F mac loads call
        latest := max s.latest call.now }
    else none

/-- The encoding an accepted call goes back to. -/
structure Genuine (e : Encoded) (a : Accepted) : Prop where
  nonce : e.nonce = a.nonce
  timestamp : e.timestamp = a.timestamp
  sender : utf16 e.sender = utf16 a.sender
  subject : utf16 e.subject = utf16 a.subject
  payload : canonical (.obj e.payload) = canonical (.obj a.payload)

structure Inv (F : FloatRepr) (s : ReplayState) : Prop where
  fresh : (s.encoded.map Encoded.nonce).Nodup
  unused : ∀ e ∈ s.encoded, Assoc.lookup subjectField e.payload = none
  signed : ∀ t ∈ s.signed, t.head? = some 123 → ∃ e ∈ s.encoded,
    t = body F e.nonce (e.payload ++ [(subjectField, .str e.subject)]) e.sender e.timestamp
  genuine : ∀ a ∈ s.receiver.accepted, ∃ e ∈ s.encoded, Genuine e a
  window : ∀ a ∈ s.receiver.accepted, a.time - 30 ≤ a.timestamp ∧ (a.timestamp : ℚ) ≤ a.time + 30
  cached : ∀ a ∈ s.receiver.accepted, (a.nonce, a.time + nonceTtl) ∈ s.receiver.seen ∨
    ((a.time + nonceTtl : ℚ) : WithBot ℚ) ≤ s.latest
  once : (s.receiver.accepted.map Accepted.nonce).Nodup

variable {F mac loads}

theorem inv_init : Inv F init where
  fresh := by simp [init]
  unused := by simp [init]
  signed := by simp [init]
  genuine := by simp [init, Receiver.init]
  window := by simp [init, Receiver.init]
  cached := by simp [init, Receiver.init]
  once := by simp [init, Receiver.init]

/-- The texts that holders digested and that read as envelopes are those they encoded. -/
structure Recorded (F : FloatRepr) (encoded : List Encoded) (signed : List Str) : Prop where
  unused : ∀ e ∈ encoded, Assoc.lookup subjectField e.payload = none
  signed : ∀ t ∈ signed, t.head? = some 123 → ∃ e ∈ encoded,
    t = body F e.nonce (e.payload ++ [(subjectField, .str e.subject)]) e.sender e.timestamp

theorem Inv.recorded {s : ReplayState} (h : Inv F s) : Recorded F s.encoded s.signed :=
  ⟨h.unused, h.signed⟩

namespace Recorded

variable {encoded : List Encoded} {signed : List Str}

theorem encode (h : Recorded F encoded signed) {botId subject nonce : Str} {payload : Fields}
    {clock : ℚ} {value : List Byte}
    (henc : Botnats.encode F mac botId subject payload nonce clock = .ok value) :
    Recorded F (⟨nonce, botId, subject, payload, truncate clock⟩ :: encoded)
      (body F nonce (payload ++ [(subjectField, .str subject)]) botId (truncate clock) ::
        signed) where
  unused := List.forall_mem_cons.mpr ⟨(encode_eq_ok henc).1, h.unused⟩
  signed := by
    intro t ht hhead
    rcases List.mem_cons.mp ht with rfl | ht
    · exact ⟨_, List.mem_cons_self, rfl⟩
    · obtain ⟨e, he, heq⟩ := h.signed t ht hhead
      exact ⟨e, List.mem_cons_of_mem _ he, heq⟩

/-- The texts of the other domains do not read as envelopes. -/
theorem sign (h : Recorded F encoded signed) (tag : Str) (fields : List Str) :
    Recorded F encoded (join [0] ((lit "botnats-" ++ tag) :: fields) :: signed) where
  unused := h.unused
  signed := by
    intro t ht hhead
    rcases List.mem_cons.mp ht with rfl | ht
    · cases fields <;> simp [join, lit] at hhead
    · exact h.signed t ht hhead

/-- What a call accepts was encoded by a holder. -/
theorem encoding (h : Recorded F encoded signed) {seen : SeenNonces} (call : DecodeCall)
    {p : Parts} (hp : readEnvelope loads call.value = .ok p)
    (ha : Accepts F mac seen call.now call.subject p)
    (hu : unforged F mac loads signed call.value) :
    ∃ e ∈ encoded, Genuine e ⟨p.nonce, p.sender, call.subject,
      Assoc.discard subjectField p.payload, p.timestamp, call.now⟩ := by
  have hmem : body F p.nonce p.payload p.sender p.timestamp ∈ signed := by
    simpa [unforged, hp, ha.signed] using hu
  obtain ⟨e, he, hbody⟩ := h.signed _ hmem (body_head _ _ _ _)
  obtain ⟨hnonce, hpayload, hsender, htimestamp⟩ := body_inj hbody
  obtain ⟨envelope, _, hparts⟩ := readEnvelope_eq_ok hp
  have hunused := h.unused e he
  refine ⟨e, he, ?_, htimestamp.symm, hsender.symm, ?_, ?_⟩
  · exact (utf16_inj_of_low (hexText_low (parts_eq_some hparts).1) hnonce).symm
  · have hlookup := canonical_lookup subjectField_low hpayload
    rw [ha.bound, lookup_subject hunused] at hlookup
    exact (canonical_str_inj.mp (Option.some.inj hlookup)).symm
  · have hdiscard := canonical_discard subjectField_low hpayload
    rw [discard_subject hunused] at hdiscard
    exact hdiscard.symm

end Recorded

/-- A nonce that was accepted before is still cached, or the timestamp it came with
is out of the window. -/
theorem Inv.not_again {s : ReplayState} (h : Inv F s) {call : DecodeCall} {p : Parts}
    (ha : Accepts F mac s.receiver.seen call.now call.subject p)
    (hlatest : s.latest < ((call.now + 30 : ℚ) : WithBot ℚ)) {e : Encoded} (he : e ∈ s.encoded)
    (hg : e.nonce = p.nonce ∧ e.timestamp = p.timestamp) :
    ∀ a ∈ s.receiver.accepted, a.nonce ≠ p.nonce := by
  intro a hmem hn
  obtain ⟨e', he', hg'⟩ := h.genuine a hmem
  have hsame : e' = e := by
    refine List.inj_on_of_nodup_map h.fresh he' he ?_
    rw [hg'.nonce, hn, hg.1]
  have htime : a.timestamp = p.timestamp := by rw [← hg'.timestamp, hsame, hg.2]
  have hwindow := (h.window a hmem).2
  have hlower := ha.lower
  rw [htime] at hwindow
  have hlate : call.now ≤ a.time + 60 := by
    simp only [timestampDriftWindow] at hlower
    linarith
  rcases h.cached a hmem with hc | hc
  · rcases mem_pruneNonces hc with hc | hc
    · exact Assoc.lookup_eq_none.mp ha.unseen _ hc hn
    · simp only [nonceTtl] at hc
      linarith
  · have hlt := WithBot.coe_lt_coe.mp (hc.trans_lt hlatest)
    simp only [nonceTtl] at hlt
    linarith

/-- A cached nonce survives a call, or its lifetime is over by the latest reading. -/
theorem cached_prune {seen : SeenNonces} {latest : WithBot ℚ} {now : ℚ} {e : Str × ℚ}
    (h : e ∈ seen ∨ (e.2 : WithBot ℚ) ≤ latest) :
    e ∈ pruneNonces now seen ∨ (e.2 : WithBot ℚ) ≤ max latest now := by
  rcases h with h | h
  · rcases mem_pruneNonces h with h | h
    · exact .inl h
    · exact .inr ((WithBot.coe_le_coe.mpr h).trans (le_max_right _ _))
  · exact .inr (h.trans (le_max_left _ _))

theorem Inv.decode {s : ReplayState} (h : Inv F s) {call : DecodeCall}
    (hlatest : s.latest < ((call.now + 30 : ℚ) : WithBot ℚ))
    (hu : unforged F mac loads s.signed call.value) :
    Inv F { s with
      receiver := s.receiver.receive F mac loads call
      latest := max s.latest call.now } := by
  rcases Receiver.receive_cases s.receiver call with ⟨p, hp, ha, heq⟩ | heq | heq
  · obtain ⟨e, he, hg⟩ := h.recorded.encoding call hp ha hu
    have hnew := h.not_again ha hlatest he ⟨hg.nonce, hg.timestamp⟩
    rw [heq]
    refine { h with genuine := ?_, window := ?_, cached := ?_, once := ?_ }
    · intro a hmem
      rcases List.mem_cons.mp hmem with rfl | hmem
      · exact ⟨e, he, hg⟩
      · exact h.genuine a hmem
    · intro a hmem
      rcases List.mem_cons.mp hmem with rfl | hmem
      · exact ⟨ha.lower, ha.upper⟩
      · exact h.window a hmem
    · intro a hmem
      rcases List.mem_cons.mp hmem with rfl | hmem
      · exact .inl (Assoc.mem_of_lookup (Assoc.lookup_assign_self _ _ _))
      · exact (cached_prune (h.cached a hmem)).imp_left
          fun hc => Assoc.mem_assign_of_ne _ hc (hnew a hmem)
    · refine List.nodup_cons.mpr ⟨fun hmem => ?_, h.once⟩
      obtain ⟨a, hmem, hn⟩ := List.mem_map.mp hmem
      exact hnew a hmem hn
  · rw [heq]
    refine { h with cached := fun a hmem => ?_ }
    exact (h.cached a hmem).imp_right fun hc => hc.trans (le_max_left _ _)
  · rw [heq]
    exact { h with cached := fun a hmem => cached_prune (h.cached a hmem) }

/-- Every step keeps the invariant. -/
theorem Inv.step {s t : ReplayState} {a : ReplayAction} (h : Inv F s)
    (hst : step F mac loads s a = some t) : Inv F t := by
  cases a with
  | encode botId subject payload nonce clock =>
    simp only [ReplayState.step] at hst
    split_ifs at hst with hn
    cases henc : Botnats.encode F mac botId subject payload nonce clock with
    | error e =>
      simp only [henc] at hst
      obtain rfl := Option.some.inj hst
      exact h
    | ok value =>
      simp only [henc] at hst
      obtain rfl := Option.some.inj hst
      have hrec := h.recorded.encode henc
      refine { h with fresh := ?_, unused := hrec.unused, signed := hrec.signed, genuine := ?_ }
      · exact List.nodup_cons.mpr ⟨hn.2, h.fresh⟩
      · intro a ha
        obtain ⟨e, he, hg⟩ := h.genuine a ha
        exact ⟨e, List.mem_cons_of_mem _ he, hg⟩
  | sign tag fields =>
    obtain rfl := Option.some.inj hst
    exact { h with signed := (h.recorded.sign tag fields).signed }
  | decode call =>
    simp only [ReplayState.step] at hst
    split_ifs at hst with hc
    obtain rfl := Option.some.inj hst
    exact h.decode hc.1 hc.2

/-- In every run no nonce is accepted twice, and every accepted call goes back to an
encoding with its nonce and timestamp, and with its sender, subject and payload up to
joining surrogate pairs; without surrogates the payloads are equal dictionaries. -/
theorem accepted_once (F : FloatRepr) (mac : Str → Str)
    (loads : List Byte → Except LoadsError Json) (s : ReplayState)
    (h : Machine.Reachable (ReplayState.step F mac loads) init s) :
    (s.receiver.accepted.map Accepted.nonce).Nodup ∧
      ∀ a ∈ s.receiver.accepted, ∃ e ∈ s.encoded, Genuine e a ∧
        (WellFormed e.sender → WellFormed a.sender → e.sender = a.sender) ∧
        (WellFormed e.subject → WellFormed a.subject → e.subject = a.subject) ∧
        (NoSurrogates (.obj e.payload) → NoSurrogates (.obj a.payload) →
          sortKeys (.obj e.payload) = sortKeys (.obj a.payload)) := by
  have hinv : Inv F s := h.invariant (fun _ _ _ hi hst => hi.step hst) inv_init
  refine ⟨hinv.once, fun a ha => ?_⟩
  obtain ⟨e, he, hg⟩ := hinv.genuine a ha
  refine ⟨e, he, hg, ?_, ?_, ?_⟩
  · exact fun hwe hwa => utf16_injOn hwe hwa hg.sender
  · exact fun hwe hwa => utf16_injOn hwe hwa hg.subject
  · exact fun hwe hwa => canonical_injOn _ _ hwe hwa hg.payload

/-! ## A run -/

def sampleNonce : Str := lit "0123456789abcdef0123456789abcdef"

/-- The digest of the one text signed below, under a key of thirty-two `k`s. -/
def sampleSignature : Str :=
  lit "5e4a6af2cad12c2287687ab412c19ffffb2cf976d31dd2cffd1e8662a20cb217"

/-- The text of the envelope around the field `nick`. -/
def sampleText (nick : List Byte) : List Byte :=
  utf8 (lit "\x7b\"nonce\":\"" ++ sampleNonce ++
    lit "\",\"payload\":\x7b\"_botnats_subject\":\"s\",\"nick\":\"") ++ nick ++
    utf8 (lit "\"\x7d,\"sender\":\"a\",\"signature\":\"" ++ sampleSignature ++
      lit "\",\"timestamp\":0\x7d")

/-- The value of that text for the string its field `nick` denotes. -/
def sampleValue (nick : Str) : Json :=
  .obj [(lit "nonce", .str sampleNonce),
    (lit "payload", .obj [(lit "_botnats_subject", .str (lit "s")), (lit "nick", .str nick)]),
    (lit "sender", .str (lit "a")), (lit "signature", .str sampleSignature),
    (lit "timestamp", .int 0)]

/-- U+1F600 as an escaped pair, and as the bytes of two surrogates, which
`json.loads` lets pass. -/
def escapedPair : List Byte := utf8 (lit "\\ud83d\\ude00")

def surrogateBytes : List Byte := [0xed, 0xa0, 0xbd, 0xed, 0xb8, 0x80]

def sampleLoads (value : List Byte) : Except LoadsError Json :=
  if value = sampleText escapedPair then .ok (sampleValue [0x1F600])
  else if value = sampleText surrogateBytes then .ok (sampleValue [0xD83D, 0xDE00])
  else .error .invalid

def sampleEncode : ReplayAction :=
  .encode (lit "a") (lit "s") [(lit "nick", .str [0x1F600])] sampleNonce 0

/-- The same bytes twice: the first call accepts, the second is a replay. -/
def replay : List ReplayAction :=
  [.decode ⟨lit "s", [], 5⟩, sampleEncode, .sign (lit "channel-v1") [lit "#test"],
    .decode ⟨lit "t", sampleText escapedPair, 0⟩, .decode ⟨lit "s", sampleText escapedPair, 30⟩,
    .decode ⟨lit "s", sampleText escapedPair, 1⟩]

theorem accepted_once_replay : ∃ s,
    Machine.run (step unaryFloatRepr (fun _ => sampleSignature) sampleLoads) init replay = some s ∧
    s.receiver.accepted.map (fun a => (a.nonce, a.time, text (lit "nick") a.payload)) =
      [(sampleNonce, 30, some [0x1F600])] ∧
    (s.receiver.accepted.map Accepted.nonce).Nodup := by
  have hrun : (Machine.run (step unaryFloatRepr (fun _ => sampleSignature) sampleLoads) init
      replay).map (fun s => s.receiver.accepted.map
        fun a => (a.nonce, a.time, text (lit "nick") a.payload)) =
      some [(sampleNonce, 30, some [0x1F600])] := by
    decide +kernel
  obtain ⟨s, hs, haccepted⟩ := Option.map_eq_some_iff.mp hrun
  exact ⟨s, hs, haccepted, (accepted_once _ _ _ s ⟨replay, hs⟩).1⟩

/-- One character of the payload is replaced by the bytes of its two surrogates. -/
def tampered : List ReplayAction :=
  [sampleEncode, .decode ⟨lit "s", sampleText surrogateBytes, 0⟩]

theorem not_accepted_exact : ¬ ∀ (F : FloatRepr) (mac : Str → Str)
    (loads : List Byte → Except LoadsError Json) (s : ReplayState),
    Machine.Reachable (ReplayState.step F mac loads) init s →
      (s.receiver.accepted.map Accepted.nonce).Nodup ∧
        ∀ a ∈ s.receiver.accepted, ∃ e ∈ s.encoded, e.nonce = a.nonce ∧
          e.timestamp = a.timestamp ∧ e.sender = a.sender ∧ e.subject = a.subject ∧
          sortKeys (.obj e.payload) = sortKeys (.obj a.payload) := by
  intro hall
  have hrun : (Machine.run (step unaryFloatRepr (fun _ => sampleSignature) sampleLoads) init
      tampered).map (fun s => (s.encoded.map fun e => text (lit "nick") e.payload,
        s.receiver.accepted.map fun a => text (lit "nick") a.payload)) =
      some ([some [0x1F600]], [some [0xD83D, 0xDE00]]) := by
    decide +kernel
  obtain ⟨s, hs, hnicks⟩ := Option.map_eq_some_iff.mp hrun
  obtain ⟨hencoded, haccepted⟩ := Prod.mk.inj hnicks
  have hmem : some [0xD83D, 0xDE00] ∈
      s.receiver.accepted.map fun a => text (lit "nick") a.payload := by
    rw [haccepted]
    exact List.mem_cons_self
  obtain ⟨a, ha, hnick⟩ := List.mem_map.mp hmem
  obtain ⟨e, he, _, _, _, _, hpayload⟩ := (hall _ _ _ s ⟨tampered, hs⟩).2 a ha
  have hnick' : text (lit "nick") e.payload = some [0x1F600] := by
    have hin := List.mem_map_of_mem (f := fun e => text (lit "nick") e.payload) he
    rw [hencoded] at hin
    exact List.mem_singleton.mp hin
  rw [sortKeys_obj_eq, sortKeys_obj_eq] at hpayload
  have hsame : text (lit "nick") e.payload = text (lit "nick") a.payload := by
    rw [← text_sortedFields, JsonOf.obj.inj hpayload, text_sortedFields]
  rw [hnick, hnick'] at hsame
  simp at hsame

end ReplayState
end Botnats
