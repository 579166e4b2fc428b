import Botnats.Machine
import Botnats.Json

/-!
# Signed envelopes

`Envelope.encode` and `Envelope.decode` of `nats/envelope.py`. The digest under the
coordination key, `json.loads` and `float.__repr__` are parameters. Everything that
depends on the receiver is its cache of nonces and the reading of its clock.
-/
namespace Botnats

/-! ## Encoding and decoding -/

def maxEnvelopeBytes : ℕ := 262144

def nonceTtl : ℚ := 90

def timestampDriftWindow : ℚ := 30

def subjectField : Str := lit "_botnats_subject"

/-- What `json.loads` raises. -/
inductive LoadsError
  | recursion
  | invalid
  deriving DecidableEq

inductive EnvelopeError
  | reserved
  | oversized
  | nested
  | invalid
  | notObject
  | malformed
  | drift
  | replayed
  | badSignature
  | unbound
  | wrongSubject
  deriving DecidableEq

/-- The message of a raised error; the text of a parse error is the library's. -/
def EnvelopeError.message : EnvelopeError → Option String
  | .reserved => some "payload field '_botnats_subject' is reserved"
  | .oversized => some "NATS envelope exceeds the size limit"
  | .nested => some "NATS envelope is too deeply nested"
  | .invalid => none
  | .notObject => some "NATS envelope is not an object"
  | .malformed => some "NATS envelope is malformed"
  | .drift => some "NATS envelope timestamp is outside the allowed window"
  | .replayed => some "NATS envelope was replayed"
  | .badSignature => some "NATS envelope signature is invalid"
  | .unbound => some "NATS envelope is not bound to a subject"
  | .wrongSubject => some "NATS envelope subject is invalid"

/-- The five fields of an envelope. -/
structure Parts where
  nonce : Str
  payload : Fields
  sender : Str
  signature : Str
  timestamp : ℤ

/-- The field checks of `decode`. -/
def parts (envelope : Fields) : Option Parts :=
  match Assoc.lookup (lit "nonce") envelope, Assoc.lookup (lit "payload") envelope,
    Assoc.lookup (lit "sender") envelope, Assoc.lookup (lit "signature") envelope,
    Assoc.lookup (lit "timestamp") envelope with
  | some (.str nonce), some (.obj payload), some (.str sender), some (.str signature),
    some (.int timestamp) =>
    if hexText 32 nonce && !sender.isEmpty && hexText 64 signature then
      some ⟨nonce, payload, sender, signature, timestamp⟩
    else none
  | _, _, _, _, _ => none

/-- `seen_nonces`, oldest first. -/
abbrev SeenNonces := List (Str × ℚ)

/-- `prune_nonces`: expired entries leave from the front. -/
def pruneNonces (now : ℚ) (seen : SeenNonces) : SeenNonces := seen.dropWhile fun e => e.2 ≤ now

section Codec

variable (F : FloatRepr) (mac : Str → Str) (loads : List Byte → Except LoadsError Json)

/-- `Envelope.body`, before it is encoded to bytes -/
def body (nonce : Str) (payload : Fields) (sender : Str) (timestamp : ℤ) : Str :=
  Json.dumps F (.obj [(lit "nonce", .str nonce), (lit "payload", .obj payload),
    (lit "sender", .str sender), (lit "timestamp", .int timestamp)])

/-- The envelope that `encode` writes. -/
def envelopeFields (botId subject : Str) (payload : Fields) (nonce : Str) (timestamp : ℤ) :
    Fields :=
  let signedPayload := payload ++ [(subjectField, .str subject)]
  [(lit "nonce", .str nonce), (lit "payload", .obj signedPayload), (lit "sender", .str botId),
    (lit "signature", .str (mac (body F nonce signedPayload botId timestamp))),
    (lit "timestamp", .int timestamp)]

/-- `Envelope.encode` with the nonce and the reading it draws -/
def encode (botId subject : Str) (payload : Fields) (nonce : Str) (clock : ℚ) :
    Except EnvelopeError (List Byte) :=
  if (Assoc.lookup subjectField payload).isSome then .error .reserved
  else
    let envelope := envelopeFields F mac botId subject payload nonce (truncate clock)
    let encoded := utf8 (Json.dumps F (.obj envelope))
    if encoded.length > maxEnvelopeBytes then .error .oversized else .ok encoded

/-- `decode` up to the field checks. -/
def readEnvelope (value : List Byte) : Except EnvelopeError Parts :=
  if value.length > maxEnvelopeBytes then .error .oversized
  else
    match loads value with
    | .error .recursion => .error .nested
    | .error .invalid => .error .invalid
    | .ok (.obj envelope) =>
      match parts envelope with
      | some p => .ok p
      | none => .error .malformed
    | .ok _ => .error .notObject

/-- `decode` from the signature on. -/
def verify (subject : Str) (p : Parts) : Except EnvelopeError (Str × Fields) :=
  if mac (body F p.nonce p.payload p.sender p.timestamp) ≠ p.signature then .error .badSignature
  else
    match Assoc.lookup subjectField p.payload with
    | none | some .null => .error .unbound
    | some (.str bound) =>
      if bound ≠ subject then .error .wrongSubject
      else .ok (p.sender, Assoc.discard subjectField p.payload)
    | some _ => .error .wrongSubject

/-- `Envelope.decode`: the cache after the call and what it returns or raises -/
def decode (seen : SeenNonces) (now : ℚ) (subject : Str) (value : List Byte) :
    SeenNonces × Except EnvelopeError (Str × Fields) :=
  match readEnvelope loads value with
  | .error e => (seen, .error e)
  | .ok p =>
    if ¬ (now - timestampDriftWindow ≤ p.timestamp ∧
        (p.timestamp : ℚ) ≤ now + timestampDriftWindow) then
      (seen, .error .drift)
    else
      let seen := pruneNonces now seen
      if (Assoc.lookup p.nonce seen).isSome then (seen, .error .replayed)
      else
        match verify F mac subject p with
        | .error e => (seen, .error e)
        | .ok result => (Assoc.assign p.nonce (now + nonceTtl) seen, .ok result)

/-! ## The receiver -/

/-- An accepted call, with the fields of the envelope it accepted. -/
structure Accepted where
  nonce : Str
  sender : Str
  subject : Str
  payload : Fields
  timestamp : ℤ
  time : ℚ

/-- A receiver: its cache, and every call it accepted so far, newest first. -/
structure Receiver where
  seen : SeenNonces
  accepted : List Accepted

/-- One call of `decode`. -/
structure DecodeCall where
  subject : Str
  value : List Byte
  now : ℚ

namespace Receiver

def init : Receiver := ⟨[], []⟩

def receive (r : Receiver) (c : DecodeCall) : Receiver :=
  match readEnvelope loads c.value, decode F mac loads r.seen c.now c.subject c.value with
  | .ok p, (seen, .ok (sender, payload)) =>
    ⟨seen, ⟨p.nonce, sender, c.subject, payload, p.timestamp, c.now⟩ :: r.accepted⟩
  | _, (seen, _) => ⟨seen, r.accepted⟩

end Receiver

variable {F mac loads}

theorem encode_eq_ok {botId subject nonce : Str} {payload : Fields} {clock : ℚ}
    {value : List Byte} (h : encode F mac botId subject payload nonce clock = .ok value) :
    Assoc.lookup subjectField payload = none ∧ value.length ≤ maxEnvelopeBytes ∧
      value = utf8 (Json.dumps F (.obj (envelopeFields F mac botId subject payload nonce
        (truncate clock)))) := by
  unfold encode at h
  split_ifs at h with hr
  dsimp only at h
  split_ifs at h with hl
  have hvalue := Except.ok.inj h
  refine ⟨by simpa using hr, ?_, hvalue.symm⟩
  rw [← hvalue]
  exact not_lt.mp hl

theorem subjectField_low : Low subjectField := low_of_all (by decide)

theorem lookup_subject {payload : Fields} (h : Assoc.lookup subjectField payload = none)
    (subject : Str) : Assoc.lookup subjectField (payload ++ [(subjectField, JsonOf.str subject)]) =
      some (.str subject) := by
  rw [Assoc.lookup_append, h]
  simp

theorem discard_subject {payload : Fields} (h : Assoc.lookup subjectField payload = none)
    (subject : Str) : Assoc.discard subjectField (payload ++ [(subjectField, JsonOf.str subject)]) =
      payload := by
  rw [Assoc.discard_append, Assoc.discard_of_lookup_eq_none h, Assoc.discard_singleton,
    List.append_nil]

theorem hexText_low {n : ℕ} {s : Str} (h : hexText n s) : Low s := by
  simp only [hexText, List.all_eq_true, decide_eq_true_eq] at h
  intro c hc
  have := h.2 c hc
  omega

/-- The signed text determines its parts, strings up to joining surrogate pairs. -/
theorem body_inj {n n' s s' : Str} {p p' : Fields} {t t' : ℤ}
    (h : body F n p s t = body F n' p' s' t') : utf16 n = utf16 n' ∧
      Json.canonical (.obj p) = Json.canonical (.obj p') ∧ utf16 s = utf16 s' ∧ t = t' := by
  have hcan := Json.dumps_inj.mp h
  have hread := fun (key : String) (hkey : ((lit key).all fun c => decide (c.val < 0xD800)) = true) =>
    Json.canonical_lookup (low_of_all hkey) hcan
  refine ⟨?_, ?_, ?_, ?_⟩
  · exact Json.canonical_str_inj.mp (Option.some.inj (hread "nonce" (by decide)))
  · exact Option.some.inj (hread "payload" (by decide))
  · exact Json.canonical_str_inj.mp (Option.some.inj (hread "sender" (by decide)))
  · exact Json.canonical_int_inj.mp (Option.some.inj (hread "timestamp" (by decide)))

/-- A signed text is an object. -/
theorem body_head (n : Str) (p : Fields) (s : Str) (t : ℤ) : (body F n p s t).head? = some 123 := by
  rw [body, Json.dumps, Json.canonical_obj]
  rfl

theorem parts_eq_some {envelope : Fields} {p : Parts} (h : parts envelope = some p) :
    hexText 32 p.nonce ∧ p.sender ≠ [] ∧ hexText 64 p.signature := by
  unfold parts at h
  split at h
  · split_ifs at h with hc
    obtain rfl := Option.some.inj h
    simp only [Bool.and_eq_true, Bool.not_eq_true', List.isEmpty_eq_false_iff] at hc
    exact ⟨hc.1.1, hc.1.2, hc.2⟩
  · simp at h

theorem readEnvelope_eq_ok {value : List Byte} {p : Parts} (h : readEnvelope loads value = .ok p) :
    ∃ envelope, loads value = .ok (.obj envelope) ∧ parts envelope = some p := by
  unfold readEnvelope at h
  split_ifs at h
  split at h
  · simp at h
  · simp at h
  · rename_i envelope hl
    split at h
    · rename_i q hq
      obtain rfl := Except.ok.inj h
      exact ⟨envelope, hl, hq⟩
    · simp at h
  · simp at h

theorem pruneNonces_subset {now : ℚ} {seen : SeenNonces} {e : Str × ℚ}
    (h : e ∈ pruneNonces now seen) : e ∈ seen := (List.dropWhile_sublist _).subset h

/-- Pruning only removes expired entries. -/
theorem mem_pruneNonces {now : ℚ} {seen : SeenNonces} {e : Str × ℚ} (h : e ∈ seen) :
    e ∈ pruneNonces now seen ∨ e.2 ≤ now := by
  induction seen with
  | nil => simp at h
  | cons d seen ih =>
    simp only [pruneNonces, List.dropWhile_cons] at ih ⊢
    split_ifs with hd
    · rcases List.mem_cons.mp h with rfl | h
      · exact .inr (by simpa using hd)
      · exact ih h
    · exact .inl h

theorem verify_eq_ok {subject : Str} {p : Parts} {result : Str × Fields} :
    verify F mac subject p = .ok result ↔
      mac (body F p.nonce p.payload p.sender p.timestamp) = p.signature ∧
      Assoc.lookup subjectField p.payload = some (.str subject) ∧
      result = (p.sender, Assoc.discard subjectField p.payload) := by
  unfold verify
  split_ifs with hsig
  · simp [hsig]
  · rw [not_not] at hsig
    cases hl : Assoc.lookup subjectField p.payload with
    | none => simp
    | some v =>
      cases v with
      | str bound =>
        by_cases hb : bound = subject
        · simp [hsig, hb, eq_comm]
        · simp [hb]
      | _ => simp

/-- The conditions under which a call accepts. -/
structure Accepts (F : FloatRepr) (mac : Str → Str) (seen : SeenNonces) (now : ℚ) (subject : Str)
    (p : Parts) : Prop where
  lower : now - timestampDriftWindow ≤ p.timestamp
  upper : (p.timestamp : ℚ) ≤ now + timestampDriftWindow
  unseen : Assoc.lookup p.nonce (pruneNonces now seen) = none
  signed : mac (body F p.nonce p.payload p.sender p.timestamp) = p.signature
  bound : Assoc.lookup subjectField p.payload = some (.str subject)

/-- An accepting call returns the sender and the payload without its subject field,
and records the nonce. -/
theorem decode_of_accepts {seen : SeenNonces} {now : ℚ} {subject : Str} {value : List Byte}
    {p : Parts} (hp : readEnvelope loads value = .ok p) (h : Accepts F mac seen now subject p) :
    decode F mac loads seen now subject value =
      (Assoc.assign p.nonce (now + nonceTtl) (pruneNonces now seen),
        .ok (p.sender, Assoc.discard subjectField p.payload)) := by
  have hv : verify F mac subject p = .ok (p.sender, Assoc.discard subjectField p.payload) :=
    verify_eq_ok.mpr ⟨h.signed, h.bound, rfl⟩
  simp [decode, hp, h.lower, h.upper, h.unseen, hv]

/-- A call that does not accept leaves the cache as it is or prunes it. -/
theorem decode_of_not_accepts {seen : SeenNonces} {now : ℚ} {subject : Str} {value : List Byte}
    (h : ∀ p, readEnvelope loads value = .ok p → ¬ Accepts F mac seen now subject p) :
    ∃ e, decode F mac loads seen now subject value = (seen, .error e) ∨
      decode F mac loads seen now subject value = (pruneNonces now seen, .error e) := by
  unfold decode
  cases hp : readEnvelope loads value with
  | error e => exact ⟨e, .inl rfl⟩
  | ok p =>
    by_cases hw : now - timestampDriftWindow ≤ p.timestamp ∧
        (p.timestamp : ℚ) ≤ now + timestampDriftWindow
    · dsimp only
      rw [if_neg (not_not.mpr hw)]
      by_cases hl : (Assoc.lookup p.nonce (pruneNonces now seen)).isSome
      · exact ⟨.replayed, .inr (by simp [hl])⟩
      · simp only [hl]
        cases hv : verify F mac subject p with
        | error e => exact ⟨e, .inr rfl⟩
        | ok result =>
          obtain ⟨hsig, hbound, _⟩ := verify_eq_ok.mp hv
          have hunseen : Assoc.lookup p.nonce (pruneNonces now seen) = none := by simpa using hl
          exact absurd ⟨hw.1, hw.2, hunseen, hsig, hbound⟩ (h p hp)
    · exact ⟨.drift, .inl (if_pos hw)⟩

/-- A call that returns accepts, and returns the sender and the payload of its envelope. -/
theorem decode_eq_ok {seen seen' : SeenNonces} {now : ℚ} {subject : Str} {value : List Byte}
    {result : Str × Fields} (h : decode F mac loads seen now subject value = (seen', .ok result)) :
    ∃ p, readEnvelope loads value = .ok p ∧ Accepts F mac seen now subject p ∧
      result = (p.sender, Assoc.discard subjectField p.payload) := by
  by_contra hnone
  have hnot : ∀ p, readEnvelope loads value = .ok p → ¬ Accepts F mac seen now subject p := by
    intro p hp ha
    have hsame := h.symm.trans (decode_of_accepts hp ha)
    exact hnone ⟨p, hp, ha, Except.ok.inj (Prod.mk.inj hsame).2⟩
  obtain ⟨e, he | he⟩ := decode_of_not_accepts hnot
  · rw [h] at he
    simp at he
  · rw [h] at he
    simp at he

/-- A receiver after one call: it accepts under the conditions, and otherwise no
decision of a later call changes but for expired nonces. -/
theorem Receiver.receive_cases (r : Receiver) (c : DecodeCall) :
    (∃ p, readEnvelope loads c.value = .ok p ∧ Accepts F mac r.seen c.now c.subject p ∧
      r.receive F mac loads c =
        ⟨Assoc.assign p.nonce (c.now + nonceTtl) (pruneNonces c.now r.seen),
          ⟨p.nonce, p.sender, c.subject, Assoc.discard subjectField p.payload, p.timestamp,
            c.now⟩ :: r.accepted⟩) ∨
    r.receive F mac loads c = r ∨
      r.receive F mac loads c = ⟨pruneNonces c.now r.seen, r.accepted⟩ := by
  by_cases h : ∃ p, readEnvelope loads c.value = .ok p ∧ Accepts F mac r.seen c.now c.subject p
  · obtain ⟨p, hp, ha⟩ := h
    refine .inl ⟨p, hp, ha, ?_⟩
    simp [receive, hp, decode_of_accepts hp ha]
  · right
    have hnot : ∀ p, readEnvelope loads c.value = .ok p →
        ¬ Accepts F mac r.seen c.now c.subject p := fun p hp ha => h ⟨p, hp, ha⟩
    obtain ⟨e, hd | hd⟩ := decode_of_not_accepts hnot
    · left
      cases hp : readEnvelope loads c.value <;> simp [receive, hp, hd]
    · right
      cases hp : readEnvelope loads c.value <;> simp [receive, hp, hd]

end Codec

end Botnats
