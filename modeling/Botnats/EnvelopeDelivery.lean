import Botnats.Envelope

/-!
# Genuine envelopes get through

What `encode` writes, `decode` reads back, whatever the receiver was sent before.
The canonical text of a parsed payload is the text that was signed, and a receiver's
cache only ever holds nonces it accepted, so no rejected call stands in the way.
-/
namespace Botnats

open Json

variable {F : FloatRepr} {mac : Str → Str} {loads : List Byte → Except LoadsError Json}

/-- The signed text does not depend on the order of the payload's keys. -/
theorem body_sortedFields (nonce : Str) (payload : Fields) (sender : Str) (timestamp : ℤ) :
    body F nonce (sortedFields payload) sender timestamp =
      body F nonce payload sender timestamp := by
  have hsort : sortKeys (.obj (sortedFields payload)) = sortKeys (.obj payload) := by
    rw [← sortKeys_obj_eq, sortKeys_sortKeys]
  rw [body, body, dumps, dumps, canonical, canonical, sortKeys_obj, sortKeys_obj]
  simp only [List.map_cons, hsort]

/-- Python's equality of values: dictionaries do not compare the order of keys. -/
def Equal (v w : Json) : Prop := sortKeys v = sortKeys w

/-- The parsed envelope has the parts that were written. -/
theorem parts_envelopeFields {botId subject nonce : Str} {payload : Fields} {timestamp : ℤ}
    (hmac : ∀ t, hexText 64 (mac t)) (hnonce : hexText 32 nonce) (hid : botId ≠ []) :
    parts (sortedFields (envelopeFields F mac botId subject payload nonce timestamp)) =
      some ⟨nonce, sortedFields (payload ++ [(subjectField, .str subject)]), botId,
        mac (body F nonce (payload ++ [(subjectField, .str subject)]) botId timestamp),
        timestamp⟩ := by
  have hkeys : lit "nonce" ≠ lit "payload" ∧ lit "nonce" ≠ lit "sender" ∧
      lit "nonce" ≠ lit "signature" ∧ lit "nonce" ≠ lit "timestamp" ∧
      lit "payload" ≠ lit "sender" ∧ lit "payload" ≠ lit "signature" ∧
      lit "payload" ≠ lit "timestamp" ∧ lit "sender" ≠ lit "signature" ∧
      lit "sender" ≠ lit "timestamp" ∧ lit "signature" ≠ lit "timestamp" := by decide
  obtain ⟨h₁, h₂, h₃, h₄, h₅, h₆, h₇, h₈, h₉, h₁₀⟩ := hkeys
  have hempty : botId.isEmpty = false := by simpa using hid
  simp only [parts, lookup_sortedFields, envelopeFields, Assoc.lookup_cons, if_true, h₁, h₂, h₃,
    h₄, h₅, h₆, h₇, h₈, h₉, h₁₀, if_false, Option.map_some, sortKeys_obj_eq, sortKeys_str,
    sortKeys_int, hnonce, hmac, hempty, Bool.not_false, Bool.and_self]

theorem proper_envelopeFields {botId subject nonce : Str} {payload : Fields} {timestamp : ℤ}
    (hmac : ∀ t, hexText 64 (mac t)) (hnonce : hexText 32 nonce) (hid : WellFormed botId)
    (hsubject : WellFormed subject) (hpayload : Proper (.obj payload))
    (hfree : Assoc.lookup subjectField payload = none) :
    Proper (.obj (envelopeFields F mac botId subject payload nonce timestamp)) := by
  have hwf : ∀ {s : String}, ((lit s).all fun c => decide (c.val < 0xD800)) = true →
      WellFormed (lit s) := fun h => (low_of_all h).wellFormed
  have hsigned : Proper (.obj (payload ++ [(subjectField, .str subject)])) := by
    refine ⟨?_, (all_fields _).mpr fun e he => ?_⟩
    · rw [List.map_append, List.nodup_append]
      refine ⟨hpayload.1, by simp, fun k hk j hj => ?_⟩
      obtain ⟨e, he, rfl⟩ := List.mem_map.mp hk
      obtain rfl : j = subjectField := by simpa using hj
      exact Assoc.lookup_eq_none.mp hfree e he
    · rcases List.mem_append.mp he with he | he
      · exact (all_fields _).mp hpayload.2 e he
      · obtain rfl := List.mem_singleton.mp he
        exact ⟨hwf (by decide), hsubject⟩
  refine ⟨by simp only [envelopeFields, List.map_cons, List.map_nil]; decide,
    (all_fields _).mpr ?_⟩
  simp only [envelopeFields, List.forall_mem_cons]
  refine ⟨⟨hwf (by decide), (hexText_low hnonce).wellFormed⟩, ⟨hwf (by decide), hsigned⟩,
    ⟨hwf (by decide), hid⟩, ⟨hwf (by decide), (hexText_low (hmac _)).wellFormed⟩,
    ⟨hwf (by decide), trivial⟩, List.forall_mem_nil _⟩

/-- What `encode` wrote under any key is read back. -/
theorem readEnvelope_encoded {botId subject nonce : Str} {payload : Fields} {timestamp : ℤ}
    (hloads : ∀ v, Proper v → loads (utf8 (dumps F v)) = .ok (sortKeys v))
    (hmac : ∀ t, hexText 64 (mac t)) (hid : WellFormed botId ∧ botId ≠ [])
    (hsubject : WellFormed subject) (hnonce : hexText 32 nonce) (hpayload : Proper (.obj payload))
    (hfree : Assoc.lookup subjectField payload = none)
    (hsize : (utf8 (dumps F (.obj (envelopeFields F mac botId subject payload nonce
      timestamp)))).length ≤ maxEnvelopeBytes) :
    readEnvelope loads (utf8 (dumps F (.obj (envelopeFields F mac botId subject payload nonce
        timestamp)))) =
      .ok ⟨nonce, sortedFields (payload ++ [(subjectField, .str subject)]), botId,
        mac (body F nonce (payload ++ [(subjectField, .str subject)]) botId timestamp),
        timestamp⟩ := by
  have hproper : Proper (.obj (envelopeFields F mac botId subject payload nonce timestamp)) :=
    proper_envelopeFields hmac hnonce hid.1 hsubject hpayload hfree
  rw [readEnvelope, if_neg (not_lt.mpr hsize), hloads _ hproper, sortKeys_obj_eq]
  simp only [parts_envelopeFields hmac hnonce hid.2]

/-! ## The receiver -/

/-- A call that does not accept what it reads adds nothing. -/
theorem accepted_of_not_accepts {r : Receiver} {c : DecodeCall}
    (h : ∀ p, readEnvelope loads c.value = .ok p → ¬ Accepts F mac r.seen c.now c.subject p) :
    (r.receive F mac loads c).accepted = r.accepted := by
  rcases r.receive_cases c with ⟨p, hread, haccepts, -⟩ | heq | heq
  · exact absurd haccepts (h p hread)
  · rw [heq]
  · rw [heq]

/-- The cache holds only nonces of accepted calls. -/
theorem seen_subset_accepted (r : Receiver)
    (h : Machine.Reachable (fun r c => some (Receiver.receive F mac loads r c)) Receiver.init r) :
    ∀ e ∈ r.seen, ∃ a ∈ r.accepted, a.nonce = e.1 := by
  refine h.invariant (P := fun r => ∀ e ∈ r.seen, ∃ a ∈ r.accepted, a.nonce = e.1)
    (fun s c t hs hst => ?_) (by simp [Receiver.init])
  obtain rfl := Option.some.inj hst
  rcases s.receive_cases c with ⟨p, _, ha, heq⟩ | heq | heq
  · rw [heq]
    intro e he
    rcases Assoc.mem_assign he with rfl | he
    · exact ⟨_, List.mem_cons_self, rfl⟩
    · obtain ⟨a, hmem, hn⟩ := hs e (pruneNonces_subset he)
      exact ⟨a, List.mem_cons_of_mem _ hmem, hn⟩
  · rw [heq]
    exact hs
  · rw [heq]
    exact fun e he => hs e (pruneNonces_subset he)

/-- An envelope that `encode` returned is decoded to its sender and payload by every
receiver with the key that did not accept its nonce before, whatever calls the
receiver has seen, while the receiver's clock is within 30 seconds of its timestamp. -/
theorem decode_encode (F : FloatRepr) (mac : Str → Str)
    (loads : List Byte → Except LoadsError Json) (hmac : ∀ t, hexText 64 (mac t))
    (hloads : ∀ v, Proper v → loads (utf8 (dumps F v)) = .ok (sortKeys v))
    (r : Receiver)
    (hr : Machine.Reachable (fun r c => some (Receiver.receive F mac loads r c)) Receiver.init r)
    (botId subject nonce : Str) (payload : Fields) (clock now : ℚ) (value : List Byte)
    (hid : WellFormed botId ∧ botId ≠ []) (hsubject : WellFormed subject)
    (hnonce : hexText 32 nonce) (hpayload : Proper (.obj payload))
    (hencode : encode F mac botId subject payload nonce clock = .ok value)
    (hclock : |now - truncate clock| ≤ 30) (hfresh : ∀ a ∈ r.accepted, a.nonce ≠ nonce) :
    ∃ result, (decode F mac loads r.seen now subject value).2 = .ok (botId, result) ∧
      Equal (.obj result) (.obj payload) := by
  obtain ⟨hfree, hsize, rfl⟩ := encode_eq_ok hencode
  have hread := readEnvelope_encoded hloads hmac hid hsubject hnonce hpayload hfree hsize
  have hunseen : Assoc.lookup nonce (pruneNonces now r.seen) = none := by
    rw [Assoc.lookup_eq_none]
    intro e he hk
    obtain ⟨a, ha, hn⟩ := seen_subset_accepted r hr e (pruneNonces_subset he)
    exact hfresh a ha (hn.trans hk)
  have hwindow := abs_le.mp hclock
  have haccepts : Accepts F mac r.seen now subject ⟨nonce, sortedFields (payload ++
      [(subjectField, .str subject)]), botId, mac (body F nonce (payload ++
      [(subjectField, .str subject)]) botId (truncate clock)), truncate clock⟩ := {
    lower := by
      simp only [timestampDriftWindow]
      linarith [hwindow.2]
    upper := by
      simp only [timestampDriftWindow]
      linarith [hwindow.1]
    unseen := hunseen
    signed := by rw [body_sortedFields]
    bound := by rw [lookup_sortedFields, lookup_subject hfree, Option.map_some, sortKeys_str] }
  refine ⟨sortedFields payload, ?_, ?_⟩
  · rw [decode_of_accepts hread haccepts, discard_sortedFields, discard_subject hfree]
  · rw [Equal, ← sortKeys_obj_eq, sortKeys_sortKeys]

open Classical in
/-- The inverse of the canonical text, in the place of the JSON library. -/
noncomputable def readBack (F : FloatRepr) (value : List Byte) : Except LoadsError Json :=
  if h : ∃ v, Proper v ∧ utf8 (dumps F v) = value then .ok (sortKeys h.choose)
  else .error .invalid

theorem Json.Proper.noSurrogates {v : Json} (h : Proper v) : NoSurrogates v := by
  induction v using JsonOf.induct with
  | str s => exact h
  | arr vs ih => exact (all_items vs).mpr fun v hv => ih v hv ((all_items vs).mp h v hv)
  | obj es ih =>
    refine ⟨trivial, (all_fields es).mpr fun e he => ?_⟩
    have hfield := (all_fields es).mp h.2 e he
    exact ⟨hfield.1, ih e he hfield.2⟩
  | _ => trivial

theorem readBack_dumps {v : Json} (hv : Proper v) :
    readBack F (utf8 (dumps F v)) = .ok (sortKeys v) := by
  have hex : ∃ w, Proper w ∧ utf8 (dumps F w) = utf8 (dumps F v) := ⟨v, hv, rfl⟩
  obtain ⟨hw, htext⟩ := hex.choose_spec
  have hdumps := utf8_injOn (dumps_ascii F _) (dumps_ascii F _) htext
  rw [readBack, dif_pos hex,
    canonical_injOn _ _ hw.noSurrogates hv.noSurrogates (dumps_inj.mp hdumps)]

def sampleKey (_ : Str) : Str :=
  lit "293d2889703e6ec81ac2352a718202076d7ff5f318f76a9dd95c87be3e960c9c"

/-- A key of a writer without the secret -/
def forgedKey (_ : Str) : Str := List.replicate 64 48

theorem sampleKey_hex (t : Str) : hexText 64 (sampleKey t) = true := by
  rw [sampleKey]
  decide

theorem forgedKey_hex (t : Str) : hexText 64 (forgedKey t) = true := by
  rw [forgedKey]
  decide

/-- A message of the bot `alpha` under a key, on the channel subject -/
def sampleFields (mac : Str → Str) : Fields :=
  envelopeFields unaryFloatRepr mac (lit "alpha") (lit "botnats.v1.efnet.channel")
    [(lit "channel", .str (lit "#test"))] (lit "0123456789abcdef0123456789abcdef") 1700000000

theorem readEnvelope_sampleFields (mac : Str → Str) (hmac : ∀ t, hexText 64 (mac t))
    (hsize : (utf8 (dumps unaryFloatRepr (.obj (sampleFields mac)))).length ≤ maxEnvelopeBytes) :
    readEnvelope (readBack unaryFloatRepr) (utf8 (dumps unaryFloatRepr (.obj (sampleFields mac)))) =
      .ok ⟨lit "0123456789abcdef0123456789abcdef",
        sortedFields [(lit "channel", .str (lit "#test")),
          (subjectField, .str (lit "botnats.v1.efnet.channel"))], lit "alpha",
        mac (body unaryFloatRepr (lit "0123456789abcdef0123456789abcdef")
          [(lit "channel", .str (lit "#test")),
            (subjectField, .str (lit "botnats.v1.efnet.channel"))] (lit "alpha") 1700000000),
        1700000000⟩ := by
  have hlow : ∀ {s : String}, ((lit s).all fun c => decide (c.val < 0xD800)) = true →
      WellFormed (lit s) := fun h => (low_of_all h).wellFormed
  exact readEnvelope_encoded (fun v hv => readBack_dumps hv) hmac ⟨hlow (by decide), by decide⟩
    (hlow (by decide)) (by decide) ⟨by decide, ⟨hlow (by decide), hlow (by decide)⟩, trivial⟩
    (by decide) hsize

/-- What the receiver was sent before: a text that is no envelope, a forgery with the nonce of the
message, and the message itself on another subject -/
noncomputable def sampleCalls : List DecodeCall :=
  [⟨lit "botnats.v1.efnet.channel", utf8 (dumps unaryFloatRepr .null), 1700000001⟩,
    ⟨lit "botnats.v1.efnet.channel", utf8 (dumps unaryFloatRepr (.obj (sampleFields forgedKey))),
      1700000002⟩,
    ⟨lit "botnats.v1.efnet.help", utf8 (dumps unaryFloatRepr (.obj (sampleFields sampleKey))),
      1700000003⟩]

noncomputable def sampleReceiver : Receiver :=
  sampleCalls.foldl (Receiver.receive unaryFloatRepr sampleKey (readBack unaryFloatRepr))
    Receiver.init

theorem reachable_sampleReceiver : Machine.Reachable (fun r c =>
    some (Receiver.receive unaryFloatRepr sampleKey (readBack unaryFloatRepr) r c)) Receiver.init
    sampleReceiver := by
  refine ⟨sampleCalls, ?_⟩
  simp only [sampleReceiver, sampleCalls, Machine.run_cons, Option.bind_some, Machine.run_nil,
    List.foldl_cons, List.foldl_nil]

/-- None of the calls was accepted. -/
theorem sampleReceiver_accepted : sampleReceiver.accepted = [] := by
  unfold sampleReceiver sampleCalls
  rw [List.foldl_cons, List.foldl_cons, List.foldl_cons, List.foldl_nil]
  rw [accepted_of_not_accepts, accepted_of_not_accepts, accepted_of_not_accepts]
  · rfl
  · intro p hread
    rw [readEnvelope, if_neg (by decide +kernel),
      readBack_dumps (show Proper .null from trivial)] at hread
    cases hread
  · intro p hread haccepts
    rw [readEnvelope_sampleFields forgedKey forgedKey_hex (by decide +kernel)] at hread
    obtain rfl := Except.ok.inj hread
    exact absurd haccepts.signed (by decide)
  · intro p hread haccepts
    rw [readEnvelope_sampleFields sampleKey sampleKey_hex (by decide +kernel)] at hread
    obtain rfl := Except.ok.inj hread
    have hbound := haccepts.bound
    rw [lookup_sortedFields] at hbound
    simp [Assoc.lookup, subjectField, lit] at hbound

theorem decode_encode_channel : ∃ result, (decode unaryFloatRepr sampleKey (readBack unaryFloatRepr)
      sampleReceiver.seen 1700000030 (lit "botnats.v1.efnet.channel")
      (utf8 (dumps unaryFloatRepr (.obj (sampleFields sampleKey))))).2 = .ok (lit "alpha", result) ∧
    Equal (.obj result) (.obj [(lit "channel", .str (lit "#test"))]) := by
  have hlow : ∀ {s : String}, ((lit s).all fun c => decide (c.val < 0xD800)) = true →
      WellFormed (lit s) := fun h => (low_of_all h).wellFormed
  have htime : truncate (1700000000 + 1 / 2) = 1700000000 := by decide +kernel
  refine decode_encode unaryFloatRepr sampleKey (readBack unaryFloatRepr) sampleKey_hex
    (fun v hv => readBack_dumps hv) sampleReceiver reachable_sampleReceiver (lit "alpha")
    (lit "botnats.v1.efnet.channel") (lit "0123456789abcdef0123456789abcdef")
    [(lit "channel", .str (lit "#test"))] (1700000000 + 1 / 2) 1700000030 _
    ⟨hlow (by decide), by decide⟩ (hlow (by decide)) (by decide)
    ⟨by decide, ⟨hlow (by decide), hlow (by decide)⟩, trivial⟩ ?_ ?_
    (by simp [sampleReceiver_accepted])
  · rw [encode, if_neg (by decide), htime]
    exact if_neg (by decide +kernel)
  · rw [htime]
    norm_num

end Botnats
