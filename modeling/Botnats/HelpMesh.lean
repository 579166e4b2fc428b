import Botnats.EnvelopeReplay
import Botnats.PeerHelp
import Botnats.PresenceClaim

/-!
# Help goes to the right peer

One bot, the messages its coordinator delivers, and everything that may happen to it
between the delivery of a help request and the delayed action that answers it. Holders
of the coordination key encode envelopes and sign store records; whatever bytes are
delivered, an envelope carries the digest of its own text only if a holder digested it.

What a request was checked for on delivery stays true of it, as its payload does not
change; all that may change in the meantime is checked by the action itself.
-/
namespace Botnats

open Json

/-- A request that waits for its delayed action, with the subject it was delivered on. -/
structure HelpRequest where
  subject : Str
  kind : Str
  payload : Fields

/-- `encoded` and `signed` are what holders of the key did so far; `sent` are the lines
of the actions, oldest first, each with its request. -/
structure HelpWorld where
  helper : Helper
  ready : Bool
  seen : SeenNonces
  pending : List HelpRequest
  sent : List (HelpRequest × HelpLine)
  encoded : List Encoded
  signed : List Str

/-- Readings of the clocks are arbitrary. The own presence is recorded apart from the
message that reveals it, which allows more orders than there are. -/
inductive HelpStep
  | encode (sender subject : Str) (payload : Fields) (nonce : Str) (clock : ℚ)
  | sign (tag : Str) (fields : List Str)
  | deliver (subject : Str) (value : List Byte) (now : ℚ)
  | act (n : ℕ) (m : Moment)
  | observe (key : Str) (record : Fields) (time now : ℚ)
  | forget (key : Str)
  | prune (now : ℚ)
  | identify (p : Prefix) (link : Str → IrcLink) (now : ℚ)
  | message (message : IRCMessage) (link : Str → IrcLink) (now : ℚ)
  | advertise (casemapping : Casemapping) (caps : ISupport) (now : ℚ)
  | disconnect (now : ℚ)
  | connection (connected ready : Bool)
  | record (record : ChannelRecord) (link : IrcLink)
  | joinDesired (link : Str → IrcLink)

namespace HelpWorld

/-- The subjects of `{ns}.*` -/
def subscribed (network subject : Str) : Bool :=
  subject = lit "botnats.v1." ++ network ++ 46 :: lastToken subject

def withBot (w : HelpWorld) (b : IrcBot) : HelpWorld :=
  { w with helper := { w.helper with bot := b } }

def withRegistry (w : HelpWorld) (g : PresenceRegistry) : HelpWorld :=
  { w with helper := { w.helper with registry := g } }

/-- A bot that has just started, with its configured nick. -/
def init (nick : Str) (ttl : ℚ) : HelpWorld where
  helper := ⟨⟨ChannelManager.init, ISupport.initial, nick, false, none, SessionSync.init⟩,
    false, ⟨ttl, []⟩⟩
  ready := false
  seen := []
  pending := []
  sent := []
  encoded := []
  signed := []

variable (F : FloatRepr) (mac : Str → Str) (loads : List Byte → Except LoadsError Json)
variable (fold : Str → Str) (S : SessionScope) (network botId instanceId : Str)

def step (w : HelpWorld) : HelpStep → Option HelpWorld
  | .encode sender subject payload nonce clock =>
    match Botnats.encode F mac sender subject payload nonce clock with
    | .error _ => some w
    | .ok _ =>
      let signedPayload := payload ++ [(subjectField, .str subject)]
      let timestamp := truncate clock
      some { w with
        encoded := ⟨nonce, sender, subject, payload, timestamp⟩ :: w.encoded
        signed := body F nonce signedPayload sender timestamp :: w.signed }
  | .sign tag fields =>
    some { w with signed := join [0] ((lit "botnats-" ++ tag) :: fields) :: w.signed }
  | .deliver subject value now =>
    if subscribed network subject ∧ ReplayState.unforged F mac loads w.signed value then
      match deliver F mac loads botId w.ready w.seen now subject value with
      | (seen, none) => some { w with seen := seen }
      | (seen, some (kind, payload)) =>
        some { w with seen := seen, pending := w.pending ++ [⟨subject, kind, payload⟩] }
    else none
  | .act n m =>
    match w.pending[n]? with
    | none => none
    | some r =>
      let (registry, lines) := w.helper.helpAfterDelay fold botId m r.kind r.payload
      some { w.withRegistry registry with
        pending := w.pending.eraseIdx n
        sent := w.sent ++ lines.map fun line => (r, line) }
  | .observe key record time now =>
    if observable mac network key w.helper.registry.ttl time record then
      match BotPresence.fromDict (.obj record) with
      | none => some w
      | some presence => some (w.withRegistry (w.helper.registry.update fold now presence))
    else some w
  | .forget key => some (w.withRegistry (w.helper.registry.remove fold key))
  | .prune now => some (w.withRegistry (w.helper.registry.prune now))
  | .identify p link now =>
    match p.user, p.host with
    | some user, some host =>
      let own : BotPresence := ⟨botId, host, instanceId, w.helper.bot.currentNick, user⟩
      let w := w.withRegistry (w.helper.registry.update fold now own)
      some (w.withBot (w.helper.bot.setIdentity link p))
    | _, _ => some w
  | .message message link now => some (w.withBot (w.helper.bot.onMessage S link now message))
  | .advertise casemapping caps now =>
    let b := w.helper.bot
    some (w.withBot { b with
      manager := b.manager.setCasemapping casemapping
      sessions := { b.sessions with
        authorizer := b.sessions.authorizer.setCasemapping now casemapping }
      caps := caps })
  | .disconnect now =>
    let b := w.helper.bot
    some (w.withBot { b with
      manager := b.manager.disconnect
      sessions := b.sessions.disconnect now
      caps := ISupport.initial
      registered := false
      identity := none })
  | .connection connected ready =>
    some { w with helper := { w.helper with connected := connected }, ready := ready }
  | .record record link =>
    let b := w.helper.bot
    some (w.withBot { b with manager := b.manager.applyRecord link record })
  | .joinDesired link =>
    let b := w.helper.bot
    some (w.withBot { b with manager := b.manager.joinDesired b.identity.isSome link })

/-- What was found when a request was delivered, up to joining surrogate pairs. -/
structure Asked (encoded : List Encoded) (r : HelpRequest) : Prop where
  subject : r.subject = lit "botnats.v1." ++ network ++ 46 :: r.kind
  owned : ∃ sender, presenceBotId r.payload = some sender ∧ sender ≠ botId ∧
    ∃ e ∈ encoded, utf16 e.subject = utf16 r.subject ∧ utf16 e.sender = utf16 sender ∧
      canonical (.obj e.payload) = canonical (.obj r.payload)

/-- Every presence in the registry is the bot's own or has an identifier. -/
structure Inv (w : HelpWorld) : Prop where
  recorded : ReplayState.Recorded F w.encoded w.signed
  asked : ∀ r ∈ w.pending, Asked network botId w.encoded r
  known : ∀ e ∈ w.helper.registry.entries, e.2.1.botId = botId ∨ identifier e.2.1.botId = true

end HelpWorld

/-- A holder of the key under the name `sender` encoded the request for its subject. -/
def SignedBy (encoded : List Encoded) (r : HelpRequest) (sender : Str) : Prop :=
  ∃ e ∈ encoded, e.subject = r.subject ∧ e.sender = sender ∧
    canonical (.obj e.payload) = canonical (.obj r.payload)

theorem identifier_low {s : Str} (h : identifier s = true) : Low s := by
  simp only [identifier, Bool.and_eq_true, List.all_eq_true, decide_eq_true_eq] at h
  intro c hc
  have hrange := h.2 c hc
  omega

theorem Low.append {s t : Str} (hs : Low s) (ht : Low t) : Low (s ++ t) := by
  intro c hc
  rcases List.mem_append.mp hc with hc | hc
  · exact hs c hc
  · exact ht c hc

/-- Only the four kinds are answered. -/
theorem HelpLine.Answers.kind_low {b : IrcBot} {c : ChannelRuntime} {kind channel : Str}
    {presence : BotPresence} {line : HelpLine} (h : line.Answers b c kind channel presence) :
    Low kind := by
  cases line with
  | invite nick target =>
    obtain ⟨rfl, -⟩ := h
    exact low_of_all (by decide)
  | op target mode nick =>
    obtain ⟨rfl, -⟩ := h
    exact low_of_all (by decide)
  | unban target mask =>
    obtain ⟨rfl, -⟩ := h
    exact low_of_all (by decide)
  | limit target n =>
    obtain ⟨rfl, -⟩ := h
    exact low_of_all (by decide)

namespace HelpWorld

variable {F : FloatRepr} {mac : Str → Str} {loads : List Byte → Except LoadsError Json}
  {fold : Str → Str} {S : SessionScope} {network botId instanceId : Str} {w t : HelpWorld}

theorem Asked.mono {encoded encoded' : List Encoded} {r : HelpRequest}
    (h : Asked network botId encoded r) (hsub : encoded ⊆ encoded') :
    Asked network botId encoded' r := by
  obtain ⟨sender, hid, hother, e, he, hgenuine⟩ := h.owned
  exact ⟨h.subject, sender, hid, hother, e, hsub he, hgenuine⟩

/-- An identifier and the subject of an answered kind hold no surrogates, so they are
what the holder signed to the letter. -/
theorem Asked.signedBy {encoded : List Encoded} {r : HelpRequest}
    (h : Asked network botId encoded r) (hnetwork : identifier network = true)
    (hkind : Low r.kind) {sender : Str} (hid : presenceBotId r.payload = some sender)
    (hsender : identifier sender = true) : SignedBy encoded r sender := by
  obtain ⟨sender', hid', -, e, he, hsubject, hname, hpayload⟩ := h.owned
  obtain rfl := Option.some.inj (hid.symm.trans hid')
  have hlow : Low r.subject := by
    rw [h.subject]
    refine Low.append (Low.append (low_of_all (by decide)) (identifier_low hnetwork)) ?_
    exact List.forall_mem_cons.mpr ⟨by decide, hkind⟩
  exact ⟨e, he, (utf16_inj_of_low hlow hsubject.symm).symm,
    (utf16_inj_of_low (identifier_low hsender) hname.symm).symm, hpayload⟩

namespace Inv

theorem init (nick : Str) (ttl : ℚ) : Inv F network botId (HelpWorld.init nick ttl) where
  recorded := ⟨by simp [HelpWorld.init], by simp [HelpWorld.init]⟩
  asked := by simp [HelpWorld.init]
  known := by simp [HelpWorld.init]

/-- What leaves the requests and what was signed alone needs to keep the registry only. -/
theorem congr (h : Inv F network botId w) (hencoded : t.encoded = w.encoded)
    (hsigned : t.signed = w.signed) (hpending : t.pending = w.pending)
    (hknown : ∀ e ∈ t.helper.registry.entries, e.2.1.botId = botId ∨
      identifier e.2.1.botId = true) : Inv F network botId t where
  recorded := by
    rw [hencoded, hsigned]
    exact h.recorded
  asked := by
    rw [hencoded, hpending]
    exact h.asked
  known := hknown

theorem update (h : Inv F network botId w) {now : ℚ} {presence : BotPresence}
    (hp : presence.botId = botId ∨ identifier presence.botId = true) :
    ∀ e ∈ (w.helper.registry.update fold now presence).entries, e.2.1.botId = botId ∨
      identifier e.2.1.botId = true := by
  intro e he
  rcases Assoc.mem_assign he with rfl | he
  · exact hp
  · exact h.known e he

theorem deliver (h : Inv F network botId w) {subject kind : Str} {value : List Byte} {now : ℚ}
    {seen : SeenNonces} {payload : Fields} (hsubject : subscribed network subject = true)
    (hu : ReplayState.unforged F mac loads w.signed value = true)
    (hd : Botnats.deliver F mac loads botId w.ready w.seen now subject value =
      (seen, some (kind, payload))) :
    Asked network botId w.encoded ⟨subject, kind, payload⟩ := by
  obtain ⟨rfl, p, hp, ha, rfl, hid, hother⟩ := deliver_eq_some hd
  obtain ⟨e, he, hg⟩ := h.recorded.encoding ⟨subject, value, now⟩ hp ha hu
  exact ⟨of_decide_eq_true hsubject, p.sender, hid, hother, e, he, hg.subject, hg.sender,
    hg.payload⟩

/-- An observed presence has an identifier. -/
theorem observed {key : Str} {record : Fields} {ttl time : ℚ} {presence : BotPresence}
    (ho : observable mac network key ttl time record = true)
    (hp : BotPresence.fromDict (.obj record) = some presence) :
    identifier presence.botId = true := by
  obtain ⟨d, hd, hid⟩ := BotPresence.fromDict_botId hp
  obtain rfl := JsonOf.obj.inj hd
  simp only [observable, Bool.and_eq_true, hid, Option.any_some] at ho
  exact ho.1.2.1

theorem step (h : Inv F network botId w) {a : HelpStep}
    (hst : w.step F mac loads fold S network botId instanceId a = some t) :
    Inv F network botId t := by
  cases a with
  | encode sender subject payload nonce clock =>
    simp only [HelpWorld.step] at hst
    cases henc : Botnats.encode F mac sender subject payload nonce clock with
    | error e =>
      simp only [henc] at hst
      obtain rfl := Option.some.inj hst
      exact h
    | ok value =>
      simp only [henc] at hst
      obtain rfl := Option.some.inj hst
      exact ⟨h.recorded.encode henc, fun r hr => (h.asked r hr).mono (List.subset_cons_self _ _),
        h.known⟩
  | sign tag fields =>
    obtain rfl := Option.some.inj hst
    exact ⟨h.recorded.sign tag fields, h.asked, h.known⟩
  | deliver subject value now =>
    simp only [HelpWorld.step] at hst
    split_ifs at hst with hcond
    split at hst
    · obtain rfl := Option.some.inj hst
      exact h.congr rfl rfl rfl h.known
    · rename_i seen kind payload hd
      obtain rfl := Option.some.inj hst
      refine ⟨h.recorded, fun r hr => ?_, h.known⟩
      rcases List.mem_append.mp hr with hr | hr
      · exact h.asked r hr
      · obtain rfl := List.mem_singleton.mp hr
        exact h.deliver hcond.1 hcond.2 hd
  | act n m =>
    simp only [HelpWorld.step] at hst
    split at hst
    · simp at hst
    · obtain rfl := Option.some.inj hst
      refine ⟨h.recorded, fun r hr => h.asked r (List.mem_of_mem_eraseIdx hr), fun e he => ?_⟩
      exact h.known e (Helper.helpAfterDelay_subset he)
  | observe key record time now =>
    simp only [HelpWorld.step] at hst
    split_ifs at hst with ho
    · split at hst
      · obtain rfl := Option.some.inj hst
        exact h
      · rename_i presence hp
        obtain rfl := Option.some.inj hst
        exact h.congr rfl rfl rfl (h.update (.inr (observed ho hp)))
    · obtain rfl := Option.some.inj hst
      exact h
  | forget key =>
    obtain rfl := Option.some.inj hst
    exact h.congr rfl rfl rfl fun e he => h.known e (List.mem_of_mem_filter he)
  | prune now =>
    obtain rfl := Option.some.inj hst
    exact h.congr rfl rfl rfl fun e he => h.known e (Helper.prune_subset _ _ he)
  | identify p link now =>
    simp only [HelpWorld.step] at hst
    split at hst
    · obtain rfl := Option.some.inj hst
      exact h.congr rfl rfl rfl (h.update (.inl rfl))
    · obtain rfl := Option.some.inj hst
      exact h
  | message message link now =>
    obtain rfl := Option.some.inj hst
    exact h.congr rfl rfl rfl h.known
  | advertise casemapping caps now =>
    obtain rfl := Option.some.inj hst
    exact h.congr rfl rfl rfl h.known
  | disconnect now =>
    obtain rfl := Option.some.inj hst
    exact h.congr rfl rfl rfl h.known
  | connection connected ready =>
    obtain rfl := Option.some.inj hst
    exact h.congr rfl rfl rfl h.known
  | record record link =>
    obtain rfl := Option.some.inj hst
    exact h.congr rfl rfl rfl h.known
  | joinDesired link =>
    obtain rfl := Option.some.inj hst
    exact h.congr rfl rfl rfl h.known

end Inv

/-- Lines go out in delayed actions alone. -/
theorem step_sent {a : HelpStep}
    (hst : w.step F mac loads fold S network botId instanceId a = some t) :
    t.sent = w.sent ∨ ∃ n m r, a = .act n m ∧ w.pending[n]? = some r ∧
      t.sent = w.sent ++
        (w.helper.helpAfterDelay fold botId m r.kind r.payload).2.map fun line => (r, line) := by
  cases a with
  | act n m =>
    simp only [HelpWorld.step] at hst
    split at hst
    · simp at hst
    · rename_i r hr
      obtain rfl := Option.some.inj hst
      exact .inr ⟨n, m, r, rfl, hr, rfl⟩
  | encode sender subject payload nonce clock =>
    simp only [HelpWorld.step] at hst
    split at hst
    · obtain rfl := Option.some.inj hst
      exact .inl rfl
    · obtain rfl := Option.some.inj hst
      exact .inl rfl
  | deliver subject value now =>
    simp only [HelpWorld.step] at hst
    split_ifs at hst
    split at hst
    · obtain rfl := Option.some.inj hst
      exact .inl rfl
    · obtain rfl := Option.some.inj hst
      exact .inl rfl
  | observe key record time now =>
    simp only [HelpWorld.step] at hst
    split_ifs at hst
    · split at hst
      · obtain rfl := Option.some.inj hst
        exact .inl rfl
      · obtain rfl := Option.some.inj hst
        exact .inl rfl
    · obtain rfl := Option.some.inj hst
      exact .inl rfl
  | identify p link now =>
    simp only [HelpWorld.step] at hst
    split at hst
    · obtain rfl := Option.some.inj hst
      exact .inl rfl
    · obtain rfl := Option.some.inj hst
      exact .inl rfl
  | _ =>
    obtain rfl := Option.some.inj hst
    exact .inl rfl

/-- In every run, whatever a step sends answers a request that a holder of the key signed
for its subject under the bot ID of its presence, which is not the bot's own, and at that
instant the checks on the registry, the channel and the member or the mask hold. -/
theorem sent_to_peer (F : FloatRepr) (mac : Str → Str) (loads : List Byte → Except LoadsError Json)
    (fold : Str → Str) (S : SessionScope) (network botId instanceId nick : Str) (ttl : ℚ)
    (hnetwork : identifier network = true) (w t : HelpWorld) (a : HelpStep)
    (hw : Machine.Reachable (step F mac loads fold S network botId instanceId)
      (HelpWorld.init nick ttl) w)
    (hst : w.step F mac loads fold S network botId instanceId a = some t) :
    ∃ lines, t.sent = w.sent ++ lines ∧ ∀ e ∈ lines, ∃ n m channel presence c,
      a = .act n m ∧ w.pending[n]? = some e.1 ∧
      SignedBy w.encoded e.1 presence.botId ∧ presence.botId ≠ botId ∧
      Eligible fold w.helper m.now e.1.payload channel presence c ∧
      e.2.Answers w.helper.bot c e.1.kind channel presence := by
  have hinv : Inv F network botId w :=
    hw.invariant (fun _ _ _ h hst => h.step hst) (Inv.init nick ttl)
  rcases step_sent hst with hsent | ⟨n, m, r, rfl, hr, hsent⟩
  · exact ⟨[], by rw [hsent, List.append_nil], List.forall_mem_nil _⟩
  · refine ⟨_, hsent, fun e he => ?_⟩
    obtain ⟨line, hline, rfl⟩ := List.mem_map.mp he
    obtain ⟨channel, presence, c, heligible, hanswers⟩ := Helper.mem_helpAfterDelay hline
    have hasked := hinv.asked r (List.mem_of_getElem? hr)
    have hother : presence.botId ≠ botId := by
      obtain ⟨sender, hid, hne, -⟩ := hasked.owned
      rwa [Option.some.inj (heligible.presenceBotId.symm.trans hid)]
    obtain ⟨deadline, hlive, -⟩ := heligible.live
    have hidentifier := (hinv.known _ hlive).resolve_left hother
    exact ⟨n, m, channel, presence, c, rfl, hr, hasked.signedBy hnetwork hanswers.kind_low
      heligible.presenceBotId hidentifier, hother, heligible, hanswers⟩

/-! ## A run -/

def sampleNonce : Str := lit "0123456789abcdef0123456789abcdef"

/-- The one digest, under a key of thirty-two `k`s. -/
def sampleSignature : Str :=
  lit "5e4a6af2cad12c2287687ab412c19ffffb2cf976d31dd2cffd1e8662a20cb217"

def samplePeer : Fields := presenceFields (lit "beta") (lit "h") (lit "i") (lit "p") (lit "u")

/-- The request of `beta` to be opped on `#c`. -/
def samplePayload : Fields :=
  [(lit "channel", .str (lit "#c")), (lit "presence", .obj samplePeer)]

def sampleSubject : Str := lit "botnats.v1.net.op"

def sampleEnvelope : Fields :=
  envelopeFields unaryFloatRepr (fun _ => sampleSignature) (lit "beta") sampleSubject
    samplePayload sampleNonce 0

def sampleLoads (value : List Byte) : Except LoadsError Json :=
  if value = utf8 (dumps unaryFloatRepr (.obj sampleEnvelope)) then .ok (.obj sampleEnvelope)
  else .error .invalid

def sampleLink : IrcLink := ⟨true, false, true⟩

/-- The bot `b` is operator on `#c`; the peer `p` joins, is seen in the registry and asks. -/
def opRequested : List HelpStep :=
  [.connection true true, .message ⟨lit "001", [lit "b"], none⟩ (fun _ => sampleLink) 0,
    .record ⟨lit "#c", none, true, lit "1"⟩ sampleLink,
    .message ⟨lit "JOIN", [lit "#c"], some ⟨lit "b", some (lit "u"), some (lit "g")⟩⟩
      (fun _ => sampleLink) 0,
    .message ⟨lit "MODE", [lit "#c", lit "+o", lit "b"], none⟩ (fun _ => sampleLink) 0,
    .message ⟨lit "JOIN", [lit "#c"], some ⟨lit "p", some (lit "u"), some (lit "h")⟩⟩
      (fun _ => sampleLink) 0,
    .observe (lit "beta") (samplePeer ++ [(lit "signature", .str sampleSignature),
      (lit "timestamp", .int 0)]) 0 0,
    .encode (lit "beta") sampleSubject samplePayload sampleNonce 0,
    .deliver sampleSubject (utf8 (dumps unaryFloatRepr (.obj sampleEnvelope))) 0]

def sampleMoment : Moment := ⟨1, 1, none, fun _ => true⟩

def sampleStep : HelpWorld → HelpStep → Option HelpWorld :=
  step unaryFloatRepr (fun _ => sampleSignature) sampleLoads (fun s => casefold s .ascii)
    sampleScope (lit "net") (lit "alpha") (lit "j")

theorem sent_to_peer_op : ∃ w t,
    Machine.run sampleStep (HelpWorld.init (lit "b") 90) opRequested = some w ∧
    sampleStep w (.act 0 sampleMoment) = some t ∧
    t.sent.map (fun e => (e.1.kind, e.2)) = [(lit "op", .op (lit "#c") 111 (lit "p"))] ∧
    ∃ lines, t.sent = w.sent ++ lines ∧ ∀ e ∈ lines, ∃ n m channel presence c,
      HelpStep.act 0 sampleMoment = .act n m ∧ w.pending[n]? = some e.1 ∧
      SignedBy w.encoded e.1 presence.botId ∧ presence.botId ≠ lit "alpha" ∧
      Eligible (fun s => casefold s .ascii) w.helper m.now e.1.payload channel presence c ∧
      e.2.Answers w.helper.bot c e.1.kind channel presence := by
  have hview : ((Machine.run sampleStep (HelpWorld.init (lit "b") 90) opRequested).bind
      fun w => sampleStep w (.act 0 sampleMoment)).map
        (fun t => t.sent.map fun e => (e.1.kind, e.2)) =
      some [(lit "op", .op (lit "#c") 111 (lit "p"))] := by
    decide +kernel
  obtain ⟨t, ht, hsent⟩ := Option.map_eq_some_iff.mp hview
  obtain ⟨w, hrun, hst⟩ := Option.bind_eq_some_iff.mp ht
  exact ⟨w, t, hrun, hst, hsent, sent_to_peer unaryFloatRepr (fun _ => sampleSignature)
    sampleLoads (fun s => casefold s .ascii) sampleScope (lit "net") (lit "alpha") (lit "j")
    (lit "b") 90 (by decide) w t (.act 0 sampleMoment) ⟨opRequested, hrun⟩ hst⟩

end HelpWorld

end Botnats
