import Botnats.AttemptStore
import Botnats.ClaimStore
import Botnats.ChannelRecord
import Botnats.Presence
import Botnats.Session
import Botnats.Envelope

/-!
# What the coordination key signs

Every byte string that is digested under the coordination key, by the function that
feeds it. A joined text whose fields hold no NUL is split back into its fields, whatever
strings the text is compared with; and every function starts its texts with a tag of its
own.
-/
namespace Botnats

open Json

/-! ## Bytes and joined fields -/

/-- The first character of an encoded string is told from its first byte. -/
theorem utf8Char_append_inj {c d : CodePoint} {s t : List Byte}
    (h : utf8Char c ++ s = utf8Char d ++ t) : c = d ∧ s = t := by
  have hc := c.isLt
  have hd := d.isLt
  unfold utf8Char at h
  split_ifs at h <;>
    simp only [List.cons_append, List.nil_append, List.cons.injEq, Fin.ext_iff,
      Fin.val_ofNat] at h <;>
    first
      | exact ⟨Fin.ext (by omega), h.2⟩
      | exact ⟨Fin.ext (by omega), h.2.2⟩
      | exact ⟨Fin.ext (by omega), h.2.2.2⟩
      | exact ⟨Fin.ext (by omega), h.2.2.2.2⟩
      | omega

theorem utf8Char_ne_nil (c : CodePoint) : utf8Char c ≠ [] := by
  unfold utf8Char
  split_ifs <;> simp

theorem utf8_cons (c : CodePoint) (s : Str) : utf8 (c :: s) = utf8Char c ++ utf8 s := rfl

theorem utf8_injective : Function.Injective utf8 := by
  intro s
  induction s with
  | nil =>
    intro t h
    cases t with
    | nil => rfl
    | cons d t =>
      rw [utf8_cons] at h
      exact absurd (List.append_eq_nil_iff.mp h.symm).1 (utf8Char_ne_nil d)
  | cons c s ih =>
    intro t h
    cases t with
    | nil =>
      rw [utf8_cons] at h
      exact absurd (List.append_eq_nil_iff.mp h).1 (utf8Char_ne_nil c)
    | cons d t =>
      obtain ⟨rfl, hrest⟩ := utf8Char_append_inj h
      rw [ih hrest]

/-- Every separator of a joined text stands in a field or between two. -/
theorem count_join (fields : List Str) :
    (join [0] fields).count 0 = (fields.map (List.count 0)).sum + (fields.length - 1) := by
  induction fields with
  | nil => rfl
  | cons f rest ih =>
    cases rest with
    | nil => simp [join]
    | cons g rest =>
      rw [join, List.count_append, List.count_append, ih]
      · simp only [List.map_cons, List.sum_cons, List.length_cons, List.count_singleton_self]
        omega
      · exact List.cons_ne_nil g rest

/-- Fields without NUL are told from the joined text of as many arbitrary fields. -/
theorem join_injOn {fields others : List Str} (hlength : fields.length = others.length)
    (hnul : ∀ f ∈ fields, (0 : CodePoint) ∉ f) (h : join [0] fields = join [0] others) :
    fields = others := by
  have hsum : (fields.map (List.count 0)).sum = 0 := by
    rw [List.sum_eq_zero_iff]
    intro n hn
    obtain ⟨f, hf, rfl⟩ := List.mem_map.mp hn
    exact List.count_eq_zero.mpr (hnul f hf)
  have hcount := congrArg (List.count 0) h
  rw [count_join, count_join, hsum, hlength] at hcount
  have hnone : ∀ f ∈ others, (0 : CodePoint) ∉ f := by
    have hzero : (others.map (List.count 0)).sum = 0 := by omega
    rw [List.sum_eq_zero_iff] at hzero
    intro f hf
    exact List.count_eq_zero.mp (hzero _ (List.mem_map_of_mem hf))
  by_cases hnil : fields = []
  · subst hnil
    exact (List.eq_nil_of_length_eq_zero hlength.symm).symm
  · have hothers : others ≠ [] := by
      rintro rfl
      exact hnil (List.eq_nil_of_length_eq_zero hlength)
    rw [join_eq_intercalate, join_eq_intercalate] at h
    rw [← List.splitOn_intercalate (0 : CodePoint) hnul hnil, h,
      List.splitOn_intercalate (0 : CodePoint) hnone hothers]

theorem encodable_join {fields : List Str} (h : ∀ f ∈ fields, encodable f = true) :
    encodable (join [0] fields) = true := by
  induction fields with
  | nil => rfl
  | cons f rest ih =>
    have hf := h f List.mem_cons_self
    cases rest with
    | nil => exact hf
    | cons g rest =>
      have hrest := ih fun x hx => h x (List.mem_cons_of_mem f hx)
      have hjoin : join [0] (f :: g :: rest) = f ++ [0] ++ join [0] (g :: rest) := rfl
      rw [hjoin, encodable_append, encodable_append, hf, hrest]
      rfl

theorem nul_not_mem_integer (n : ℤ) : (0 : CodePoint) ∉ integer n := by
  intro h
  have hchar := integer_char h
  simp at hchar

theorem integer_toNat {n : ℤ} (h : 0 ≤ n) : integer n = decimal n.toNat := by
  rw [integer, if_neg (not_lt.mpr h)]
  congr 1
  omega

/-! ## Floats -/

/-- What the language documents of the texts: `fromhex` reads every float back, and the
text of a number holds no NUL. -/
structure FloatText.Lawful (F : FloatText) : Prop where
  fromhex_hexFloat : ∀ x, F.fromhex (F.hexFloat x) = some x
  nul_not_mem : ∀ q, (0 : CodePoint) ∉ F.hex q

theorem FloatText.Lawful.hexFloat_injective {F : FloatText} (h : F.Lawful) :
    Function.Injective F.hexFloat := by
  intro x y hxy
  have hx := h.fromhex_hexFloat x
  rw [hxy, h.fromhex_hexFloat y] at hx
  exact (Option.some.inj hx).symm

theorem FloatText.Lawful.nul_not_mem_hexFloat {F : FloatText} (h : F.Lawful) (x : PyFloat) :
    (0 : CodePoint) ∉ F.hexFloat x := by
  cases x with
  | finite q => exact h.nul_not_mem q
  | negZero =>
    intro hmem
    rcases List.mem_cons.mp hmem with hmem | hmem
    · exact absurd hmem (by decide)
    · exact h.nul_not_mem 0 hmem
  | inf negative => cases negative <;> simp [FloatText.hexFloat, lit]
  | nan => simp [FloatText.hexFloat, lit]

/-- The unary texts, with the texts of the values that are no ordinary number. -/
def signedFloatText : FloatText where
  hex := unaryFloatText.hex
  fromhex s :=
    if s = lit "-0x0.0p+0" then some .negZero
    else if s = lit "inf" then some (.inf false)
    else if s = lit "-inf" then some (.inf true)
    else if s = lit "nan" then some .nan
    else unaryFloatText.fromhex s
  fromhex_hex q := by
    have hchars : unaryFloatText.hex q = lit "0x0.0p+0" ∨ ∃ c d rest,
        unaryFloatText.hex q = c :: d :: rest ∧ (c = 43 ∨ c = 45) ∧ (d = 49 ∨ d = 101) := by
      by_cases hq : q = 0
      · exact .inl (by simp [unaryFloatText, hq])
      · refine .inr ?_
        simp only [unaryFloatText, hq, if_false, unary]
        cases q.num.natAbs with
        | zero => exact ⟨_, _, _, rfl, by split_ifs <;> simp, .inr rfl⟩
        | succ n => exact ⟨_, _, _, rfl, by split_ifs <;> simp, .inl rfl⟩
    have hread := unaryFloatText.fromhex_hex q
    rcases hchars with hzero | ⟨c, d, rest, htext, hc, hd⟩
    · rw [hzero] at hread ⊢
      rw [if_neg (by decide), if_neg (by decide), if_neg (by decide), if_neg (by decide), hread]
    · rw [htext] at hread ⊢
      rw [if_neg, if_neg, if_neg, if_neg, hread]
      all_goals
        intro h
        rcases hc with rfl | rfl <;> rcases hd with rfl | rfl <;> simp [lit] at h

theorem signedFloatText_lawful : signedFloatText.Lawful where
  fromhex_hexFloat x := by
    cases x with
    | finite q => exact signedFloatText.fromhex_hex q
    | negZero => decide +kernel
    | inf negative => cases negative <;> decide +kernel
    | nan => decide +kernel
  nul_not_mem q := by
    simp only [signedFloatText, unaryFloatText]
    split_ifs with hq
    · decide
    · intro h
      simp only [unary, List.mem_cons, List.mem_append, List.mem_replicate] at h
      rcases h with h | ⟨-, h⟩ | h | ⟨-, h⟩
      · split_ifs at h <;> simp at h
      · simp at h
      · simp at h
      · simp at h

theorem encodable_signedFloatText (q : ℚ) : encodable (signedFloatText.hex q) = true := by
  simp only [signedFloatText, unaryFloatText]
  split_ifs with hq
  · decide
  · simp only [unary, encodable, List.all_cons, List.all_append, List.all_replicate]
    split_ifs <;> simp

/-- `float` of an integer: rounded to 53 bits, to the even one of two halves. -/
def doubleOfInt (n : ℤ) : Option ℚ :=
  let unit := 2 ^ (Nat.log2 n.natAbs - 52)
  let down := n.natAbs / unit
  let rest := n.natAbs % unit
  let rounded :=
    if 2 * rest < unit ∨ 2 * rest = unit ∧ down % 2 = 0 then down * unit else (down + 1) * unit
  if 2 ^ 1024 ≤ rounded then none
  else some (if n < 0 then -(rounded : ℚ) else rounded)

def doubleFloats : FloatOps where
  toFloatText := signedFloatText
  ofInt := doubleOfInt

/-! ## The records whose fields are signed -/

/-- The signed fields of a session record, as its object holds them -/
structure SessionRecord where
  expiresAt : Json
  issuer : Str
  ircPrefix : Str
  revoked : Bool
  version : ℤ

/-- The number that a JSON value denotes -/
def Json.number : Json → Option ℚ
  | .int n => some n
  | .float x => x.value
  | _ => none

namespace SessionRecord

/-- The number that `float(expires_at)` is -/
def expiry (F : FloatOps) (r : SessionRecord) : Option ℚ :=
  (F.ofJson r.expiresAt).bind PyFloat.value

/-- The checks of `parse_session_record` before it compares the signature -/
def ofFields (F : FloatOps) (record : Fields) : Option SessionRecord :=
  match Assoc.lookup (lit "expires_at") record, text (lit "issuer") record,
    text (lit "prefix") record, Assoc.lookup (lit "revoked") record,
    text (lit "signature") record, Assoc.lookup (lit "version") record with
  | some expiresAt, some issuer, some ircPrefix, some (.bool revoked), some signature,
    some (.int version) =>
    let r : SessionRecord := ⟨expiresAt, issuer, ircPrefix, revoked, version⟩
    if (r.expiry F).isSome ∧ issuer ≠ [] ∧ encodable issuer = true ∧ ircPrefix ≠ [] ∧
        encodable ircPrefix = true ∧ hexText 64 signature ∧ 0 ≤ version then
      some r
    else none
  | _, _, _, _, _, _ => none

def signedFields (F : FloatOps) (r : SessionRecord) (expiresAt : PyFloat) : List Str :=
  [r.issuer, r.ircPrefix, F.hexFloat expiresAt, integer r.version, flagText r.revoked]

/-- The text that `session_signature` digests; `none` where `float` overflows. -/
def signedText (F : FloatOps) (network : Str) (r : SessionRecord) : Option Str :=
  (F.ofJson r.expiresAt).map fun expiresAt =>
    join [0] (lit "botnats-auth-v1" :: network :: r.signedFields F expiresAt)

end SessionRecord

/-- The signed fields of a presence record -/
structure PresenceRecord where
  botId : Str
  host : Str
  instanceId : Str
  nick : Str
  user : Str
  timestamp : ℤ

namespace PresenceRecord

/-- The fields that `presence_signature` reads, where they are of their types -/
def ofFields (d : Fields) : Option PresenceRecord :=
  match text (lit "bot_id") d, text (lit "host") d, text (lit "instance_id") d,
    text (lit "nick") d, text (lit "user") d, Assoc.lookup (lit "timestamp") d with
  | some botId, some host, some instanceId, some nick, some user, some (.int timestamp) =>
    some ⟨botId, host, instanceId, nick, user, timestamp⟩
  | _, _, _, _, _, _ => none

def signedFields (r : PresenceRecord) : List Str :=
  [r.botId, r.host, r.instanceId, r.nick, r.user, integer r.timestamp]

/-- The text that `presence_signature` digests -/
def signedText (network : Str) (r : PresenceRecord) : Str :=
  join [0] (lit "botnats-presence-v1" :: network :: r.signedFields)

end PresenceRecord

def ChannelRecord.signedFields (r : ChannelRecord) : List Str :=
  [r.channel, flagText r.key.isSome, r.key.getD [], flagText r.present, r.revision]

/-- The text that `channel_signature` digests -/
def ChannelRecord.signedText (network : Str) (r : ChannelRecord) : Str :=
  join [0] (lit "botnats-channel-record-v1" :: network :: r.signedFields)

/-! ## What is digested, by the function that digests it -/

inductive SigningUse
  | channelSignature
  | sessionSignature
  | presenceSignature
  | attemptKey
  | claimKey
  | channelKey
  | sessionKey
  | envelopeBody
  deriving DecidableEq

/-- How the texts of a function begin -/
def SigningUse.tag : SigningUse → Str
  | channelSignature => lit "botnats-channel-record-v1" ++ [0]
  | sessionSignature => lit "botnats-auth-v1" ++ [0]
  | presenceSignature => lit "botnats-presence-v1" ++ [0]
  | attemptKey => lit "botnats-auth-attempt-v1" ++ [0]
  | claimKey => lit "botnats-auth-claim-v1" ++ [0]
  | channelKey => lit "botnats-channel-v1" ++ [0]
  | sessionKey => lit "botnats-session-v1" ++ [0]
  | envelopeBody => lit "\x7b"

inductive SignedInput
  | channelSignature (network : Str) (r : ChannelRecord)
  | sessionSignature (network : Str) (r : SessionRecord)
  | presenceSignature (network : Str) (r : PresenceRecord)
  | attemptKey (identity : Str) (slot : ℕ)
  | claimKey (counter : ℤ)
  | channelKey (channel : Str)
  | sessionKey (identity : Str)
  | envelopeBody (nonce : Str) (payload : Fields) (sender : Str) (timestamp : ℤ)

namespace SignedInput

def use : SignedInput → SigningUse
  | channelSignature .. => .channelSignature
  | sessionSignature .. => .sessionSignature
  | presenceSignature .. => .presenceSignature
  | attemptKey .. => .attemptKey
  | claimKey .. => .claimKey
  | channelKey .. => .channelKey
  | sessionKey .. => .sessionKey
  | envelopeBody .. => .envelopeBody

/-- The text that is encoded and digested; `none` where the function raises before. -/
def signedText (F : FloatOps) (R : FloatRepr) : SignedInput → Option Str
  | channelSignature network r => some (r.signedText network)
  | sessionSignature network r => r.signedText F network
  | presenceSignature network r => some (r.signedText network)
  | attemptKey identity slot =>
    some (join [0] [lit "botnats-auth-attempt-v1", identity, decimal slot])
  | claimKey counter => some (join [0] [lit "botnats-auth-claim-v1", integer counter])
  | channelKey channel => some (join [0] [lit "botnats-channel-v1", casefold channel .ascii])
  | sessionKey identity => some (join [0] [lit "botnats-session-v1", casefold identity .ascii])
  | envelopeBody nonce payload sender timestamp => some (body R nonce payload sender timestamp)

/-- The bytes that are digested; `none` where the text holds a surrogate. -/
def bytes (F : FloatOps) (R : FloatRepr) (x : SignedInput) : Option (List Byte) :=
  ((x.signedText F R).filter encodable).map utf8

variable {F : FloatOps} {R : FloatRepr} {x y : SignedInput} {b : List Byte} {t : Str}

theorem bytes_eq_some : x.bytes F R = some b ↔
    ∃ t, x.signedText F R = some t ∧ encodable t = true ∧ utf8 t = b := by
  simp only [bytes, Option.map_eq_some_iff, Option.filter_eq_some_iff, and_assoc]

/-- Two inputs of one byte string have one text. -/
theorem signedText_eq_of_bytes (hx : x.bytes F R = some b) (hy : y.bytes F R = some b) :
    ∃ t, x.signedText F R = some t ∧ y.signedText F R = some t := by
  obtain ⟨t, ht, -, hb⟩ := bytes_eq_some.mp hx
  obtain ⟨u, hu, -, hb'⟩ := bytes_eq_some.mp hy
  obtain rfl := utf8_injective (hb.trans hb'.symm)
  exact ⟨t, ht, hu⟩

/-- A joined text starts with its first field and the separator. -/
theorem isPrefix_join (tag f : Str) (rest : List Str) : tag ++ [0] <+: join [0] (tag :: f :: rest) :=
  ⟨join [0] (f :: rest), by simp [join]⟩

/-- Every function starts its texts with its tag. -/
theorem tag_isPrefix (h : x.signedText F R = some t) : x.use.tag <+: t := by
  cases x with
  | sessionSignature network r =>
    obtain ⟨expiresAt, -, rfl⟩ := Option.map_eq_some_iff.mp h
    exact isPrefix_join _ _ _
  | envelopeBody nonce payload sender timestamp =>
    obtain rfl := Option.some.inj h
    rw [body, dumps, canonical_obj, JsonOf.render]
    exact ⟨_, rfl⟩
  | _ =>
    obtain rfl := Option.some.inj h
    exact isPrefix_join _ _ _

/-- No tag continues another. -/
theorem tag_inj {u v : SigningUse} (h : u.tag <+: v.tag) : u = v := by
  cases u <;> cases v <;> first | rfl | exact absurd h (by decide)

/-- A byte string tells which function digests it. -/
theorem use_eq_of_bytes (hx : x.bytes F R = some b) (hy : y.bytes F R = some b) :
    x.use = y.use := by
  obtain ⟨t, ht, hu⟩ := signedText_eq_of_bytes hx hy
  rcases List.prefix_or_prefix_of_prefix (tag_isPrefix ht) (tag_isPrefix hu) with h | h
  · exact tag_inj h
  · exact (tag_inj h).symm

end SignedInput

/-! ## The digests of the records are those of these texts -/

theorem channelSignature_eq (mac : Str → Str) (network : Str) (r : ChannelRecord) :
    channelSignature mac network r = mac (r.signedText network) := rfl

theorem presenceSignature_eq (mac : Str → Str) (network : Str) (d : Fields) :
    presenceSignature mac network d = (PresenceRecord.ofFields d).bind fun r =>
      signEncoded mac (lit "botnats-presence-v1" :: network :: r.signedFields) := by
  unfold presenceSignature PresenceRecord.ofFields
  split
  · simp [*, PresenceRecord.signedFields]
  · simp

/-- The keys of the four stores are the digests of theirs. -/
theorem keys_eq (S : SessionScope) (R : FloatRepr) :
    (∀ identity slot, some (attemptKey S.mac identity slot) =
      ((SignedInput.attemptKey identity slot).signedText S.floats R).map S.mac) ∧
    (∀ counter, some (claimKey S.mac counter) =
      ((SignedInput.claimKey counter).signedText S.floats R).map S.mac) ∧
    (∀ channel, some (channelKey S.mac channel) =
      ((SignedInput.channelKey channel).signedText S.floats R).map S.mac) ∧
    ∀ identity, some (sessionKey S identity) =
      ((SignedInput.sessionKey identity).signedText S.floats R).map S.mac :=
  ⟨fun _ _ => rfl, fun _ => rfl, fun _ => rfl, fun _ => rfl⟩

/-- A session record that parses passes the checks, and carries the digest of its text. -/
theorem ofFields_of_parse {S : SessionScope} {record : Fields} {s : Session}
    (h : parseSessionRecord S record = some s) :
    ∃ r t, SessionRecord.ofFields S.floats record = some r ∧
      r.signedText S.floats S.network = some t ∧ S.mac t = s.signature ∧
      r.expiry S.floats = some s.expiresAt ∧ r.issuer = s.issuer ∧ r.ircPrefix = s.ircPrefix ∧
      r.revoked = s.revoked ∧ r.version = s.version := by
  unfold parseSessionRecord at h
  split at h
  · rename_i expiresAt issuer ircPrefix revoked signature version hexpires hissuer hnamed
      hrevoked hsignature hversion
    split at h
    · simp at h
    · rename_i expiry hexpiry
      dsimp only at h
      split_ifs at h with hcheck
      obtain rfl := Option.some.inj h
      obtain ⟨hvalid, hhex, hpos, hmac⟩ := hcheck
      obtain ⟨raw, hraw, hfloat⟩ := Option.bind_eq_some_iff.mp hexpires
      have hnumber : (SessionRecord.mk raw issuer ircPrefix revoked version).expiry S.floats =
          some expiry := by
        rw [SessionRecord.expiry, hfloat]
        exact hexpiry
      refine ⟨⟨raw, issuer, ircPrefix, revoked, version⟩, _, ?_, ?_, hmac, hnumber, rfl, rfl, rfl,
        (Int.toNat_of_nonneg hpos).symm⟩
      · simp only [SessionRecord.ofFields, hraw, hissuer, hnamed, hrevoked, hsignature, hversion]
        rw [if_pos ⟨by rw [hnumber]; rfl, hvalid.issuer_ne, hvalid.issuer_text, hvalid.prefix_ne,
          hvalid.prefix_text, hhex, hpos⟩]
      · rw [SessionRecord.signedText, hfloat, Option.map_some, SessionRecord.signedFields,
          integer_toNat hpos]
        rfl
  · simp at h

/-! ## What is signed determines the record -/

/-- The strings of the record hold no NUL. -/
structure ChannelRecord.NulFree (r : ChannelRecord) : Prop where
  channel : 0 ∉ r.channel
  key : ∀ key, r.key = some key → 0 ∉ key
  revision : 0 ∉ r.revision

structure SessionRecord.NulFree (r : SessionRecord) : Prop where
  issuer : 0 ∉ r.issuer
  ircPrefix : 0 ∉ r.ircPrefix

structure PresenceRecord.NulFree (r : PresenceRecord) : Prop where
  botId : 0 ∉ r.botId
  host : 0 ∉ r.host
  instanceId : 0 ∉ r.instanceId
  nick : 0 ∉ r.nick
  user : 0 ∉ r.user

/-- The tag and the network aside, fields without NUL are told from the joined text. -/
theorem fields_injOn {tag network : Str} {fields others : List Str}
    (hlength : fields.length = others.length) (hnil : fields ≠ [])
    (hnul : ∀ f ∈ fields, (0 : CodePoint) ∉ f)
    (h : join [0] (tag :: network :: fields) = join [0] (tag :: network :: others)) :
    fields = others := by
  have hothers : others ≠ [] := by
    rintro rfl
    exact hnil (List.eq_nil_of_length_eq_zero hlength)
  obtain ⟨f, fields, rfl⟩ := List.exists_cons_of_ne_nil hnil
  obtain ⟨g, others, rfl⟩ := List.exists_cons_of_ne_nil hothers
  refine join_injOn hlength hnul ?_
  simpa [join] using h

theorem flagText_injective : Function.Injective flagText := by
  intro a b h
  cases a <;> cases b <;> first | rfl | exact absurd h (by decide)

theorem nul_not_mem_flagText (flag : Bool) : (0 : CodePoint) ∉ flagText flag := by
  cases flag <;> decide

theorem ChannelRecord.NulFree.eq_of_signedText {network : Str} {r r' : ChannelRecord}
    (hr : r.NulFree) (h : r.signedText network = r'.signedText network) : r = r' := by
  have hkey : (0 : CodePoint) ∉ r.key.getD [] := by
    cases hk : r.key with
    | none => simp
    | some key => exact hr.key key hk
  have hnul : ∀ f ∈ r.signedFields, (0 : CodePoint) ∉ f := by
    simpa [signedFields] using ⟨hr.channel, nul_not_mem_flagText _, hkey, nul_not_mem_flagText _,
      hr.revision⟩
  have hlength : r.signedFields.length = r'.signedFields.length := rfl
  have hfields := fields_injOn hlength (List.cons_ne_nil _ _) hnul h
  obtain ⟨channel, key, present, revision⟩ := r
  obtain ⟨channel', key', present', revision'⟩ := r'
  simp only [signedFields, List.cons.injEq, and_true] at hfields
  obtain ⟨rfl, hflag, htext, hpresent, rfl⟩ := hfields
  obtain rfl := flagText_injective hpresent
  -- an absent key and an empty one differ in the flag
  have hsome := flagText_injective hflag
  cases key <;> cases key' <;> simp_all

theorem SessionRecord.NulFree.eq_of_signedText {F : FloatOps} {network t : Str}
    {r r' : SessionRecord} (hr : r.NulFree) (hF : F.Lawful)
    (h : r.signedText F network = some t) (h' : r'.signedText F network = some t) :
    r.issuer = r'.issuer ∧ r.ircPrefix = r'.ircPrefix ∧
      F.ofJson r.expiresAt = F.ofJson r'.expiresAt ∧ r.version = r'.version ∧
      r.revoked = r'.revoked := by
  obtain ⟨x, hx, rfl⟩ := Option.map_eq_some_iff.mp h
  obtain ⟨x', hx', heq⟩ := Option.map_eq_some_iff.mp h'
  have hnul : ∀ f ∈ r.signedFields F x, (0 : CodePoint) ∉ f := by
    simpa [signedFields] using ⟨hr.issuer, hr.ircPrefix, hF.nul_not_mem_hexFloat x,
      nul_not_mem_integer _, nul_not_mem_flagText r.revoked⟩
  have hlength : (r.signedFields F x).length = (r'.signedFields F x').length := rfl
  have hfields := fields_injOn hlength (List.cons_ne_nil _ _) hnul heq.symm
  simp only [signedFields, List.cons.injEq, and_true] at hfields
  obtain ⟨hissuer, hnamed, hfloat, hversion, hrevoked⟩ := hfields
  rw [hx, hx', hF.hexFloat_injective hfloat]
  exact ⟨hissuer, hnamed, rfl, integer_injective hversion, flagText_injective hrevoked⟩

theorem PresenceRecord.NulFree.eq_of_signedText {network : Str} {r r' : PresenceRecord}
    (hr : r.NulFree) (h : r.signedText network = r'.signedText network) : r = r' := by
  have hnul : ∀ f ∈ r.signedFields, (0 : CodePoint) ∉ f := by
    simpa [signedFields] using ⟨hr.botId, hr.host, hr.instanceId, hr.nick, hr.user,
      nul_not_mem_integer r.timestamp⟩
  have hlength : r.signedFields.length = r'.signedFields.length := rfl
  have hfields := fields_injOn hlength (List.cons_ne_nil _ _) hnul h
  obtain ⟨botId, host, instanceId, nick, user, timestamp⟩ := r
  obtain ⟨botId', host', instanceId', nick', user', timestamp'⟩ := r'
  simp only [signedFields, List.cons.injEq, and_true] at hfields
  obtain ⟨rfl, rfl, rfl, rfl, rfl, htimestamp⟩ := hfields
  obtain rfl := integer_injective htimestamp
  rfl

/-- Two session records of one signed text are trusted as one session. -/
theorem parse_eq_of_signedText {S : SessionScope} {d d' : Fields} {s s' : Session}
    (hF : S.floats.Lawful) (h : parseSessionRecord S d = some s)
    (h' : parseSessionRecord S d' = some s') (hissuer : 0 ∉ s.issuer) (hnamed : 0 ∉ s.ircPrefix)
    (hsame : (SessionRecord.ofFields S.floats d).bind (·.signedText S.floats S.network) =
      (SessionRecord.ofFields S.floats d').bind (·.signedText S.floats S.network)) : s = s' := by
  obtain ⟨r, t, hr, ht, hmac, hexpiry, hi, hp, hrevoked, hversion⟩ := ofFields_of_parse h
  obtain ⟨r', t', hr', ht', hmac', hexpiry', hi', hp', hrevoked', hversion'⟩ := ofFields_of_parse h'
  rw [hr, hr', Option.bind_some, Option.bind_some, ht, ht'] at hsame
  obtain rfl := Option.some.inj hsame
  have hnul : r.NulFree := ⟨by rwa [hi], by rwa [hp]⟩
  obtain ⟨hii, hpp, hfloat, hvv, hrr⟩ := hnul.eq_of_signedText hF ht ht'
  have hexp : some s.expiresAt = some s'.expiresAt := by
    rw [← hexpiry, ← hexpiry', SessionRecord.expiry, SessionRecord.expiry, hfloat]
  obtain ⟨expiresAt, issuer, ircPrefix, revoked, version, signature⟩ := s
  obtain ⟨expiresAt', issuer', ircPrefix', revoked', version', signature'⟩ := s'
  simp only at hi hp hrevoked hversion hmac hi' hp' hrevoked' hversion' hmac' hexp
  simp only [Session.mk.injEq]
  refine ⟨Option.some.inj hexp, ?_, ?_, ?_, ?_, ?_⟩
  · rw [← hi, ← hi', hii]
  · rw [← hp, ← hp', hpp]
  · rw [← hrevoked, ← hrevoked', hrr]
  · omega
  · rw [← hmac, ← hmac']

/-- A record without NUL agrees with every record of its byte string on the signed fields,
the expiry taken as the float it is converted to; and a byte string tells the function that
digests it. -/
theorem signed_determines {F : FloatOps} (hF : F.Lawful) (R : FloatRepr) (network : Str) :
    (∀ (r r' : ChannelRecord) (b : List Byte), r.NulFree →
      (SignedInput.channelSignature network r).bytes F R = some b →
      (SignedInput.channelSignature network r').bytes F R = some b → r = r') ∧
    (∀ (r r' : SessionRecord) (b : List Byte), r.NulFree →
      (SignedInput.sessionSignature network r).bytes F R = some b →
      (SignedInput.sessionSignature network r').bytes F R = some b →
        r.issuer = r'.issuer ∧ r.ircPrefix = r'.ircPrefix ∧
          F.ofJson r.expiresAt = F.ofJson r'.expiresAt ∧ r.version = r'.version ∧
          r.revoked = r'.revoked) ∧
    (∀ (r r' : PresenceRecord) (b : List Byte), r.NulFree →
      (SignedInput.presenceSignature network r).bytes F R = some b →
      (SignedInput.presenceSignature network r').bytes F R = some b → r = r') ∧
    ∀ (x y : SignedInput) (b : List Byte), x.bytes F R = some b → y.bytes F R = some b →
      x.use = y.use := by
  refine ⟨fun r r' b hr h h' => ?_, fun r r' b hr h h' => ?_, fun r r' b hr h h' => ?_,
    fun x y b h h' => SignedInput.use_eq_of_bytes h h'⟩
  · obtain ⟨t, ht, ht'⟩ := SignedInput.signedText_eq_of_bytes h h'
    exact hr.eq_of_signedText ((Option.some.inj ht).trans (Option.some.inj ht').symm)
  · obtain ⟨t, ht, ht'⟩ := SignedInput.signedText_eq_of_bytes h h'
    exact hr.eq_of_signedText hF ht ht'
  · obtain ⟨t, ht, ht'⟩ := SignedInput.signedText_eq_of_bytes h h'
    exact hr.eq_of_signedText ((Option.some.inj ht).trans (Option.some.inj ht').symm)

/-- A session record with an expiry -/
def sampleRecord (expiresAt : Json) : SessionRecord :=
  ⟨expiresAt, lit "bot", lit "n!u@h", false, 0⟩

theorem nulFree_sampleRecord (expiresAt : Json) : (sampleRecord expiresAt).NulFree :=
  ⟨by change (0 : CodePoint) ∉ lit "bot"; decide, by change (0 : CodePoint) ∉ lit "n!u@h"; decide⟩

theorem bytes_sampleRecord {e : Json} {q : ℚ} (h : doubleFloats.ofJson e = some (.finite q)) :
    (SignedInput.sessionSignature (lit "net") (sampleRecord e)).bytes doubleFloats
      unaryFloatRepr = some (utf8 (join [0] [lit "botnats-auth-v1", lit "net", lit "bot",
        lit "n!u@h", signedFloatText.hex q, integer 0, flagText false])) := by
  rw [SignedInput.bytes_eq_some]
  refine ⟨_, ?_, encodable_join fun f hf => ?_, rfl⟩
  · rw [SignedInput.signedText, SessionRecord.signedText, sampleRecord, h]
    rfl
  · simp only [List.mem_cons, List.not_mem_nil, or_false] at hf
    rcases hf with rfl | rfl | rfl | rfl | rfl | rfl | rfl
    all_goals first | exact encodable_signedFloatText q | decide

theorem signed_determines_integer :
    ∃ b, (SignedInput.sessionSignature (lit "net") (sampleRecord (.int 10))).bytes doubleFloats
        unaryFloatRepr = some b ∧
      (SignedInput.sessionSignature (lit "net") (sampleRecord (.float (.finite 10)))).bytes
        doubleFloats unaryFloatRepr = some b ∧
      doubleFloats.ofJson (.int 10) = doubleFloats.ofJson (.float (.finite 10)) := by
  have hb := bytes_sampleRecord (e := .int 10) (q := 10) (by decide +kernel)
  have hb' := bytes_sampleRecord (e := .float (.finite 10)) rfl
  exact ⟨_, hb, hb', ((signed_determines signedFloatText_lawful unaryFloatRepr (lit "net")).2.1
    (sampleRecord (.int 10)) (sampleRecord (.float (.finite 10))) _ (nulFree_sampleRecord _) hb
    hb').2.2.1⟩

/-- The object of the record, under a signature of the right form -/
def sampleObject (expiresAt : Json) : Fields :=
  [(lit "expires_at", expiresAt), (lit "issuer", .str (lit "bot")),
    (lit "prefix", .str (lit "n!u@h")), (lit "revoked", .bool false), (lit "version", .int 0),
    (lit "signature", .str (List.replicate 64 48))]

theorem ofFields_sampleObject {F : FloatOps} {e : Json}
    (h : ((sampleRecord e).expiry F).isSome = true) :
    SessionRecord.ofFields F (sampleObject e) = some (sampleRecord e) :=
  if_pos ⟨h, by decide, by decide, by decide, by decide, by decide, by decide⟩

/-- The expiry of the object itself is not determined: `float` rounds a large integer. -/
theorem not_signed_determines_exact : ¬ ∀ (F : FloatOps) (R : FloatRepr) (network : Str)
    (r r' : SessionRecord) (d : Fields) (b : List Byte), F.Lawful → r.NulFree →
      SessionRecord.ofFields F d = some r' →
      (SignedInput.sessionSignature network r).bytes F R = some b →
      (SignedInput.sessionSignature network r').bytes F R = some b →
        r.expiresAt.number = r'.expiresAt.number := by
  intro hall
  have hround : doubleFloats.ofJson (.int (2 ^ 53 + 1)) = some (.finite (2 ^ 53)) := by
    decide +kernel
  have hexpiry : ((sampleRecord (.int (2 ^ 53 + 1))).expiry doubleFloats).isSome = true := by
    decide +kernel
  have hbytes := bytes_sampleRecord (e := .float (.finite (2 ^ 53))) rfl
  have hbytes' := bytes_sampleRecord hround
  have hnumber := hall doubleFloats unaryFloatRepr (lit "net") _ _ _ _
    signedFloatText_lawful (nulFree_sampleRecord _) (ofFields_sampleObject hexpiry) hbytes hbytes'
  exact absurd hnumber (by decide +kernel)

end Botnats
