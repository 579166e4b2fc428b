import Botnats.Json
import Mathlib.Data.Prod.Lex

/-!
# Session records

`Session`, and the parts of `SessionStore` that do not touch the bucket. Times are
finite floats, and their sums are taken exactly.
-/
namespace Botnats

open Json

/-- `SESSION_EXPIRY_GRACE` -/
def sessionExpiryGrace : ℚ := 60

/-- The float texts, and `float` of an integer, `none` where it overflows. -/
structure FloatOps extends FloatText where
  ofInt : ℤ → Option ℚ

/-- `float.hex` -/
def FloatText.hexFloat (F : FloatText) : PyFloat → Str
  | .finite q => F.hex q
  | .negZero => 45 :: F.hex 0
  | .inf false => lit "inf"
  | .inf true => lit "-inf"
  | .nan => lit "nan"

/-- `float` of a number that is not a `bool` -/
def FloatOps.ofJson (F : FloatOps) : Json → Option PyFloat
  | .int n => (F.ofInt n).map .finite
  | .float x => some x
  | _ => none

/-- What the bots of a network share: the coordination secret, the network's name and
the lifetime of sessions. -/
structure SessionScope where
  floats : FloatOps
  mac : Str → Str
  network : Str
  ttl : ℚ
  mac_hex : ∀ t, hexText 64 (mac t)
  ttl_pos : 0 < ttl

/-- The latest expiry that is accepted at a clock reading. -/
def SessionScope.horizon (S : SessionScope) (now : ℚ) : ℚ := now + S.ttl + sessionExpiryGrace

/-- An administrator session bound to an IRC prefix, or its revocation. -/
structure Session where
  expiresAt : ℚ
  issuer : Str
  ircPrefix : Str
  revoked : Bool
  version : ℕ
  signature : Str
  deriving DecidableEq

/-- Tuples compare by expiry, then version, then the revoked flag. -/
abbrev SessionOrder := ℚ ×ₗ ℕ ×ₗ Bool

namespace Session

def order (s : Session) : SessionOrder := toLex (s.expiresAt, toLex (s.version, s.revoked))

/-- `asdict` -/
def asdict (s : Session) : Fields :=
  [(lit "expires_at", .float (.finite s.expiresAt)), (lit "issuer", .str s.issuer),
    (lit "prefix", .str s.ircPrefix), (lit "revoked", .bool s.revoked),
    (lit "version", .int s.version), (lit "signature", .str s.signature)]

/-- What `parse_session_record` checks of the two names. -/
structure Valid (s : Session) : Prop where
  issuer_ne : s.issuer ≠ []
  issuer_text : encodable s.issuer = true
  prefix_ne : s.ircPrefix ≠ []
  prefix_text : encodable s.ircPrefix = true

instance (s : Session) : Decidable s.Valid :=
  decidable_of_iff (s.issuer ≠ [] ∧ encodable s.issuer = true ∧ s.ircPrefix ≠ [] ∧
    encodable s.ircPrefix = true)
    ⟨fun h => ⟨h.1, h.2.1, h.2.2.1, h.2.2.2⟩,
      fun h => ⟨h.issuer_ne, h.issuer_text, h.prefix_ne, h.prefix_text⟩⟩

end Session

section Store

variable (S : SessionScope)

/-- `session_signature`. The names of a session encode. -/
def sessionSignature (expiresAt : PyFloat) (issuer ircPrefix : Str) (revoked : Bool)
    (version : ℕ) : Str :=
  signFields S.mac [lit "botnats-auth-v1", S.network, issuer, ircPrefix,
    S.floats.hexFloat expiresAt, decimal version, if revoked then lit "1" else lit "0"]

/-- `parse_session_record` -/
def parseSessionRecord (record : Fields) : Option Session :=
  match (Assoc.lookup (lit "expires_at") record).bind S.floats.ofJson,
    text (lit "issuer") record, text (lit "prefix") record,
    Assoc.lookup (lit "revoked") record, text (lit "signature") record,
    Assoc.lookup (lit "version") record with
  | some expiresAt, some issuer, some ircPrefix, some (.bool revoked), some signature,
    some (.int version) =>
    match expiresAt.value with
    | none => none
    | some expiry =>
      let parsed : Session := ⟨expiry, issuer, ircPrefix, revoked, version.toNat, signature⟩
      if parsed.Valid ∧ hexText 64 signature ∧ 0 ≤ version ∧
          sessionSignature S expiresAt issuer ircPrefix revoked version.toNat = signature then
        some parsed
      else none
  | _, _, _, _, _, _ => none

/-- `SessionStore.key` -/
def sessionKey (identity : Str) : Str :=
  signFields S.mac [lit "botnats-session-v1", casefold identity .ascii]

/-- `SessionStore.order`; what is no object orders as nothing. -/
def sessionOrder (identity : Str) : Json → Option SessionOrder
  | .obj record =>
    match parseSessionRecord S record with
    | none => none
    | some parsed =>
      if casefold parsed.ircPrefix .ascii = casefold identity .ascii then some parsed.order
      else none
  | _ => none

/-- The check of `SessionStore.put`; where it fails, the call raises `ValueError`. -/
def sessionWritable (now : ℚ) (identity : Str) (data : Json) : Bool :=
  match sessionOrder S identity data with
  | none => false
  | some order => decide ((ofLex order).1 ≤ S.horizon now)

/-- The `newer` of `SessionStore.put` -/
def sessionNewer (now : ℚ) (identity : Str) (order : SessionOrder) (current : Json) : Bool :=
  match sessionOrder S identity current with
  | none => true
  | some held => decide ((ofLex held).1 ≤ now) || decide (S.horizon now < (ofLex held).1) ||
      decide (held < order)

/-- `TotpAuthorizer.create`. A prefix comes from a decoded IRC line and encodes. -/
def createSession (ircPrefix : Str) (expiresAt : ℚ) (issuer : Str) (version : ℕ)
    (revoked : Bool) : Session where
  expiresAt := expiresAt
  issuer := issuer
  ircPrefix := ircPrefix
  revoked := revoked
  version := version
  signature := sessionSignature S (.finite expiresAt) issuer ircPrefix revoked version

/-- The revocation that `revoke` and `write` make of a live session. -/
def revocationOf (s : Session) : Session :=
  createSession S s.ircPrefix s.expiresAt s.issuer (s.version + 1) true

/-- `TotpAuthorizer.parse`: a signed session that is neither expired nor beyond the
horizon. -/
def parseSession (current : ℚ) (record : Fields) : Option Session :=
  (parseSessionRecord S record).filter fun parsed =>
    decide (current < parsed.expiresAt) && decide (parsed.expiresAt ≤ S.horizon current)

end Store

namespace Session

variable {S : SessionScope}

theorem order_lt_iff {s t : Session} : s.order < t.order ↔ s.expiresAt < t.expiresAt ∨
    s.expiresAt = t.expiresAt ∧ (s.version < t.version ∨
      s.version = t.version ∧ s.revoked < t.revoked) := by
  simp [order, Prod.Lex.toLex_lt_toLex]

theorem expiresAt_le {s t : Session} (h : s.order ≤ t.order) : s.expiresAt ≤ t.expiresAt := by
  rcases h.lt_or_eq with hlt | heq
  · rcases order_lt_iff.mp hlt with hlt | ⟨heq, -⟩
    · exact hlt.le
    · exact heq.le
  · have hfst : s.expiresAt = t.expiresAt := congrArg (fun o => (ofLex o).1) heq
    exact hfst.le

/-- Sessions of one order agree on what the order compares. -/
theorem order_inj {s t : Session} (h : s.order = t.order) :
    s.expiresAt = t.expiresAt ∧ s.version = t.version ∧ s.revoked = t.revoked := by
  simpa [order] using h

/-- The revocation of a session outranks it. -/
theorem order_lt_revocation (s : Session) : s.order < (revocationOf S s).order := by
  rw [order_lt_iff]
  exact .inr ⟨rfl, .inl (Nat.lt_succ_self _)⟩

theorem Valid.create {s : Session} (h : s.Valid) (expiresAt : ℚ) (version : ℕ)
    (revoked : Bool) :
    (createSession S s.ircPrefix expiresAt s.issuer version revoked).Valid :=
  ⟨h.issuer_ne, h.issuer_text, h.prefix_ne, h.prefix_text⟩

/-- The session carries the signature of its own fields. -/
structure Signed (S : SessionScope) (s : Session) : Prop where
  valid : s.Valid
  signature_eq : s.signature =
    sessionSignature S (.finite s.expiresAt) s.issuer s.ircPrefix s.revoked s.version

theorem Valid.signed {s : Session} (h : s.Valid) (expiresAt : ℚ) (version : ℕ)
    (revoked : Bool) :
    (createSession S s.ircPrefix expiresAt s.issuer version revoked).Signed S :=
  ⟨h.create expiresAt version revoked, rfl⟩

/-- A signed session is read back from its fields. -/
theorem Signed.parse_asdict {s : Session} (h : s.Signed S) :
    parseSessionRecord S s.asdict = some s := by
  have hexpires : (Assoc.lookup (lit "expires_at") s.asdict).bind S.floats.ofJson =
      some (.finite s.expiresAt) := rfl
  have hissuer : text (lit "issuer") s.asdict = some s.issuer := rfl
  have hprefix : text (lit "prefix") s.asdict = some s.ircPrefix := rfl
  have hrevoked : Assoc.lookup (lit "revoked") s.asdict = some (.bool s.revoked) := rfl
  have hsignature : text (lit "signature") s.asdict = some s.signature := rfl
  have hversion : Assoc.lookup (lit "version") s.asdict = some (.int s.version) := rfl
  have hhex : hexText 64 s.signature = true := by
    rw [h.signature_eq]
    exact S.mac_hex _
  simp only [parseSessionRecord, hexpires, hissuer, hprefix, hrevoked, hsignature, hversion,
    PyFloat.value, Int.toNat_natCast]
  rw [if_pos ⟨h.valid, hhex, Int.natCast_nonneg _, h.signature_eq.symm⟩]

end Session

section Parsing

variable {S : SessionScope} {record : Fields} {now : ℚ} {s : Session}

theorem valid_of_parse (h : parseSessionRecord S record = some s) : s.Valid := by
  unfold parseSessionRecord at h
  split at h
  · split at h
    · simp at h
    · dsimp only at h
      split_ifs at h with hcheck
      obtain rfl := Option.some.inj h
      exact hcheck.1
  · simp at h

theorem parseSession_eq_some : parseSession S now record = some s ↔
    parseSessionRecord S record = some s ∧ now < s.expiresAt ∧ s.expiresAt ≤ S.horizon now := by
  simp [parseSession, Option.filter_eq_some_iff]

/-- A signed session parses from its fields while it is neither expired nor beyond the
horizon. -/
theorem Session.Signed.parseSession (h : s.Signed S) : Botnats.parseSession S now s.asdict =
    if now < s.expiresAt ∧ s.expiresAt ≤ S.horizon now then some s else none := by
  simp only [Botnats.parseSession, h.parse_asdict, Option.filter_some, Bool.and_eq_true,
    decide_eq_true_eq]

theorem SessionScope.horizon_mono {S : SessionScope} {now later : ℚ} (h : now ≤ later) :
    S.horizon now ≤ S.horizon later := by
  simp only [SessionScope.horizon]
  linarith

/-- What parsed once parses until it expires. -/
theorem parseSession_later {later : ℚ} (h : parseSession S now record = some s)
    (hle : now ≤ later) (hlive : later < s.expiresAt) :
    parseSession S later record = some s := by
  obtain ⟨hparse, -, hhorizon⟩ := parseSession_eq_some.mp h
  exact parseSession_eq_some.mpr
    ⟨hparse, hlive, hhorizon.trans (SessionScope.horizon_mono hle)⟩

theorem sessionOrder_eq_some {identity : Str} {order : SessionOrder} :
    sessionOrder S identity (.obj record) = some order ↔ ∃ s, parseSessionRecord S record = some s ∧
      casefold s.ircPrefix .ascii = casefold identity .ascii ∧ s.order = order := by
  simp only [sessionOrder]
  split
  · rename_i hparse
    simp [hparse]
  · rename_i s hparse
    split_ifs with hfold
    · simp [hparse, hfold]
    · simp only [hparse, Option.some.injEq]
      constructor
      · intro h
        simp at h
      · rintro ⟨t, rfl, hfold', -⟩
        exact absurd hfold' hfold

theorem Session.Signed.order {identity : Str} (h : s.Signed S)
    (hfold : casefold s.ircPrefix .ascii = casefold identity .ascii) :
    sessionOrder S identity (.obj s.asdict) = some s.order :=
  sessionOrder_eq_some.mpr ⟨s, h.parse_asdict, hfold, rfl⟩

theorem sessionKey_congr {p q : Str} (h : casefold p .ascii = casefold q .ascii) :
    sessionKey S p = sessionKey S q := by
  rw [sessionKey, sessionKey, h]

end Parsing

section Writable

variable {S : SessionScope} {now later : ℚ} {key : Str} {record : Fields} {x : Session}

/-- What `put` accepts -/
theorem sessionWritable_iff : sessionWritable S now key (.obj record) = true ↔
    ∃ x, parseSessionRecord S record = some x ∧
      casefold x.ircPrefix .ascii = casefold key .ascii ∧ x.expiresAt ≤ S.horizon now := by
  unfold sessionWritable
  constructor
  · intro h
    split at h
    · simp at h
    · rename_i order horder
      obtain ⟨x, hparse, hfold, rfl⟩ := sessionOrder_eq_some.mp horder
      exact ⟨x, hparse, hfold, of_decide_eq_true h⟩
  · rintro ⟨x, hparse, hfold, hhorizon⟩
    rw [sessionOrder_eq_some.mpr ⟨x, hparse, hfold, rfl⟩]
    exact decide_eq_true hhorizon

theorem sessionWritable_mono (h : sessionWritable S now key (.obj record) = true)
    (hle : now ≤ later) : sessionWritable S later key (.obj record) = true := by
  obtain ⟨x, hparse, hfold, hhorizon⟩ := sessionWritable_iff.mp h
  exact sessionWritable_iff.mpr
    ⟨x, hparse, hfold, hhorizon.trans (SessionScope.horizon_mono hle)⟩

/-- The queue's key is folded already. -/
theorem sessionWritable_casefold :
    sessionWritable S now (casefold key .ascii) (.obj record) =
      sessionWritable S now key (.obj record) := by
  rw [Bool.eq_iff_iff, sessionWritable_iff, sessionWritable_iff, casefold_ascii]

/-- A signed session within the horizon is accepted under its own identity. -/
theorem Session.Signed.writable (h : x.Signed S) (hhorizon : x.expiresAt ≤ S.horizon now)
    (hfold : casefold x.ircPrefix .ascii = casefold key .ascii) :
    sessionWritable S now key (.obj x.asdict) = true :=
  sessionWritable_iff.mpr ⟨x, h.parse_asdict, hfold, hhorizon⟩

end Writable

/-- A small network; integers are exact floats. -/
def sampleScope : SessionScope where
  floats := { unaryFloatText with ofInt := fun n => some n }
  mac := sampleMac
  network := lit "net"
  ttl := 10
  mac_hex := sampleMac_hex
  ttl_pos := by norm_num

end Botnats
