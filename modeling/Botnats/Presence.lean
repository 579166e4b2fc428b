import Botnats.Json

/-!
# Presence records

`presence_signature` and the parts of `PresenceStore` that do not touch the bucket.
A stored value is what `json.loads` reads from it, or `none` where it reads nothing.
-/
namespace Botnats

open Json

def presenceDrift : ℚ := 30

/-- `presence_signature`; `none` where it raises. -/
def presenceSignature (mac : Str → Str) (network : Str) (d : Fields) : Option Str :=
  match text (lit "bot_id") d, text (lit "host") d, text (lit "instance_id") d,
    text (lit "nick") d, text (lit "user") d, Assoc.lookup (lit "timestamp") d with
  | some botId, some host, some instanceId, some nick, some user, some (.int timestamp) =>
    signEncoded mac [lit "botnats-presence-v1", network, botId, host, instanceId, nick, user,
      integer timestamp]
  | _, _, _, _, _, _ => none

/-- The record carries the signature of its own fields. -/
def signedPresence (mac : Str → Str) (network : Str) (d : Fields) : Bool :=
  match text (lit "signature") d, presenceSignature mac network d with
  | some signature, some expected => expected = signature
  | _, _ => false

/-- `PresenceStore.valid` at a clock reading -/
def validPresence (mac : Str → Str) (network : Str) (ttl now : ℚ) (d : Fields) : Bool :=
  match text (lit "signature") d, Assoc.lookup (lit "timestamp") d with
  | some signature, some (.int timestamp) =>
    hexText 64 signature && decide (now - ttl - presenceDrift ≤ timestamp) &&
      decide ((timestamp : ℚ) ≤ now + presenceDrift) && signedPresence mac network d
  | _, _ => false

/-- `PresenceStore.sign` at a clock reading; `none` where it raises. -/
def signPresence (mac : Str → Str) (network : Str) (now : ℚ) (d : Fields) : Option Json :=
  let stamped := Assoc.assign (lit "timestamp") (.int (truncate now)) d
  (presenceSignature mac network stamped).map fun signature =>
    .obj (Assoc.assign (lit "signature") (.str signature) stamped)

/-- The fields of a presence, as `asdict` lists them. -/
def presenceFields (botId host instanceId nick user : Str) : Fields :=
  [(lit "bot_id", .str botId), (lit "host", .str host), (lit "instance_id", .str instanceId),
    (lit "nick", .str nick), (lit "user", .str user)]

variable {mac : Str → Str} {network : Str}

theorem text_congr {key : Str} {d d' : Fields} (h : Assoc.lookup key d = Assoc.lookup key d') :
    text key d = text key d' := by
  rw [text, text, h]

/-- The signature does not cover itself. -/
theorem presenceSignature_assign (signature : Json) (d : Fields) :
    presenceSignature mac network (Assoc.assign (lit "signature") signature d) =
      presenceSignature mac network d := by
  have hother : ∀ key, lit "signature" ≠ key →
      Assoc.lookup key (Assoc.assign (lit "signature") signature d) = Assoc.lookup key d :=
    fun key hkey => Assoc.lookup_assign_of_ne signature d hkey
  simp only [presenceSignature, text_congr (hother (lit "bot_id") (by decide)),
    text_congr (hother (lit "host") (by decide)),
    text_congr (hother (lit "instance_id") (by decide)),
    text_congr (hother (lit "nick") (by decide)), text_congr (hother (lit "user") (by decide)),
    hother (lit "timestamp") (by decide)]

/-- What `sign` writes carries its signature, and the instance it was given. -/
theorem signPresence_eq_some {now : ℚ} {d : Fields} {v : Json}
    (h : signPresence mac network now d = some v) : ∃ r, v = .obj r ∧
      signedPresence mac network r ∧ text (lit "instance_id") r = text (lit "instance_id") d := by
  obtain ⟨signature, hs, rfl⟩ := Option.map_eq_some_iff.mp h
  refine ⟨_, rfl, ?_, ?_⟩
  · have hread : text (lit "signature") (Assoc.assign (lit "signature") (.str signature)
        (Assoc.assign (lit "timestamp") (.int (truncate now)) d)) = some signature := by
      rw [text, Assoc.lookup_assign_self]
    rw [signedPresence, hread, presenceSignature_assign, hs]
    simp
  · refine (text_congr (Assoc.lookup_assign_of_ne _ _ (by decide))).trans ?_
    exact text_congr (Assoc.lookup_assign_of_ne _ _ (by decide))

/-- A valid record is correctly signed. -/
theorem validPresence_signed {ttl now : ℚ} {d : Fields}
    (h : validPresence mac network ttl now d) : signedPresence mac network d := by
  unfold validPresence at h
  split at h
  · simp only [Bool.and_eq_true] at h
    exact h.2
  · simp at h

end Botnats
