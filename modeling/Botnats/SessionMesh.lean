import Botnats.Machine
import Botnats.SessionCover

/-!
# The sessions bucket, shared by any number of bots

Every bot grants and revokes sessions, drains its queue through `SessionStore.put` and
watches the bucket; all read one clock. A watch moves over the writes in order, may leave
out what a later write replaced, and may start again with a replay. The puts of different
bots race, fail and are lost in any order.
-/
namespace Botnats

open Json Bucket History

/-- What the bots of a network share, and the identities that authenticate: their names
encode, and the HMAC tells their durable keys apart. -/
structure SessionNetwork (ι : Type*) where
  scope : SessionScope
  casemapping : Casemapping
  issuers : ι → Str
  names : Str → Bool
  issuer_ne : ∀ b, issuers b ≠ []
  issuer_text : ∀ b, encodable (issuers b) = true
  name_ne : ∀ p, names p = true → p ≠ []
  name_text : ∀ p, names p = true → encodable p = true
  key : ∀ p q, names p = true → names q = true → sessionKey scope p = sessionKey scope q →
    casefold p .ascii = casefold q .ascii

/-- A bot's sessions, the writes that its watch has passed, and the keys of a replay that
is under way. -/
structure SessionPeer where
  sync : SessionSync
  cursor : ℕ
  replay : Option (List Str)

structure SessionMesh {ι : Type*} (N : SessionNetwork ι) where
  now : ℚ
  net : PutNewer.Net (SessionPut N.scope ι) Str Json
  bots : ι → SessionPeer

/-- A step may read the clock several times; the later readings are its arguments. -/
inductive SessionStep (ι : Type*)
  | tick (later : ℚ)
  | call (b : ι) (c : SessionSync.Call)
  | acquire (b : ι) (later : ℚ)
  | net (a : PutNewer.Act) (now₁ now₂ now₃ later : ℚ)
  | watch (b : ι)
  | deliver (b : ι) (observed later : ℚ)
  | skip (b : ι)
  | replayed (b : ι)

/-- `valid_session` -/
def validSession (S : SessionScope) (now : ℚ) (key : Str) (data : Fields) : Bool :=
  match text (lit "prefix") data with
  | none => false
  | some ircPrefix =>
    match sessionOrder S ircPrefix (.obj data) with
    | none => false
    | some order =>
      decide (sessionKey S ircPrefix = key) && decide ((ofLex order).1 ≤ S.horizon now)

theorem text_prefix_of_parse {S : SessionScope} {record : Fields} {y : Session}
    (h : parseSessionRecord S record = some y) :
    text (lit "prefix") record = some y.ircPrefix := by
  unfold parseSessionRecord at h
  split at h
  · rename_i hprefix _ _ _
    split at h
    · simp at h
    · dsimp only at h
      split_ifs at h
      obtain rfl := Option.some.inj h
      exact hprefix
  · simp at h

/-- A signed session within the horizon is valid under its key. -/
theorem validSession_of_parse {S : SessionScope} {now : ℚ} {record : Fields} {y : Session}
    (hy : parseSessionRecord S record = some y) (hhorizon : y.expiresAt ≤ S.horizon now) :
    validSession S now (sessionKey S y.ircPrefix) record = true := by
  have horder : sessionOrder S y.ircPrefix (.obj record) = some y.order :=
    sessionOrder_eq_some.mpr ⟨y, hy, rfl, rfl⟩
  simp only [validSession, text_prefix_of_parse hy, horder, decide_true, Bool.true_and,
    decide_eq_true_eq]
  exact hhorizon

namespace SessionMesh

variable {ι : Type*} {N : SessionNetwork ι}

def init (N : SessionNetwork ι) (now : ℚ) : SessionMesh N :=
  ⟨now, .init, fun _ => ⟨{ SessionSync.init with authorizer := ⟨N.casemapping, []⟩ }, 0, none⟩⟩

/-- The writes of the bucket, newest first. -/
def history (s : SessionMesh N) : List (Str × Json) := s.net.history

variable [DecidableEq ι]

def setBot (s : SessionMesh N) (b : ι) (p : SessionPeer) : SessionMesh N :=
  { s with bots := Function.update s.bots b p }

@[simp] theorem setBot_bots_self (s : SessionMesh N) (b : ι) (p : SessionPeer) :
    (s.setBot b p).bots b = p := by simp [setBot]

theorem setBot_bots_of_ne (s : SessionMesh N) {b c : ι} (p : SessionPeer) (h : c ≠ b) :
    (s.setBot b p).bots c = s.bots c := by simp [setBot, h]

def setSync (s : SessionMesh N) (b : ι) (u : SessionSync) : SessionMesh N :=
  s.setBot b { s.bots b with sync := u }

/-- The drain of a bot calls `put_session` for the entry it has come to. -/
def launch (s : SessionMesh N) (b : ι) : SessionMesh N :=
  match (s.bots b).sync.writing with
  | none => s
  | some w =>
    match sessionPut N.scope s.now b w.key w.entry.session with
    | none => s.setSync b (s.bots b).sync.raised
    | some c => { s with net := s.net.start c }

/-- `put_session` has returned or raised. -/
def finish (s : SessionMesh N) (now₁ now₂ now₃ : ℚ)
    (o : PutNewer.Outcome (SessionPut N.scope ι) Json) : SessionMesh N :=
  let u := (s.bots o.caller.bot).sync
  match u.writing with
  | none => s
  | some w =>
    match o.result with
    | some (.obj stored) =>
      (s.setSync o.caller.bot (u.written N.scope now₁ now₂ now₃ w stored).1).launch o.caller.bot
    | _ => s.setSync o.caller.bot (u.failed w).1

/-- Only names authenticate. -/
def allowed (N : SessionNetwork ι) : SessionSync.Call → Bool
  | .grant identity => N.names identity
  | _ => true

def step (N : SessionNetwork ι) (s : SessionMesh N) : SessionStep ι → Option (SessionMesh N)
  | .tick later => if s.now ≤ later then some { s with now := later } else none
  | .call b c =>
    if allowed N c then
      some (s.setSync b ((s.bots b).sync.call N.scope (N.issuers b) s.now c))
    else none
  | .acquire b later =>
    if s.now ≤ later then
      match (s.bots b).sync.acquire N.scope s.now with
      | none => none
      | some r => some (({ s with now := later }.setSync b r.1).launch b)
    else none
  | .net a now₁ now₂ now₃ later =>
    if s.now ≤ now₁ ∧ now₁ ≤ now₂ ∧ now₂ ≤ now₃ ∧ now₃ ≤ later then
      match bucketStep s.now s.net a with
      | none => none
      | some (net, none) => some { s with net := net }
      | some (net, some o) => some ({ s with net := net, now := later }.finish now₁ now₂ now₃ o)
    else none
  | .watch b => some (s.setBot b { s.bots b with cursor := 0, replay := some [] })
  | .deliver b observed later =>
    if s.now ≤ observed ∧ observed ≤ later then
      match nth ((s.bots b).cursor + 1) s.history with
      | none => none
      | some (key, value) =>
        let p : SessionPeer := { s.bots b with cursor := (s.bots b).cursor + 1 }
        match value with
        | .obj record =>
          if validSession N.scope s.now key record then
            some ({ s with now := later }.setBot b
              { p with
                sync := p.sync.observe N.scope observed later key record p.replay.isSome
                replay := p.replay.map fun keys => key :: keys })
          else some (s.setBot b p)
        | _ => some (s.setBot b p)
    else none
  | .skip b =>
    match nth ((s.bots b).cursor + 1) s.history with
    | none => none
    | some (key, _) =>
      if (entry key s.history).map Entry.revision ≠ some ((s.bots b).cursor + 1) then
        some (s.setBot b { s.bots b with cursor := (s.bots b).cursor + 1 })
      else none
  | .replayed b =>
    match (s.bots b).replay with
    | none => none
    | some keys =>
      some (s.setBot b
        { s.bots b with sync := (s.bots b).sync.replayed s.now keys, replay := none })

/-! ## A bot beside the bucket -/

/-- A live stored session comes to the cache of the bot, and a replay knows the keys that
it has passed. -/
structure PeerInv (N : SessionNetwork ι) (now : ℚ) (history : List (Str × Json))
    (p : SessionPeer) : Prop where
  bot : p.sync.BotInv N.scope (Minted N.scope N.names) now history
  regular : p.sync.Regular N.scope N.casemapping
  cursor : p.cursor ≤ history.length
  replay : ∀ keys, p.replay = some keys →
    Delivered (fun key _ => key ∈ keys) p.cursor history
  coming : ∀ y, Stored N.scope history y → now < y.expiresAt →
    p.sync.Coming N.scope p.cursor history y

omit [DecidableEq ι]

theorem admissible (N : SessionNetwork ι) : Admissible N.scope (Minted N.scope N.names) :=
  admissible_minted N.key

namespace PeerInv

variable {now later : ℚ} {net : PutNewer.Net (SessionPut N.scope ι) Str Json} {p : SessionPeer}
  {u : SessionSync}

theorem init (N : SessionNetwork ι) (now : ℚ) : PeerInv N now []
    ⟨{ SessionSync.init with authorizer := ⟨N.casemapping, []⟩ }, 0, none⟩ where
  bot := SessionSync.BotInv.init _ _ _ _ _
  regular := SessionSync.Regular.init _ _
  cursor := le_rfl
  replay := by simp
  coming := by
    rintro y ⟨e, he, -⟩
    simp at he

theorem tick (h : PeerInv N now net.history p) (hle : now ≤ later) :
    PeerInv N later net.history p where
  bot := h.bot.mono (admissible N) hle fun _ hx => hx
  regular := h.regular
  cursor := h.cursor
  replay := h.replay
  coming := fun y hy hlive => h.coming y hy (hle.trans_lt hlive)

/-- The bucket takes a write. -/
theorem write (h : PeerInv N now net.history p) (key : Str) (v : Json) :
    PeerInv N now ((key, v) :: net.history) p where
  bot := h.bot.mono (admissible N) le_rfl fun _ he => List.mem_cons_of_mem _ he
  regular := h.regular
  cursor := h.cursor.trans (Nat.le_succ _)
  replay := fun keys hkeys => (h.replay keys hkeys).write h.cursor _ _
  coming := by
    rintro y ⟨e, he, hy⟩ hlive
    by_cases hkey : key = sessionKey N.scope y.ircPrefix
    · -- the new write lies ahead of every watch
      subst hkey
      have hheld := Holds.of_entry he
      rw [entry_cons_self] at he
      obtain rfl := Option.some.inj he
      exact SessionSync.coming_of_brings (.inr (.inr
        ⟨_, _, Nat.lt_succ_of_le h.cursor, hheld, hy⟩))
    · rw [entry_cons_of_ne _ _ hkey] at he
      exact (h.coming y ⟨e, he, hy⟩ hlive).mono fun z hz => hz.cons _

/-- The bot changes, and what came to its cache still comes. -/
theorem setSync (h : PeerInv N now net.history p)
    (hbot : u.BotInv N.scope (Minted N.scope N.names) now net.history)
    (hregular : u.Regular N.scope N.casemapping)
    (hcoming : ∀ y, now < y.expiresAt → p.sync.Coming N.scope p.cursor net.history y →
      u.Coming N.scope p.cursor net.history y) :
    PeerInv N now net.history { p with sync := u } where
  bot := hbot
  regular := hregular
  cursor := h.cursor
  replay := h.replay
  coming := fun y hy hlive => hcoming y hlive (h.coming y hy hlive)

theorem conserves (h : PeerInv N now net.history p)
    (hbot : u.BotInv N.scope (Minted N.scope N.names) now net.history)
    (hu : p.sync.Conserves N.scope now u) : PeerInv N now net.history { p with sync := u } :=
  h.setSync hbot (h.regular.conserves hu) fun _ hlive hy => hy.conserves hu hlive

theorem call (h : PeerInv N now net.history p) (b : ι) {c : SessionSync.Call}
    (hc : allowed N c = true) :
    PeerInv N now net.history { p with sync := p.sync.call N.scope (N.issuers b) now c } := by
  refine h.conserves (h.bot.call (admissible N) fun identity hgrant => ?_)
    (h.bot.conserves_call (admissible N) h.regular.keyed _ c)
  obtain rfl : c = .grant identity := hgrant
  exact minted_grant _ hc (N.name_ne _ hc) (N.name_text _ hc) (N.issuer_ne b) (N.issuer_text b)

theorem acquire (h : PeerInv N now net.history p)
    {r : SessionSync × Option SessionSync.SyncOutcome}
    (hr : p.sync.acquire N.scope now = some r) :
    PeerInv N now net.history { p with sync := r.1 } :=
  h.conserves (h.bot.acquire (admissible N) hr)
    (h.bot.conserves_acquire (admissible N) h.regular.keyed hr)

/-- The lock is released. -/
theorem leave (h : PeerInv N now net.history p) (task : SyncTask) :
    PeerInv N now net.history { p with sync := (p.sync.leave task).1 } := by
  refine h.conserves (h.bot.leave task) ⟨rfl, h.regular.keyed, .refl now _, ?_, rfl⟩
  exact SessionSync.passes_of_eq rfl fun _ ht => ht

/-- A write returned a stored session that ranks at least as high. -/
theorem written (h : PeerInv N now net.history p) {w : SessionWrite} {stored : Fields}
    {y : Session} {now₁ now₂ now₃ : ℚ} (hw : p.sync.writing = some w)
    (hy : parseSessionRecord N.scope stored = some y)
    (hfold : casefold y.ircPrefix .ascii = w.key) (hPy : Minted N.scope N.names now y)
    (hlogged : Logged N.scope net.history y)
    (hle : ∀ x, parseSessionRecord N.scope w.entry.session = some x → x.order ≤ y.order)
    (h₁ : now ≤ now₁) (hlater : now₁ ≤ later) : PeerInv N later net.history
      { p with sync := (p.sync.written N.scope now₁ now₂ now₃ w stored).1 } := by
  have hbot := (h.bot.written (admissible N) hw hy hfold hPy hlogged hle now₁ now₂ now₃).mono
    (admissible N) (h₁.trans hlater) fun _ hx => hx
  refine (h.tick (h₁.trans hlater)).setSync hbot (h.regular.written now₁ now₂ now₃ w stored)
    fun z hlive hz => ?_
  exact h.bot.coming_written (admissible N) h.regular hw hy hfold hPy hle h₁ hlater hz hlive

/-- The watch starts again. -/
theorem watch (h : PeerInv N now net.history p) :
    PeerInv N now net.history { p with cursor := 0, replay := some [] } where
  bot := h.bot
  regular := h.regular
  cursor := Nat.zero_le _
  replay := fun _ _ => Delivered.zero _ _
  coming := fun y hy hlive =>
    (h.coming y hy hlive).mono fun _ hx => hx.mono (Nat.zero_le _)

/-- The watch delivers its next write, which the bot observes. -/
theorem deliver (h : PeerInv N now net.history p) (hstore : StoreInv (Minted N.scope N.names) now net)
    {key : Str} {record : Fields} (hnth : nth (p.cursor + 1) net.history = some (key, .obj record))
    (hle : now ≤ later) : PeerInv N later net.history
      { p with
        sync := p.sync.observe N.scope now later key record p.replay.isSome
        cursor := p.cursor + 1
        replay := p.replay.map fun keys => key :: keys } := by
  have hheld := holds_of_nth hnth
  obtain ⟨y, ⟨d, hd, hy⟩, hkey, hPy⟩ := hstore.logged _ _ hheld.mem
  obtain rfl := JsonOf.obj.inj hd
  have hlogged : Logged N.scope net.history y :=
    ⟨_, hkey ▸ hheld.mem, record, rfl, hy⟩
  refine ⟨?_, h.regular.observe now later _ hy hkey, hheld.revision_le, fun keys hkeys => ?_,
    fun z hz hlive => ?_⟩
  · refine (h.bot.handle now later (.observe key record p.replay.isSome) ?_).mono (admissible N)
      hle fun _ hx => hx
    rintro key' record' replaying' heq z hz
    obtain ⟨rfl, rfl, rfl⟩ := SessionSync.Event.observe.inj heq
    obtain rfl := Option.some.inj (hy.symm.trans hz)
    exact ⟨hPy, hlogged⟩
  · obtain ⟨old, hold, rfl⟩ := Option.map_eq_some_iff.mp hkeys
    have hmono : Delivered (fun j (_ : Json) => j ∈ key :: old) p.cursor net.history :=
      (h.replay old hold).mono (fun _ _ hj => List.mem_cons_of_mem _ hj) le_rfl
    exact hmono.next hnth List.mem_cons_self
  · exact h.bot.coming_observe (admissible N) hstore h.regular _ hy hkey hPy hheld hle
      (h.coming z hz (hle.trans_lt hlive)) hlive

/-- The watch leaves out a write that a later one replaced. -/
theorem skip (h : PeerInv N now net.history p) (hstore : StoreInv (Minted N.scope N.names) now net)
    {key : Str} {value : Json} (hnth : nth (p.cursor + 1) net.history = some (key, value))
    (hold : (entry key net.history).map Entry.revision ≠ some (p.cursor + 1)) :
    PeerInv N now net.history { p with cursor := p.cursor + 1 } := by
  have hheld := holds_of_nth hnth
  refine ⟨h.bot, h.regular, hheld.revision_le,
    fun keys hkeys => (h.replay keys hkeys).skip hnth hold, fun y hy hlive => ?_⟩
  refine (h.coming y hy hlive).step hlive rfl fun x hxlive hx => ?_
  rcases hx with hx | hx | ⟨r, v, hr, hxheld, hread⟩
  · exact SessionSync.coming_of_brings (.inl hx)
  · exact SessionSync.coming_of_brings (.inr (.inl hx))
  · rcases Nat.lt_or_ge (p.cursor + 1) r with hlater | hnext
    · exact SessionSync.coming_of_brings (.inr (.inr ⟨r, v, hlater, hxheld, hread⟩))
    · -- what replaced the write lies ahead
      obtain rfl : r = p.cursor + 1 := by omega
      obtain ⟨rfl, rfl⟩ := hheld.unique hxheld
      obtain ⟨z, ⟨e, he, hz⟩, hzfold, horder⟩ :=
        hstore.current ⟨value, hheld.mem, hread⟩ hxlive
      have hkeys := sessionKey_congr (S := N.scope) hzfold
      have hcurrent := Holds.le_current hheld (hkeys ▸ he)
      have hne : e.revision ≠ p.cursor + 1 := by
        intro heq
        rw [← hkeys, he, Option.map_some, heq] at hold
        exact hold rfl
      refine ⟨z, Authorizer.fold_congr _ hzfold, horder, .inr (.inr ?_)⟩
      exact ⟨e.revision, e.value, lt_of_le_of_ne hcurrent (Ne.symm hne), Holds.of_entry he, hz⟩

/-- The replay is complete, and the bot forgets what it left out. -/
theorem replayed (h : PeerInv N now net.history p) (hstore : StoreInv (Minted N.scope N.names) now net)
    {keys : List Str} (hkeys : p.replay = some keys) : PeerInv N now net.history
      { p with sync := p.sync.replayed now keys, replay := none } := by
  refine ⟨h.bot.handle now now (.replayed keys) (by simp), (h.regular.replayed now keys).1,
    h.cursor, by simp, fun y hy hlive => ?_⟩
  exact h.bot.coming_replayed hstore h.regular (h.replay keys hkeys) (h.coming y hy hlive) hlive

/-- A bot that has nothing to write, and whose watch has passed what is stored, caches for
every live stored session one of its fold that ranks at least as high. -/
theorem caught_up (h : PeerInv N now net.history p) (hpending : p.sync.pending = [])
    (hwaiting : ∀ i d, .sync i d ∉ p.sync.waiting)
    (hpassed : ∀ key e, entry key net.history = some e → e.revision ≤ p.cursor) {y : Session}
    (hy : Stored N.scope net.history y) (hlive : now < y.expiresAt) :
    ∃ x, p.sync.authorizer.record y.ircPrefix = some x ∧ y.order ≤ x.order := by
  obtain ⟨x, hfold, horder, hx | (⟨q, hq, -⟩ | ⟨i, d, hmem, -⟩) | ⟨r, v, hr, hheld, -⟩⟩ :=
    h.coming y hy hlive
  · refine ⟨x, ?_, horder⟩
    rw [Authorizer.record_congr hfold.symm]
    exact h.regular.keyed.record_of_caches hx
  · rw [hpending] at hq
    simp at hq
  · exact absurd hmem (hwaiting i d)
  · obtain ⟨e, he⟩ := exists_entry_of_mem hheld.mem
    have hle := hheld.le_current he
    have hcursor := hpassed _ e he
    omega

end PeerInv

/-! ## Puts under way -/

/-- No put of the bot is under way. -/
def Idle (net : PutNewer.Net (SessionPut N.scope ι) Str Json) (b : ι) : Prop :=
  ∀ i p, net.puts i = some p → p.caller.bot ≠ b

/-- A put under way is the one that its bot waits for. -/
structure PutsOk (net : PutNewer.Net (SessionPut N.scope ι) Str Json) (bots : ι → SessionPeer) :
    Prop where
  writing : ∀ i p, net.puts i = some p → ∃ w, (bots p.caller.bot).sync.writing = some w ∧
    p.caller.identity = w.key ∧ p.caller.data = w.entry.session
  single : ∀ i j p q, net.puts i = some p → net.puts j = some q →
    q.caller.bot = p.caller.bot → j = i

namespace PutsOk

variable {net net' : PutNewer.Net (SessionPut N.scope ι) Str Json} {bots : ι → SessionPeer}

theorem init (bots : ι → SessionPeer) :
    PutsOk (PutNewer.Net.init : PutNewer.Net (SessionPut N.scope ι) Str Json) bots where
  writing := by simp [PutNewer.Net.init]
  single := by simp [PutNewer.Net.init]

/-- A bot that waits for no put has none. -/
theorem idle (h : PutsOk net bots) {b : ι} (hw : (bots b).sync.writing = none) : Idle net b := by
  rintro i p hi rfl
  obtain ⟨w, hwriting, -⟩ := h.writing i p hi
  rw [hw] at hwriting
  simp at hwriting

/-- The puts of the net are some of the old ones, with their callers. -/
theorem sub (h : PutsOk net bots)
    (hsub : ∀ i p, net'.puts i = some p → ∃ q, net.puts i = some q ∧ q.caller = p.caller) :
    PutsOk net' bots where
  writing := by
    intro i p hi
    obtain ⟨q, hq, hcaller⟩ := hsub i p hi
    rw [← hcaller]
    exact h.writing i q hq
  single := by
    intro i j p q hi hj hbot
    obtain ⟨p', hp', hp⟩ := hsub i p hi
    obtain ⟨q', hq', hq⟩ := hsub j q hj
    refine h.single i j p' q' hp' hq' ?_
    rw [hp, hq, hbot]

/-- A put that reports has ended, and its bot has no other. -/
theorem ended (h : PutsOk net bots) {now : ℚ} {o : PutNewer.Outcome (SessionPut N.scope ι) Json}
    (hst : PutNewer.Moves putKey putData (putNewer now) net net' (some o)) :
    PutsOk net' bots ∧ Idle net' o.caller.bot ∧
      ∃ w, (bots o.caller.bot).sync.writing = some w ∧ o.caller.identity = w.key ∧
        o.caller.data = w.entry.session := by
  obtain ⟨i, stage, hi, rfl⟩ := PutNewer.ended_of_moves hst
  have hsub : ∀ j p, (net.setPut i none).puts j = some p → net.puts j = some p ∧ j ≠ i := by
    intro j p hj
    rw [PutNewer.Net.setPut_puts] at hj
    split_ifs at hj with hji
    exact ⟨hj, hji⟩
  refine ⟨h.sub fun j p hj => ⟨p, (hsub j p hj).1, rfl⟩, fun j p hj hbot => ?_,
    h.writing i _ hi⟩
  obtain ⟨hp, hne⟩ := hsub j p hj
  exact hne (h.single i j _ p hi hp hbot)

/-- A bot whose put has not changed, or that has none, may change. -/
theorem setBot [DecidableEq ι] (h : PutsOk net bots) {b : ι} {p : SessionPeer}
    (hw : Idle net b ∨ p.sync.writing = (bots b).sync.writing) :
    PutsOk net (Function.update bots b p) where
  writing := by
    intro i q hi
    obtain ⟨w, hwriting, hrest⟩ := h.writing i q hi
    refine ⟨w, ?_, hrest⟩
    by_cases hb : q.caller.bot = b
    · rw [hb, Function.update_self, (hw.resolve_left fun hidle => hidle i q hi hb), ← hb]
      exact hwriting
    · rw [Function.update_of_ne hb]
      exact hwriting
  single := h.single

/-- A bot without a put calls one for the entry that it has come to. -/
theorem start (h : PutsOk net bots) {c : SessionPut N.scope ι} {w : SessionWrite}
    (hidle : Idle net c.bot) (hw : (bots c.bot).sync.writing = some w)
    (hkey : c.identity = w.key) (hdata : c.data = w.entry.session) :
    PutsOk (net.start c) bots := by
  have hputs : ∀ i, (net.start c).puts i =
      if i = net.next then some ⟨c, .reading 0⟩ else net.puts i :=
    net.setPut_puts net.next (some ⟨c, .reading 0⟩)
  constructor
  · intro i p hi
    rw [hputs] at hi
    split_ifs at hi with hnew
    · obtain rfl := Option.some.inj hi
      exact ⟨w, hw, hkey, hdata⟩
    · exact h.writing i p hi
  · intro i j p q hi hj hbot
    rw [hputs] at hi hj
    split_ifs at hi hj with hinew hjnew hjnew
    · rw [hinew, hjnew]
    · obtain rfl := Option.some.inj hi
      exact absurd hbot (hidle j q hj)
    · obtain rfl := Option.some.inj hj
      exact absurd hbot.symm (hidle i p hi)
    · exact h.single i j p q hi hj hbot

end PutsOk

/-! ## Runs -/

structure Inv (s : SessionMesh N) : Prop where
  store : StoreInv (Minted N.scope N.names) s.now s.net
  puts : PutsOk s.net s.bots
  bots : ∀ b, PeerInv N s.now s.net.history (s.bots b)

theorem inv_init (N : SessionNetwork ι) (now : ℚ) : Inv (init N now) where
  store := StoreInv.init now
  puts := PutsOk.init _
  bots := fun _ => PeerInv.init N now

variable {s t : SessionMesh N}

theorem Inv.tick (h : Inv s) {later : ℚ} (hle : s.now ≤ later) : Inv { s with now := later } where
  store := h.store.mono (admissible N) hle
  puts := h.puts
  bots := fun b => (h.bots b).tick hle

/-- A step of a put, before its bot hears of it. -/
theorem Inv.moves (h : Inv s) {net : PutNewer.Net (SessionPut N.scope ι) Str Json}
    {o : Option (PutNewer.Outcome (SessionPut N.scope ι) Json)}
    (hst : PutNewer.Moves putKey putData (putNewer s.now) s.net net o)
    (hputs : PutsOk net s.bots) : Inv { s with net := net } where
  store := h.store.moves (admissible N) hst
  puts := hputs
  bots := by
    intro b
    rcases h.store.subset hst with heq | ⟨x, heq⟩
    · rw [heq]
      exact h.bots b
    · rw [heq]
      exact (h.bots b).write x.1 x.2

section Steps

variable [DecidableEq ι]

theorem Inv.setBot (h : Inv s) {b : ι} {p : SessionPeer}
    (hp : PeerInv N s.now s.net.history p)
    (hw : Idle s.net b ∨ p.sync.writing = (s.bots b).sync.writing) : Inv (s.setBot b p) where
  store := h.store
  puts := h.puts.setBot hw
  bots := by
    intro c
    by_cases hc : c = b
    · subst hc
      rw [setBot_bots_self]
      exact hp
    · rw [setBot_bots_of_ne s p hc]
      exact h.bots c

/-- The next put of a drain begins. -/
theorem Inv.launch (h : Inv s) {b : ι} (hidle : Idle s.net b) : Inv (s.launch b) := by
  unfold SessionMesh.launch
  split
  · exact h
  · rename_i w hw
    split
    · exact h.setBot ((h.bots b).leave w.task) (.inl hidle)
    · rename_i c hc
      obtain ⟨rfl, hkey, hdata⟩ := sessionPut_eq_some hc
      obtain ⟨x, hx, -, hPx⟩ := (h.bots c.bot).bot.writing hw
      refine ⟨h.store.start fun y hy => ?_, h.puts.start hidle hw hkey hdata, h.bots⟩
      have hread : Reads N.scope (putData c) x := ⟨_, rfl, hdata ▸ hx⟩
      obtain rfl := hread.unique hy
      exact hPx

/-- A put returns a stored session of its identity, or raises. -/
theorem Inv.finish (h : Inv s) {net : PutNewer.Net (SessionPut N.scope ι) Str Json}
    {o : PutNewer.Outcome (SessionPut N.scope ι) Json}
    (hst : PutNewer.Moves putKey putData (putNewer s.now) s.net net (some o))
    {now₁ now₂ now₃ later : ℚ} (h₁ : s.now ≤ now₁) (hlater : now₁ ≤ later) :
    Inv (({ s with net := net, now := later } : SessionMesh N).finish now₁ now₂ now₃ o) := by
  obtain ⟨hputs, hidle, w, hw, hkey, hdata⟩ := h.puts.ended hst
  have hmoved := h.moves hst hputs
  have hticked : Inv ({ s with net := net, now := later } : SessionMesh N) :=
    hmoved.tick (h₁.trans hlater)
  have hbot := hmoved.bots o.caller.bot
  unfold SessionMesh.finish
  dsimp only
  rw [hw]
  dsimp only
  cases hresult : o.result with
  | none => exact hticked.setBot ((hticked.bots o.caller.bot).leave w.task) (.inl hidle)
  | some v =>
    obtain ⟨y, ⟨stored, rfl, hy⟩, hfold, horder, hPy, hlogged⟩ :=
      h.store.returned (admissible N) hst hresult
    obtain ⟨x, hx, hwkey, -⟩ := hbot.bot.writing hw
    have hyfold : casefold y.ircPrefix .ascii = w.key := by
      rw [hfold, hkey, hwkey, casefold_ascii]
    have hle : ∀ z, parseSessionRecord N.scope w.entry.session = some z → z.order ≤ y.order := by
      intro z hz
      obtain ⟨z', hz', -, hzorder⟩ := sessionOrder_eq_some.mp o.caller.order_eq
      rw [hdata] at hz'
      obtain rfl := Option.some.inj (hz.symm.trans hz')
      rw [hzorder]
      exact horder
    exact (hticked.setBot (hbot.written hw hy hyfold hPy hlogged hle h₁ hlater)
      (.inl hidle)).launch hidle

/-- Every step keeps the invariant. -/
theorem Inv.step (h : Inv s) {a : SessionStep ι} (hst : SessionMesh.step N s a = some t) :
    Inv t := by
  cases a with
  | tick later =>
    simp only [SessionMesh.step] at hst
    split_ifs at hst with hle
    obtain rfl := Option.some.inj hst
    exact h.tick hle
  | call b c =>
    simp only [SessionMesh.step] at hst
    split_ifs at hst with hc
    obtain rfl := Option.some.inj hst
    refine h.setBot ((h.bots b).call b hc) (.inr ?_)
    exact SessionSync.call_writing _ _ _ _ c
  | acquire b later =>
    simp only [SessionMesh.step] at hst
    split_ifs at hst with hle
    split at hst
    · simp at hst
    · rename_i r hr
      obtain rfl := Option.some.inj hst
      have hidle := h.puts.idle (SessionSync.acquire_cases hr).1
      exact ((h.tick hle).setBot (((h.bots b).acquire hr).tick hle) (.inl hidle)).launch hidle
  | net a now₁ now₂ now₃ later =>
    simp only [SessionMesh.step] at hst
    split_ifs at hst with hle
    obtain ⟨h₁, h₂, h₃, hlater⟩ := hle
    split at hst
    · simp at hst
    · rename_i net hnet
      obtain rfl := Option.some.inj hst
      have hmoves := PutNewer.moves_of_step hnet
      exact h.moves hmoves (h.puts.sub fun i p hi => PutNewer.caller_of_moves hmoves hi)
    · rename_i net o hnet
      obtain rfl := Option.some.inj hst
      exact h.finish (PutNewer.moves_of_step hnet) h₁ (h₂.trans (h₃.trans hlater))
  | watch b =>
    obtain rfl := Option.some.inj hst
    exact h.setBot (h.bots b).watch (.inr rfl)
  | deliver b observed later =>
    simp only [SessionMesh.step] at hst
    split_ifs at hst with hle
    split at hst
    · simp at hst
    · rename_i key value hnth
      have hmem := (holds_of_nth hnth).mem
      obtain ⟨y, ⟨record, rfl, hy⟩, rfl, hPy⟩ := h.store.logged _ _ hmem
      have hvalid := validSession_of_parse hy ((admissible N).horizon _ _ hPy)
      dsimp only at hst
      rw [if_pos hvalid] at hst
      obtain rfl := Option.some.inj hst
      have hobserved := h.tick hle.1
      have hpeer := (hobserved.bots b).deliver hobserved.store hnth hle.2
      refine (h.tick (hle.1.trans hle.2)).setBot hpeer (.inr ?_)
      exact (SessionSync.aside_observe _ _ _ _ _ _).writing
  | skip b =>
    simp only [SessionMesh.step] at hst
    split at hst
    · simp at hst
    · rename_i key value hnth
      split_ifs at hst with hold
      obtain rfl := Option.some.inj hst
      exact h.setBot ((h.bots b).skip h.store hnth hold) (.inr rfl)
  | replayed b =>
    simp only [SessionMesh.step] at hst
    split at hst
    · simp at hst
    · rename_i keys hkeys
      obtain rfl := Option.some.inj hst
      refine h.setBot ((h.bots b).replayed h.store hkeys) (.inr ?_)
      exact (SessionSync.aside_replayed _ _ _).writing

theorem launch_history (s : SessionMesh N) (b : ι) : (s.launch b).history = s.history := by
  unfold SessionMesh.launch
  split
  · rfl
  · split <;> rfl

theorem finish_history (s : SessionMesh N) (now₁ now₂ now₃ : ℚ)
    (o : PutNewer.Outcome (SessionPut N.scope ι) Json) :
    (s.finish now₁ now₂ now₃ o).history = s.history := by
  unfold SessionMesh.finish
  dsimp only
  split
  · rfl
  · split
    · exact launch_history _ _
    · rfl

/-- Only a step of a put writes to the bucket. -/
theorem step_history {a : SessionStep ι} (hst : SessionMesh.step N s a = some t) :
    t.history = s.history ∨ ∃ net o, t.history = net.history ∧
      PutNewer.Moves putKey putData (putNewer s.now) s.net net o := by
  cases a with
  | net a now₁ now₂ now₃ later =>
    simp only [SessionMesh.step] at hst
    split_ifs at hst
    split at hst
    · simp at hst
    · rename_i net hnet
      obtain rfl := Option.some.inj hst
      exact .inr ⟨net, none, rfl, PutNewer.moves_of_step hnet⟩
    · rename_i net o hnet
      obtain rfl := Option.some.inj hst
      exact .inr ⟨net, some o, finish_history _ _ _ _ _, PutNewer.moves_of_step hnet⟩
  | tick later =>
    simp only [SessionMesh.step] at hst
    split_ifs at hst
    obtain rfl := Option.some.inj hst
    exact .inl rfl
  | call b c =>
    simp only [SessionMesh.step] at hst
    split_ifs at hst
    obtain rfl := Option.some.inj hst
    exact .inl rfl
  | acquire b later =>
    simp only [SessionMesh.step] at hst
    split_ifs at hst
    split at hst
    · simp at hst
    · obtain rfl := Option.some.inj hst
      exact .inl (launch_history _ _)
  | watch b =>
    obtain rfl := Option.some.inj hst
    exact .inl rfl
  | deliver b observed later =>
    simp only [SessionMesh.step] at hst
    split_ifs at hst
    split at hst
    · simp at hst
    · split at hst
      · split_ifs at hst <;> obtain rfl := Option.some.inj hst <;> exact .inl rfl
      · obtain rfl := Option.some.inj hst
        exact .inl rfl
  | skip b =>
    simp only [SessionMesh.step] at hst
    split at hst
    · simp at hst
    · split_ifs at hst
      obtain rfl := Option.some.inj hst
      exact .inl rfl
  | replayed b =>
    simp only [SessionMesh.step] at hst
    split at hst
    · simp at hst
    · obtain rfl := Option.some.inj hst
      exact .inl rfl

/-- A stored session that has not expired is replaced by one that outranks it. -/
theorem Inv.replaced (h : Inv s) {a : SessionStep ι} (hst : SessionMesh.step N s a = some t)
    {key : Str} {e e' : Entry Json} (he : entry key s.history = some e)
    (he' : entry key t.history = some e') (hne : e' ≠ e) :
    ∃ y z, Reads N.scope e.value y ∧ Reads N.scope e'.value z ∧
      casefold y.ircPrefix .ascii = casefold z.ircPrefix .ascii ∧
      (s.now < y.expiresAt → y.order < z.order) := by
  rcases step_history hst with heq | ⟨net, o, heq, hmoves⟩
  · rw [heq, he] at he'
    exact absurd (Option.some.inj he').symm hne
  have hstore := h.store.moves (admissible N) hmoves
  rcases h.store.subset hmoves with hsame | ⟨⟨key', v⟩, hcons⟩
  · rw [heq, hsame] at he'
    exact absurd (Option.some.inj (he'.symm.trans he)) hne
  · rw [heq, hcons] at he'
    by_cases hkey : key' = key
    · subst hkey
      rw [entry_cons_self] at he'
      obtain rfl := Option.some.inj he'
      have hchain := hstore.chain
      rw [hcons, chain_cons] at hchain
      obtain ⟨y, z, hy, hz, hfold, hor⟩ := hchain.1 e he
      exact ⟨y, z, hy, hz, hfold, fun hlive => hor.resolve_left (not_le.mpr hlive)⟩
    · rw [entry_cons_of_ne _ _ hkey] at he'
      exact absurd (Option.some.inj (he'.symm.trans he)) hne

end Steps

/-! ## Quiet states -/

/-- Nothing is to be written, and every watch has delivered the latest value of every
key. A call of `sync` that waits for the lock has still to write. -/
structure Quiet (s : SessionMesh N) : Prop where
  pending : ∀ b, (s.bots b).sync.pending = []
  idle : ∀ b, (s.bots b).sync.writing = none ∧
    ∀ i d, .sync i d ∉ (s.bots b).sync.waiting
  delivered : ∀ b key e, entry key s.history = some e → e.revision ≤ (s.bots b).cursor

/-- The session is stored, has the identity fold, and has not expired. -/
structure Applies (s : SessionMesh N) (ircPrefix : Str) (z : Session) : Prop where
  stored : Stored N.scope s.history z
  fold : foldIdentity N.casemapping z.ircPrefix = foldIdentity N.casemapping ircPrefix
  live : s.now < z.expiresAt

/-- Of the sessions that apply one ranks highest, and it is no revocation. -/
def Admits (s : SessionMesh N) (ircPrefix : Str) : Prop :=
  ∃ z, s.Applies ircPrefix z ∧ z.revoked = false ∧
    ∀ z', s.Applies ircPrefix z' → z'.order ≤ z.order

/-- In a quiet state a bot caches, for a fold, a session of the highest order stored. -/
theorem Inv.quiet (h : Inv s) (hq : Quiet s) (b : ι) (ircPrefix : Str) :
    (∀ z, s.Applies ircPrefix z → ∃ x, (s.bots b).sync.authorizer.record ircPrefix = some x ∧
      z.order ≤ x.order) ∧
    ∀ x, (s.bots b).sync.authorizer.record ircPrefix = some x → s.now < x.expiresAt →
      ∃ z, s.Applies ircPrefix z ∧ x.order ≤ z.order := by
  have hbot := h.bots b
  have hm := hbot.regular.casemapping
  constructor
  · intro z hz
    obtain ⟨x, hx, horder⟩ := hbot.caught_up (hq.pending b) (hq.idle b).2 (hq.delivered b)
      hz.stored hz.live
    refine ⟨x, ?_, horder⟩
    rw [← hx]
    refine Authorizer.record_congr ?_
    rw [Authorizer.fold, Authorizer.fold, hm]
    exact hz.fold.symm
  · intro x hx hlive
    obtain ⟨z, hfold, horder, hz | ⟨q, hlookup, -⟩ | ⟨i, d, hmem, -⟩⟩ :=
      hbot.bot.stored_or_brings h.store (Authorizer.caches_of_record hx) hlive
    · refine ⟨z, ⟨hz, ?_, hlive.trans_le (Session.expiresAt_le horder)⟩, horder⟩
      have hrecord := hbot.regular.keyed.record hx
      rw [Authorizer.fold, Authorizer.fold, hm] at hrecord
      exact (foldIdentity_congr _ hfold).trans hrecord
    · rw [hq.pending b] at hlookup
      simp at hlookup
    · exact absurd hmem ((hq.idle b).2 i d)

theorem Inv.agrees (h : Inv s) (hq : Quiet s) (b : ι) (ircPrefix : Str) :
    (s.bots b).sync.authorizer.authorized s.now ircPrefix = true ↔ s.Admits ircPrefix := by
  obtain ⟨habove, hbelow⟩ := h.quiet hq b ircPrefix
  rw [Authorizer.authorized_eq]
  constructor
  · intro hauthorized
    cases hx : (s.bots b).sync.authorizer.record ircPrefix with
    | none => simp [hx] at hauthorized
    | some x =>
      rw [hx, Option.any_some, Bool.and_eq_true, decide_eq_true_eq, Bool.not_eq_true'] at hauthorized
      obtain ⟨hlive, hrevoked⟩ := hauthorized
      obtain ⟨z, hz, hxz⟩ := hbelow x hx hlive
      -- no stored session ranks above what is cached
      have hmax : ∀ z', s.Applies ircPrefix z' → z'.order ≤ x.order := by
        intro z' hz'
        obtain ⟨x', hx', hle⟩ := habove z' hz'
        obtain rfl := Option.some.inj (hx.symm.trans hx')
        exact hle
      have hsame := Session.order_inj (le_antisymm hxz (hmax z hz))
      exact ⟨z, hz, hsame.2.2.symm.trans hrevoked, fun z' hz' => (hmax z' hz').trans hxz⟩
  · rintro ⟨z, hz, hrevoked, hmax⟩
    obtain ⟨x, hx, hzx⟩ := habove z hz
    have hlive : s.now < x.expiresAt := hz.live.trans_le (Session.expiresAt_le hzx)
    obtain ⟨z', hz', hxz'⟩ := hbelow x hx hlive
    have hsame := Session.order_inj (le_antisymm hzx (hxz'.trans (hmax z' hz')))
    rw [hx, Option.any_some, hsame.2.2.symm.trans hrevoked]
    simp [hlive]

/-- Sessions converge across the mesh. In every reachable state, a step that replaces an
unexpired stored session stores one of its durable identity that outranks it; and in a
quiet state every bot authorizes exactly the prefixes for which, of the unexpired stored
sessions of their fold, one that is no revocation ranks highest. -/
theorem sessions_converge [DecidableEq ι] (N : SessionNetwork ι) (start : ℚ) (s : SessionMesh N)
    (hs : Machine.Reachable (step N) (init N start) s) :
    (∀ a t, step N s a = some t → ∀ key e e', entry key s.history = some e →
      entry key t.history = some e' → e' ≠ e →
      ∃ y z, Reads N.scope e.value y ∧ Reads N.scope e'.value z ∧
        casefold y.ircPrefix .ascii = casefold z.ircPrefix .ascii ∧
        (s.now < y.expiresAt → y.order < z.order)) ∧
    (Quiet s → ∀ b ircPrefix,
      ((s.bots b).sync.authorizer.authorized s.now ircPrefix = true ↔ s.Admits ircPrefix)) := by
  have h : Inv s := hs.invariant (fun _ _ _ h hst => h.step hst) (inv_init N start)
  refine ⟨fun a t hst key e e' he he' hne => h.replaced hst he he' hne, fun hq b ircPrefix => ?_⟩
  exact h.agrees hq b ircPrefix

/-- Two identities that only the IRC casemappings fold together -/
def sampleNames (p : Str) : Bool := p = lit "a[!u@h" ∨ p = lit "a\x7b!u@h"

/-- Two bots -/
def sampleNetwork : SessionNetwork Bool where
  scope := sampleScope
  casemapping := .rfc1459
  issuers := fun b => if b then lit "t" else lit "f"
  names := sampleNames
  issuer_ne := by decide
  issuer_text := by decide
  name_ne := by
    intro p hp
    rcases of_decide_eq_true hp with rfl | rfl <;> decide
  name_text := by
    intro p hp
    rcases of_decide_eq_true hp with rfl | rfl <;> decide
  key := by
    have hne : sessionKey sampleScope (lit "a[!u@h") ≠ sessionKey sampleScope (lit "a\x7b!u@h") := by
      decide +kernel
    intro p q hp hq hpq
    rcases of_decide_eq_true hp with rfl | rfl <;> rcases of_decide_eq_true hq with rfl | rfl
    · rfl
    · exact absurd hpq hne
    · exact absurd hpq.symm hne
    · rfl

/-- Each bot grants a session, the second outranks the first in their fold; the first bot
revokes what it then has, and the watches deliver everything. -/
def sampleSessions : List (SessionStep Bool) :=
  let put := fun a (t : ℚ) => SessionStep.net a t t t t
  let write := fun b i (t : ℚ) => [SessionStep.acquire b t, put (.serve i) t, put (.judge i) t,
    put (.land 0) t, put (.resume i) t]
  [.call false (.grant (lit "a[!u@h"))] ++ write false 0 0 ++
    [.tick 1, .call true (.grant (lit "a\x7b!u@h"))] ++ write true 1 1 ++
    [.watch false, .deliver false 1 1, .deliver false 1 1, .replayed false,
      .call false (.revoke (lit "A[!U@h"))] ++ write false 2 2 ++
    [.watch true, .deliver true 2 2, .skip true, .deliver true 2 2, .replayed true,
      .deliver false 2 2]

theorem sessions_converge_two : ∃ s,
    Machine.run (step sampleNetwork) (init sampleNetwork 0) sampleSessions = some s ∧
      s.history.length = 3 ∧ ∀ b ircPrefix,
        ((s.bots b).sync.authorizer.authorized s.now ircPrefix = true ↔ s.Admits ircPrefix) := by
  have hrun : (Machine.run (step sampleNetwork) (init sampleNetwork 0) sampleSessions).map
      (fun s => decide (s.history.length = 3 ∧ ∀ b, (s.bots b).cursor = 3 ∧
        (s.bots b).sync.pending.isEmpty ∧ (s.bots b).sync.waiting.isEmpty ∧
        (s.bots b).sync.writing.isNone)) = some true := by
    decide +kernel
  obtain ⟨s, hs, hsettled⟩ := Option.map_eq_some_iff.mp hrun
  obtain ⟨hlength, hbots⟩ := of_decide_eq_true hsettled
  refine ⟨s, hs, hlength, (sessions_converge sampleNetwork 0 s ⟨sampleSessions, hs⟩).2 ?_⟩
  refine ⟨fun b => ?_, fun b => ⟨?_, fun i d hmem => ?_⟩, fun b key e he => ?_⟩
  · exact List.isEmpty_iff.mp (hbots b).2.1
  · exact Option.isNone_iff_eq_none.mp (hbots b).2.2.2
  · rw [List.isEmpty_iff.mp (hbots b).2.2.1] at hmem
    simp at hmem
  · rw [(hbots b).1, ← hlength]
    exact (Holds.of_entry he).revision_le

end SessionMesh

end Botnats
