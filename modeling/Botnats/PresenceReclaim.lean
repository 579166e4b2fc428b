import Botnats.PresenceClaim

/-!
# Reclaiming a presence key

`PresenceStore.reclaim`, read by read, against a bucket that other parties change between
its operations. It yields to any valid record of another instance, while the watch on the
key counts those alone whose bot ID is the key's: the call is justified in what it returns
exactly if every valid record that it read was bound to the key.
-/
namespace Botnats

open Bucket Json

/-- What another party does to the bucket -/
inductive Intrusion
  | write (key : Str) (value : Option Json)
  | remove (key : Str)

def intrude (b : Store Str (Option Json)) (moves : List Intrusion) : Store Str (Option Json) :=
  moves.foldl (fun b m =>
    match m with
    | .write key value => b.write key value
    | .remove key => b.remove key) b

/-- What a round meets: the moves before its read and before its write, the clock readings
at which it judges and signs, and which of its operations fail. -/
structure Turn where
  before : List Intrusion
  judging : ℚ
  between : List Intrusion
  signing : ℚ
  getFails : Bool
  writeFails : Bool

inductive ReclaimError
  | races
  | store
  | unsigned
  deriving DecidableEq

/-- The text of an error that `reclaim` raises itself -/
def ReclaimError.message : ReclaimError → Option String
  | .races => some "presence reclaim lost repeated update races"
  | _ => none

/-- An entry that was read, and the clock reading at which it was judged -/
structure Reading where
  entry : Entry (Option Json)
  now : ℚ

/-- Where a round leaves the bucket, what it read, and what the call returns or raises,
if it ends. -/
structure Round where
  bucket : Store Str (Option Json)
  reading : Option Reading
  result : Option (Except ReclaimError (Option ℕ))

/-- A call, when it has ended -/
structure Reclaim where
  bucket : Store Str (Option Json)
  rounds : ℕ
  reads : List Reading
  result : Except ReclaimError (Option ℕ)

section Model

variable (fold : Str → Str) (mac : Str → Str) (network : Str) (ttl : ℚ) (botId : Str)
  (data : Fields) (instanceId : Str)

/-- What was read is a fresh and correctly signed record. -/
def Reading.accepted (x : Reading) : Bool := validValue mac network ttl x.now x.entry.value

/-- The answer to a valid record: its revision if it is the instance's own, else `None`. -/
def judge (x : Reading) : Option (Option ℕ) :=
  if x.accepted mac network ttl then
    some (if instanceOf x.entry.value = some instanceId then some x.entry.revision else none)
  else none

/-- A write of the signed presence; a lost race leaves the round without a result. -/
def attempt (b : Store Str (Option Json)) (turn : Turn) (reading : Option Reading)
    (write : Store Str (Option Json) → Option Json → Option (Store Str (Option Json))) : Round :=
  match signPresence mac network turn.signing data with
  | none => ⟨b, reading, some (.error .unsigned)⟩
  | some value =>
    let b := intrude b turn.between
    if turn.writeFails then ⟨b, reading, some (.error .store)⟩
    else
      match write b (some value) with
      | some written => ⟨written, reading, some (.ok (some b.next))⟩
      | none => ⟨b, reading, none⟩

/-- A round of the loop of `reclaim`. `fold` is `str.casefold`. -/
def reclaimRound (b : Store Str (Option Json)) (turn : Turn) : Round :=
  let b := intrude b turn.before
  if turn.getFails then ⟨b, none, some (.error .store)⟩
  else
    match b.entries (fold botId) with
    | none => attempt mac network data b turn none fun b v => b.create (fold botId) v
    | some e =>
      match judge mac network ttl instanceId ⟨e, turn.judging⟩ with
      | some answer => ⟨b, some ⟨e, turn.judging⟩, some (.ok answer)⟩
      | none => attempt mac network data b turn (some ⟨e, turn.judging⟩) fun b v =>
          b.update (fold botId) v e.revision

/-- The loop of `reclaim`, a round for each turn -/
def reclaimLoop (b : Store Str (Option Json)) : List Turn → Reclaim
  | [] => ⟨b, 0, [], .error .races⟩
  | turn :: turns =>
    let round := reclaimRound fold mac network ttl botId data instanceId b turn
    match round.result with
    | some result => ⟨round.bucket, 1, round.reading.toList, result⟩
    | none =>
      let rest := reclaimLoop round.bucket turns
      { rest with rounds := rest.rounds + 1, reads := round.reading.toList ++ rest.reads }

/-- `PresenceStore.reclaim` -/
def reclaim (b : Store Str (Option Json)) (first second : Turn) : Reclaim :=
  reclaimLoop fold mac network ttl botId data instanceId b [first, second]

/-- The record's bot ID case-folds to the key. -/
def boundTo (key : Str) : Option Json → Bool
  | some (.obj d) => (text (lit "bot_id") d).any fun s => fold s = key
  | _ => false

/-- The call yields to a bound record of another instance that it read, or returns the
revision at which the bucket holds the instance's own bound record, or raises. -/
structure Reclaim.Justified (c : Reclaim) : Prop where
  yields : c.result = .ok none → ∃ x ∈ c.reads, x.accepted mac network ttl ∧
    boundTo fold (fold botId) x.entry.value ∧ instanceOf x.entry.value ≠ some instanceId
  holds : ∀ r, c.result = .ok (some r) → ∃ v, c.bucket.entries (fold botId) = some ⟨r, v⟩ ∧
    ownRecord mac network instanceId v ∧ boundTo fold (fold botId) v
  rounds : c.rounds ≤ 2

end Model

variable {fold : Str → Str} {mac : Str → Str} {network : Str} {ttl : ℚ} {botId : Str}
  {data : Fields} {instanceId : Str} {b : Store Str (Option Json)} {turn : Turn} {x : Reading}

theorem ownRecord_of_accepted (h : x.accepted mac network ttl) :
    ownRecord mac network instanceId x.entry.value ↔
      instanceOf x.entry.value = some instanceId := by
  unfold Reading.accepted at h
  cases hvalue : x.entry.value with
  | none => simp [hvalue, validValue] at h
  | some v =>
    rw [hvalue] at h
    cases v with
    | obj d =>
      have hsigned : signedPresence mac network d = true := validPresence_signed h
      simp [ownRecord, instanceOf, hsigned]
    | _ => simp [validValue] at h

/-- The claim goes on as the store judges. -/
theorem readEntry_eq_judge (c : Claim) (generation round : ℕ) (now : ℚ)
    (e : Entry (Option Json)) :
    c.readEntry mac network ttl instanceId generation round now (some e) =
      match judge mac network ttl instanceId ⟨e, now⟩ with
      | some answer => (c.settle generation answer, .finish)
      | none => (c, .overwrite round e.revision now) := by
  unfold Claim.readEntry judge Reading.accepted
  dsimp only
  by_cases hvalid : validValue mac network ttl now e.value = true
  · have haccepted : (⟨e, now⟩ : Reading).accepted mac network ttl := hvalid
    have hown : ownRecord mac network instanceId e.value ↔
        instanceOf e.value = some instanceId := ownRecord_of_accepted haccepted
    rw [if_pos hvalid, if_pos hvalid]
    simp only [hown]
  · rw [if_neg hvalid, if_neg hvalid]

/-- A record that `observe_presence` goes by is bound to its key. -/
theorem observable_bound {key : Str} {now : ℚ} {d : Fields}
    (h : observable mac network key ttl now d) :
    boundTo (fun s => casefold s .ascii) key (some (.obj d)) := by
  simp only [observable, Bool.and_eq_true] at h
  obtain ⟨⟨-, hbot⟩, -⟩ := h
  show ((text (lit "bot_id") d).any fun s => casefold s .ascii = key) = true
  cases hid : text (lit "bot_id") d with
  | none => simp [hid] at hbot
  | some s =>
    rw [hid, Option.any_some, Bool.and_eq_true] at hbot
    exact hbot.2

/-- What `sign` writes keeps the presence's own fields. -/
theorem text_signPresence {now : ℚ} {r : Fields} {key : Str}
    (h : signPresence mac network now data = some (.obj r)) (htimestamp : lit "timestamp" ≠ key)
    (hsignature : lit "signature" ≠ key) : text key r = text key data := by
  obtain ⟨signature, -, hr⟩ := Option.map_eq_some_iff.mp h
  obtain rfl := JsonOf.obj.inj hr
  have hstamped := Assoc.lookup_assign_of_ne (.int (truncate now)) data htimestamp
  exact text_congr ((Assoc.lookup_assign_of_ne _ _ hsignature).trans hstamped)

/-- The instance writes its own record, bound to its key. -/
theorem signPresence_own (fold : Str → Str) {now : ℚ} {v : Json}
    (hid : text (lit "bot_id") data = some botId)
    (hinstance : text (lit "instance_id") data = some instanceId)
    (h : signPresence mac network now data = some v) :
    ownRecord mac network instanceId (some v) ∧ boundTo fold (fold botId) (some v) := by
  obtain ⟨r, rfl, hsigned, hown⟩ := signPresence_eq_some h
  have hbot : text (lit "bot_id") r = some botId :=
    (text_signPresence h (by decide) (by decide)).trans hid
  constructor
  · simp [ownRecord, hsigned, hown, hinstance]
  · simp [boundTo, hbot]

/-! ## What a round comes to -/

/-- A call ends on a valid record that it read, or without any: then it raises, or has
written the instance's own record. -/
inductive Settled (fold : Str → Str) (mac : Str → Str) (network : Str) (ttl : ℚ) (botId : Str)
    (instanceId : Str) (b : Store Str (Option Json)) (reads : List Reading) :
    Except ReclaimError (Option ℕ) → Prop
  | judged (x : Reading) (hx : x ∈ reads) (haccepted : x.accepted mac network ttl)
      (honly : ∀ y ∈ reads, y.accepted mac network ttl → y = x)
      (hentry : b.entries (fold botId) = some x.entry) : Settled fold mac network ttl botId
        instanceId b reads (.ok (if instanceOf x.entry.value = some instanceId then
          some x.entry.revision else none))
  | wrote (r : ℕ) (v : Option Json) (hnone : ∀ y ∈ reads, ¬ y.accepted mac network ttl)
      (hentry : b.entries (fold botId) = some ⟨r, v⟩) (hown : ownRecord mac network instanceId v)
      (hbound : boundTo fold (fold botId) v) :
      Settled fold mac network ttl botId instanceId b reads (.ok (some r))
  | raised (e : ReclaimError) (hnone : ∀ y ∈ reads, ¬ y.accepted mac network ttl) :
      Settled fold mac network ttl botId instanceId b reads (.error e)

/-- Reads that come before do not matter if they accepted nothing. -/
theorem Settled.after {earlier reads : List Reading} {result : Except ReclaimError (Option ℕ)}
    (h : Settled fold mac network ttl botId instanceId b reads result)
    (hnone : ∀ y ∈ earlier, ¬ y.accepted mac network ttl) :
    Settled fold mac network ttl botId instanceId b (earlier ++ reads) result := by
  have hsplit {P : Reading → Prop} (hP : ∀ y ∈ reads, y.accepted mac network ttl → P y) :
      ∀ y ∈ earlier ++ reads, y.accepted mac network ttl → P y := by
    intro y hy haccepted
    rcases List.mem_append.mp hy with hy | hy
    · exact absurd haccepted (hnone y hy)
    · exact hP y hy haccepted
  cases h with
  | judged x hx haccepted honly hentry =>
    exact .judged x (List.mem_append_right _ hx) haccepted (hsplit honly) hentry
  | wrote r v hreads hentry hown hbound => exact .wrote r v (hsplit hreads) hentry hown hbound
  | raised e hreads => exact .raised e (hsplit hreads)

/-- A round settles the call, or has accepted nothing. -/
structure Round.Sound (fold : Str → Str) (mac : Str → Str) (network : Str) (ttl : ℚ)
    (botId : Str) (instanceId : Str) (round : Round) : Prop where
  ends : ∀ result, round.result = some result →
    Settled fold mac network ttl botId instanceId round.bucket round.reading.toList result
  goes : round.result = none → ∀ y ∈ round.reading.toList, ¬ y.accepted mac network ttl

theorem Round.Sound.of_result {round : Round} {result : Except ReclaimError (Option ℕ)}
    (hresult : round.result = some result)
    (h : Settled fold mac network ttl botId instanceId round.bucket round.reading.toList result) :
    round.Sound fold mac network ttl botId instanceId where
  ends := by
    intro r hr
    rw [hresult] at hr
    obtain rfl := Option.some.inj hr
    exact h
  goes := fun hnone => by simp [hresult] at hnone

/-- A round that writes has judged nothing that it accepts. -/
theorem attempt_sound (hid : text (lit "bot_id") data = some botId)
    (hinstance : text (lit "instance_id") data = some instanceId) {reading : Option Reading}
    (hnone : ∀ y ∈ reading.toList, ¬ y.accepted mac network ttl)
    {write : Store Str (Option Json) → Option Json → Option (Store Str (Option Json))}
    (hwrite : ∀ b v b', write b v = some b' → b' = b.write (fold botId) v) :
    (attempt mac network data b turn reading write).Sound fold mac network ttl botId
      instanceId := by
  unfold attempt
  cases hsign : signPresence mac network turn.signing data with
  | none => exact .of_result rfl (.raised _ hnone)
  | some value =>
    dsimp only
    split_ifs with hfails
    · exact .of_result rfl (.raised _ hnone)
    · cases hwritten : write (intrude b turn.between) (some value) with
      | none => exact ⟨fun result hresult => by simp at hresult, fun _ => hnone⟩
      | some b' =>
        obtain rfl := hwrite _ _ _ hwritten
        have hwrites := signPresence_own fold hid hinstance hsign
        exact .of_result rfl (.wrote _ (some value) hnone (by simp) hwrites.1 hwrites.2)

theorem judge_eq_none (h : judge mac network ttl instanceId x = none) :
    ¬ x.accepted mac network ttl := by
  intro haccepted
  rw [judge, if_pos haccepted] at h
  simp at h

theorem judge_eq_some {answer : Option ℕ} (h : judge mac network ttl instanceId x = some answer) :
    x.accepted mac network ttl ∧ answer =
      if instanceOf x.entry.value = some instanceId then some x.entry.revision else none := by
  by_cases haccepted : x.accepted mac network ttl = true
  · rw [judge, if_pos haccepted] at h
    exact ⟨haccepted, (Option.some.inj h).symm⟩
  · rw [judge, if_neg haccepted] at h
    simp at h

theorem reclaimRound_sound (hid : text (lit "bot_id") data = some botId)
    (hinstance : text (lit "instance_id") data = some instanceId) (b : Store Str (Option Json))
    (turn : Turn) : (reclaimRound fold mac network ttl botId data instanceId b turn).Sound fold
      mac network ttl botId instanceId := by
  unfold reclaimRound
  dsimp only
  split_ifs with hfails
  · exact .of_result rfl (.raised _ (by simp))
  · cases hentry : (intrude b turn.before).entries (fold botId) with
    | none =>
      apply attempt_sound hid hinstance (by simp)
      intro b v b' h
      exact (Store.create_eq_some.mp h).2
    | some e =>
      dsimp only
      cases hjudge : judge mac network ttl instanceId ⟨e, turn.judging⟩ with
      | none =>
        have hnone := judge_eq_none hjudge
        apply attempt_sound hid hinstance (by simpa using hnone)
        intro b v b' h
        exact (Store.update_eq_some.mp h).2
      | some answer =>
        obtain ⟨haccepted, rfl⟩ := judge_eq_some hjudge
        exact .of_result rfl
          (.judged ⟨e, turn.judging⟩ (by simp) haccepted (by simp) hentry)

/-- The loop settles the call. -/
theorem reclaimLoop_settled (hid : text (lit "bot_id") data = some botId)
    (hinstance : text (lit "instance_id") data = some instanceId) (b : Store Str (Option Json))
    (turns : List Turn) :
    let call := reclaimLoop fold mac network ttl botId data instanceId b turns
    Settled fold mac network ttl botId instanceId call.bucket call.reads call.result := by
  induction turns generalizing b with
  | nil => exact .raised _ (by simp [reclaimLoop])
  | cons turn turns ih =>
    have hround : (reclaimRound fold mac network ttl botId data instanceId b turn).Sound fold mac
        network ttl botId instanceId := reclaimRound_sound hid hinstance b turn
    unfold reclaimLoop
    dsimp only
    cases hresult : (reclaimRound fold mac network ttl botId data instanceId b turn).result with
    | some result => exact hround.ends result hresult
    | none => exact (ih _).after (hround.goes hresult)

theorem reclaimLoop_rounds (b : Store Str (Option Json)) (turns : List Turn) :
    (reclaimLoop fold mac network ttl botId data instanceId b turns).rounds ≤ turns.length := by
  induction turns generalizing b with
  | nil => exact le_rfl
  | cons turn turns ih =>
    unfold reclaimLoop
    dsimp only
    split
    · simp
    · have hrest := ih (reclaimRound fold mac network ttl botId data instanceId b turn).bucket
      simp only [List.length_cons]
      omega

/-- A settled call is justified exactly if it accepted nothing but bound records. -/
theorem Settled.justified_iff {c : Reclaim} (h : Settled fold mac network ttl botId instanceId
    c.bucket c.reads c.result) (hrounds : c.rounds ≤ 2) :
    c.Justified fold mac network ttl botId instanceId ↔
      ∀ x ∈ c.reads, x.accepted mac network ttl → boundTo fold (fold botId) x.entry.value := by
  generalize hresult : c.result = result at h
  cases h with
  | judged x hx haccepted honly hentry =>
    constructor
    · intro hjustified y hy hyaccepted
      obtain rfl := honly y hy hyaccepted
      by_cases hown : instanceOf y.entry.value = some instanceId
      · rw [if_pos hown] at hresult
        obtain ⟨v, hv, -, hbound⟩ := hjustified.holds _ hresult
        rw [hentry] at hv
        rwa [Option.some.inj hv]
      · rw [if_neg hown] at hresult
        obtain ⟨z, hz, hzaccepted, hbound, -⟩ := hjustified.yields hresult
        rwa [honly z hz hzaccepted] at hbound
    · intro hall
      refine ⟨fun hnone => ?_, fun r hr => ?_, hrounds⟩
      · refine ⟨x, hx, haccepted, hall x hx haccepted, fun hown => ?_⟩
        rw [hresult, if_pos hown] at hnone
        simp at hnone
      · by_cases hown : instanceOf x.entry.value = some instanceId
        · rw [hresult, if_pos hown] at hr
          obtain rfl := Option.some.inj (Except.ok.inj hr)
          exact ⟨x.entry.value, hentry, (ownRecord_of_accepted haccepted).mpr hown,
            hall x hx haccepted⟩
        · rw [hresult, if_neg hown] at hr
          simp at hr
  | wrote r v hnone hentry hown hbound =>
    refine ⟨fun _ x hx haccepted => absurd haccepted (hnone x hx), fun _ => ?_⟩
    refine ⟨fun hyields => ?_, fun n hn => ?_, hrounds⟩
    · rw [hresult] at hyields
      simp at hyields
    · rw [hresult] at hn
      obtain rfl := Option.some.inj (Except.ok.inj hn)
      exact ⟨v, hentry, hown, hbound⟩
  | raised e hnone =>
    refine ⟨fun _ x hx haccepted => absurd haccepted (hnone x hx), fun _ => ?_⟩
    refine ⟨fun hyields => ?_, fun n hn => ?_, hrounds⟩
    · rw [hresult] at hyields
      simp at hyields
    · rw [hresult] at hn
      simp at hn

/-- A call of the bot with its own presence is justified exactly if every fresh and
correctly signed record that it read carries a bot ID that case-folds to the key. -/
theorem reclaim_justified_iff (fold : Str → Str) (mac : Str → Str) (network : Str) (ttl : ℚ)
    (botId : Str) (data : Fields) (instanceId : Str) (b : Store Str (Option Json))
    (first second : Turn) (hid : text (lit "bot_id") data = some botId)
    (hinstance : text (lit "instance_id") data = some instanceId) :
    let call := reclaim fold mac network ttl botId data instanceId b first second
    call.Justified fold mac network ttl botId instanceId ↔
      ∀ x ∈ call.reads, x.accepted mac network ttl →
        boundTo fold (fold botId) x.entry.value :=
  (reclaimLoop_settled hid hinstance b [first, second]).justified_iff
    (reclaimLoop_rounds b [first, second])

/-- The presence of an instance of the bot -/
def samplePresence (botId instanceId : Str) : Fields :=
  presenceFields botId (lit "h") instanceId (lit "n") (lit "u")

/-- Somebody writes the record of a bot to the key `alpha` before the read, and removes it
before the write. -/
def sampleTurn (botId : Str) : Turn where
  before := [.write (lit "alpha")
    (signPresence sampleMac (lit "net") 100 (samplePresence botId (lit "b")))]
  judging := 101
  between := [.remove (lit "alpha")]
  signing := 102
  getFails := false
  writeFails := false

/-- Another instance of the bot holds the key. -/
theorem reclaim_justified_duplicate :
    let fold := fun s => casefold s .ascii
    let data := samplePresence (lit "Alpha") (lit "a")
    let call := reclaim fold sampleMac (lit "net") 90 (lit "Alpha") data (lit "a")
      (Store.empty Str (Option Json)) (sampleTurn (lit "ALPHA")) (sampleTurn (lit "ALPHA"))
    text (lit "bot_id") data = some (lit "Alpha") ∧
    text (lit "instance_id") data = some (lit "a") ∧
    (call.Justified fold sampleMac (lit "net") 90 (lit "Alpha") (lit "a") ↔
      ∀ x ∈ call.reads, x.accepted sampleMac (lit "net") 90 →
        boundTo fold (fold (lit "Alpha")) x.entry.value) :=
  ⟨by decide, by decide, reclaim_justified_iff _ _ _ _ _ _ _ _ _ _ (by decide) (by decide)⟩

/-- A record of another bot, copied to the key, makes the bot yield it. -/
theorem not_reclaim_justified_all :
    ¬ ∀ (fold : Str → Str) (mac : Str → Str) (network : Str) (ttl : ℚ) (botId : Str)
      (data : Fields) (instanceId : Str) (b : Store Str (Option Json)) (first second : Turn),
      text (lit "bot_id") data = some botId → text (lit "instance_id") data = some instanceId →
      (reclaim fold mac network ttl botId data instanceId b first second).Justified fold mac
        network ttl botId instanceId := by
  intro hall
  let call := reclaim (fun s => casefold s .ascii) sampleMac (lit "net") 90 (lit "Alpha")
    (samplePresence (lit "Alpha") (lit "a")) (lit "a") (Store.empty Str (Option Json))
    (sampleTurn (lit "beta")) (sampleTurn (lit "beta"))
  have hjustified : call.Justified (fun s => casefold s .ascii) sampleMac (lit "net") 90
      (lit "Alpha") (lit "a") := hall _ _ _ _ _ _ _ _ _ _ (by decide) (by decide)
  have hsettled : Settled (fun s => casefold s .ascii) sampleMac (lit "net") 90 (lit "Alpha")
      (lit "a") call.bucket call.reads call.result :=
    reclaimLoop_settled (by decide) (by decide) _ _
  have hbound := (hsettled.justified_iff (reclaimLoop_rounds _ _)).mp hjustified
  have hread : (call.reads.any fun x => x.accepted sampleMac (lit "net") 90 &&
      !boundTo (fun s => casefold s .ascii) (lit "alpha") x.entry.value) = true := by
    decide +kernel
  obtain ⟨x, hx, hcopied⟩ := List.any_eq_true.mp hread
  rw [Bool.and_eq_true] at hcopied
  have hkey : boundTo (fun s => casefold s .ascii) (lit "alpha") x.entry.value = true :=
    hbound x hx hcopied.1
  rw [hkey] at hcopied
  exact absurd hcopied.2 (by decide)

end Botnats
