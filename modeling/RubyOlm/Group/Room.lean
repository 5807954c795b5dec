import RubyOlm.Buffers.Pickle
import RubyOlm.Group.Evidence
import RubyOlm.Group.Export

/-!
# Rooms

A sender and whoever it shares its session with. The sender encrypts and gives out session keys; members join with
one of these, or with an export of another member, at any time and as often as they like. Messages are lost, and come
late, out of order or again, or are not the sender's. Everything may be pickled and unpickled between any two calls.
-/

namespace RubyOlm

namespace OutboundGroupSession

/-- `olm_pickle_outbound_group_session` into `buffer`, and `olm_unpickle_outbound_group_session` of it to another object. -/
def reload (crypto : Crypto) (session : OutboundGroupSession) (key : Bytes) (buffer : Memory Unit)
    (memory : OutboundGroupSession) : OutboundGroupSession × Option Nat :=
  let length := pickleLength crypto session
  let pickled := pickleAt crypto key ⟨(), 0⟩ length session buffer
  (unpickleAt crypto key ⟨(), 0⟩ length memory pickled.memory).value

end OutboundGroupSession

namespace InboundGroupSession

/-- `olm_pickle_inbound_group_session` into `buffer`, and `olm_unpickle_inbound_group_session` of it to a new object. -/
def reload (crypto : Crypto) (session : InboundGroupSession) (key : Bytes) (buffer : Memory Unit) :
    InboundGroupSession × Option Nat :=
  let length := pickleLength crypto session
  let pickled := pickleAt crypto key ⟨(), 0⟩ length session buffer
  (unpickleAt crypto key ⟨(), 0⟩ length clear pickled.memory).value

end InboundGroupSession

/-- An inbound session, whether it was made from a session key, and how many messages it has decrypted. -/
structure Member where
  session : InboundGroupSession
  joined : Bool
  opened : Nat

/-- The messages are in the order in which they were sent. -/
structure GroupRoom where
  outbound : OutboundGroupSession
  sent : List Sent
  keys : List Bytes
  exports : List Bytes
  members : List Member

namespace GroupRoom

inductive Call where
  | encrypt (plaintext : Bytes) (message : Buffer)
  | sessionKey (keyLength : Nat)
  | reloadOutbound (key : Bytes) (buffer : Memory Unit) (memory : OutboundGroupSession)
  | init (sessionKey : Bytes)
  | importSession (exported : Bytes)
  | decrypt (number : Nat) (stack : GroupMessageResults) (message : Bytes) (maxPlaintextLength : Nat)
  | exportSession (number keyLength : Nat) (messageIndex : UInt32)
  | reload (number : Nat) (key : Bytes) (buffer : Memory Unit)

variable (crypto : Crypto)

def start (outbound : OutboundGroupSession) : GroupRoom := ⟨outbound, [], [], [], []⟩

def encrypt (room : GroupRoom) (plaintext message : Bytes) : GroupRoom :=
  match room.outbound.encrypt crypto plaintext message with
  | (outbound, none) => { room with outbound }
  | (outbound, some message) => { room with outbound, sent := room.sent ++ [⟨plaintext, message⟩] }

def sessionKey (room : GroupRoom) (keyLength : Nat) : GroupRoom :=
  match room.outbound.sessionKey crypto keyLength with
  | (outbound, none) => { room with outbound }
  | (outbound, some key) => { room with outbound, keys := key :: room.keys }

/-- A session whose key was refused is given up. -/
def join (room : GroupRoom) (joined : Bool) : InboundGroupSession × Option Unit → GroupRoom
  | (_, none) => room
  | (session, some ()) => { room with members := room.members ++ [⟨session, joined, 0⟩] }

def decrypt (room : GroupRoom) (number : Nat) (stack : GroupMessageResults) (message : Bytes) (maxPlaintextLength : Nat) :
    GroupRoom :=
  match room.members[number]? with
  | none => room
  | some member =>
    let decrypted := member.session.decrypt crypto stack message maxPlaintextLength
    let opened := if decrypted.plaintext.isSome then member.opened + 1 else member.opened
    { room with members := room.members.set number { member with session := decrypted.session, opened } }

def exportSession (room : GroupRoom) (number keyLength : Nat) (messageIndex : UInt32) : GroupRoom :=
  match room.members[number]? with
  | none => room
  | some member =>
    let (session, exported) := member.session.exportSession crypto keyLength messageIndex
    { room with
      members := room.members.set number { member with session }
      exports := exported.toList ++ room.exports }

def reload (room : GroupRoom) (number : Nat) (key : Bytes) (buffer : Memory Unit) : GroupRoom :=
  match room.members[number]? with
  | none => room
  | some member =>
    { room with
      members := room.members.set number { member with session := (member.session.reload crypto key buffer).1 } }

def step (room : GroupRoom) : Call → GroupRoom
  | .encrypt plaintext message => room.encrypt crypto plaintext message.val
  | .sessionKey keyLength => room.sessionKey crypto keyLength
  | .reloadOutbound key buffer memory => { room with outbound := (room.outbound.reload crypto key buffer memory).1 }
  | .init sessionKey => room.join true (InboundGroupSession.clear.init crypto sessionKey)
  | .importSession exported => room.join false (InboundGroupSession.clear.importSession crypto exported)
  | .decrypt number stack message maxPlaintextLength => room.decrypt crypto number stack message maxPlaintextLength
  | .exportSession number keyLength messageIndex => room.exportSession crypto number keyLength messageIndex
  | .reload number key buffer => room.reload crypto number key buffer

/-- Only what the sender has signed verifies under its key. -/
def Unforged (room : GroupRoom) (message : Bytes) : Prop :=
  messageSigned crypto (decodeBase64 message) room.outbound.signingKey.publicKey →
    ∃ sent ∈ room.sent, decodeBase64 message = decodeBase64 sent.message

/-- There are fewer than `2 ^ 31` messages and no export is asked for past them, keys and exports are those that were
given out, and there is no forgery. -/
def Allowed (room : GroupRoom) : Call → Prop
  | .encrypt _ _ => room.sent.length + 1 < 2 ^ 31
  | .init sessionKey => sessionKey ∈ room.keys
  | .importSession exported => exported ∈ room.exports
  | .decrypt _ _ message _ => room.Unforged crypto message
  | .exportSession _ _ messageIndex => messageIndex.toNat < 2 ^ 31
  | _ => True

inductive Run (room : GroupRoom) : GroupRoom → Prop
  | refl : Run room room
  | step {room' : GroupRoom} (call : Call) (run : Run room room') (allowed : room'.Allowed crypto call) :
    Run room (room'.step crypto call)

end GroupRoom

/-! ### Calls of a session -/

theorem OutboundGroupSession.reload_eq {crypto : Crypto} (perm : crypto.aes.Permutation) (session : OutboundGroupSession)
    (key : Bytes) (buffer : Memory Unit) (memory : OutboundGroupSession) :
    (session.reload crypto key buffer memory).1 = { session with lastError := memory.lastError } := by
  have trips : Pickle.RoundTrips (B := Unit) (pickleLength crypto) (pickleAt crypto) (unpickleAt crypto) memory
      fun value restored => restored = { value with lastError := memory.lastError } :=
    Pickle.roundTrips_group perm length_pickleBody (unpickleBody_pickleBody memory) _ _
  obtain ⟨restored, read, same⟩ := trips.reads session key ⟨(), 0⟩ buffer
  exact (congrArg Prod.fst read).trans same

namespace InboundGroupSession

variable {crypto : Crypto}

theorem reload_eq (perm : crypto.aes.Permutation) (session : InboundGroupSession) (key : Bytes)
    (buffer : Memory Unit) : (session.reload crypto key buffer).1 = { session with lastError := .success } := by
  have trips : Pickle.RoundTrips (B := Unit) (pickleLength crypto) (pickleAt crypto) (unpickleAt crypto) clear
      fun value restored => restored = { value with lastError := .success } :=
    Pickle.roundTrips_group perm length_pickleBody (unpickleBody_pickleBody clear) _ _
  obtain ⟨restored, read, same⟩ := trips.reads session key ⟨(), 0⟩ buffer
  exact (congrArg Prod.fst read).trans same

variable (crypto) in
theorem apply_signingKey (session : InboundGroupSession) (call : Call) :
    (call.apply crypto session).signingKey = session.signingKey := by
  cases call with
  | decrypt stack message maxPlaintextLength => exact decrypt_signingKey crypto session stack message maxPlaintextLength
  | «export» keyLength messageIndex =>
    have kept := getMegolm_signingKey crypto session messageIndex
    simp only [Call.apply, exportSession]
    split
    · rfl
    · rcases lookup : session.getMegolm crypto messageIndex with ⟨after, _ | megolm⟩
      · rw [lookup] at kept
        exact kept
      · rw [lookup] at kept
        exact kept

/-- A call that looks for low indices only keeps a session in step. -/
theorem InStep.apply {start session : InboundGroupSession} (inStep : InStep crypto start session)
    (start_low : start.initialRatchet.counter.toNat < 2 ^ 31) {call : Call}
    (low : ∀ messageIndex, call.lookup crypto session = some messageIndex → messageIndex.toNat < 2 ^ 31) :
    InStep crypto start (call.apply crypto session) := by
  obtain ⟨initial, latest⟩ := call.apply_ratchets crypto session
  have kept := apply_signingKey crypto session call
  cases request : call.lookup crypto session with
  | none =>
    rw [request] at initial latest
    refine ⟨⟨initial.trans inStep.cached.initial, ?_, ?_⟩, kept.trans inStep.signingKey, ?_⟩
    · rw [latest]; exact inStep.cached.near
    · rw [latest]; exact inStep.cached.latest
    · rw [latest]; exact inStep.low
  | some messageIndex =>
    rw [request] at initial latest
    have index_low := low messageIndex request
    have cached := getMegolm_cached inStep.cached (inStep.calm start_low index_low)
    refine ⟨⟨initial.trans cached.initial, ?_, ?_⟩, kept.trans inStep.signingKey, ?_⟩
    · rw [latest]; exact cached.near
    · rw [latest]; exact cached.latest
    · rw [latest]
      cases (getMegolm_fields crypto session messageIndex).2 with
      | inl same =>
        rw [same]
        exact inStep.low
      | inr moved =>
        rw [moved]
        exact index_low

variable (crypto) in
/-- Base64 aside, what is decrypted are the decoded bytes. -/
theorem decrypt_congr (session : InboundGroupSession) (stack : GroupMessageResults) {message message' : Bytes}
    (maxPlaintextLength : Nat) (decodes : decodeBase64Length message.length ≠ none)
    (decodes' : decodeBase64Length message'.length ≠ none) (same : decodeBase64 message = decodeBase64 message') :
    session.decrypt crypto stack message maxPlaintextLength = session.decrypt crypto stack message' maxPlaintextLength := by
  obtain ⟨length, known⟩ := Option.ne_none_iff_exists'.mp decodes
  obtain ⟨length', known'⟩ := Option.ne_none_iff_exists'.mp decodes'
  simp only [decrypt, known, known', same]

theorem decrypt_decodes {session : InboundGroupSession} {stack : GroupMessageResults} {message plaintext : Bytes}
    {maxPlaintextLength : Nat}
    (opened : (session.decrypt crypto stack message maxPlaintextLength).plaintext = some plaintext) :
    decodeBase64Length message.length ≠ none := by
  intro none
  rw [decrypt, none] at opened
  cases opened

variable (crypto) in
/-- What is decrypted counts as verified. -/
theorem decrypt_verified (session : InboundGroupSession) (stack : GroupMessageResults) (message : Bytes)
    (maxPlaintextLength : Nat) :
    (session.decrypt crypto stack message maxPlaintextLength).plaintext = none ∨
      (session.decrypt crypto stack message maxPlaintextLength).session.signingKeyVerified = true := by
  unfold decrypt
  split
  · exact .inl rfl
  unfold decryptRaw
  dsimp only
  split
  · exact .inl rfl
  split
  · split
    · exact .inl rfl
    split
    · exact .inl rfl
    split
    · exact .inl rfl
    · split
      · exact .inl rfl
      · exact .inr rfl
  · exact .inl rfl

variable (crypto) in
theorem exportSession_verified (session : InboundGroupSession) (keyLength : Nat) (messageIndex : UInt32) :
    (session.exportSession crypto keyLength messageIndex).1.signingKeyVerified = session.signingKeyVerified := by
  have kept := getMegolm_verified crypto session messageIndex
  unfold exportSession
  split
  · rfl
  · rcases lookup : session.getMegolm crypto messageIndex with ⟨after, _ | megolm⟩
    · rw [lookup] at kept
      exact kept
    · rw [lookup] at kept
      exact kept

theorem lookup_some {session : InboundGroupSession} {stack : GroupMessageResults} {message : Bytes}
    {maxPlaintextLength : Nat} {messageIndex : UInt32}
    (request : (Call.decrypt stack message maxPlaintextLength).lookup crypto session = some messageIndex) :
    messageSigned crypto (decodeBase64 message) session.signingKey = true ∧
      messageIndex = (decodeGroupMessage stack (decodeBase64 message) (megolmCipher crypto).macLength
        signatureLength).messageIndex := by
  simp only [Call.lookup] at request
  split at request
  · cases request
  split at request
  · cases request
  split at request
  · split at request
    · cases request
    · rename_i signed
      split at request
      · cases request
      · obtain rfl := Option.some.inj request
        exact ⟨of_not_not signed, rfl⟩
  · cases request

end InboundGroupSession

/-! ### What holds in a room -/

namespace GroupRoom

open InboundGroupSession OutboundGroupSession

/-- The ratchet of the message with the number `n`. -/
def ratchetAt (crypto : Crypto) (first : Megolm (Block 32)) (n : Nat) : Megolm (Block 32) :=
  (Megolm.advance (megolmHash crypto))^[n] first

/-- What a member holds at first that knows the messages from the number `known` on. -/
def sharedAt (crypto : Crypto) (seed : Block 32) (first : Megolm (Block 32)) (known : Nat) : InboundGroupSession :=
  { clear with
    initialRatchet := ratchetAt crypto first known
    latestRatchet := ratchetAt crypto first known
    signingKey := (crypto.ed25519.createKeypair seed).publicKey }

structure Follows (crypto : Crypto) (seed : Block 32) (first : Megolm (Block 32)) (known : Nat) (member : Member) :
    Prop where
  low : known < 2 ^ 31
  inStep : InStep crypto (sharedAt crypto seed first known) member.session
  verified : member.session.isVerified = (member.joined || decide (0 < member.opened))

/-- What holds throughout a room whose sender began with the ratchet `first`. -/
structure Held (crypto : Crypto) (seed : Block 32) (first : Megolm (Block 32)) (room : GroupRoom) : Prop where
  signingKey : room.outbound.signingKey = crypto.ed25519.createKeypair seed
  ratchet : room.outbound.ratchet = ratchetAt crypto first room.sent.length
  few : room.sent.length < 2 ^ 31
  sent : ∀ n sent, room.sent[n]? = some sent →
    Genuine crypto (crypto.ed25519.createKeypair seed) (ratchetAt crypto first n) sent.plaintext sent.message
  keys : ∀ key ∈ room.keys, ∃ known < 2 ^ 31,
    let body := sessionKeyLayout sessionKeyVersion (ratchetAt crypto first known)
      (crypto.ed25519.createKeypair seed).publicKey
    key = encodeBase64 (body ++ (crypto.ed25519.sign (crypto.ed25519.createKeypair seed) body).val)
  exports : ∀ exported ∈ room.exports, ∃ known < 2 ^ 31,
    exported = encodeBase64 (sessionKeyLayout sessionExportVersion (ratchetAt crypto first known)
      (crypto.ed25519.createKeypair seed).publicKey)
  members : ∀ member ∈ room.members, ∃ known, Follows crypto seed first known member

variable {crypto : Crypto} {seed : Block 32} {first : Megolm (Block 32)} {room : GroupRoom} {member : Member} {known : Nat}

theorem toNat_ofNat_low {n : Nat} (low : n < 2 ^ 31) : (UInt32.ofNat n).toNat = n :=
  UInt32.toNat_ofNat_of_lt' (low.trans (by decide))

theorem ratchetAt_counter (zero : first.counter = 0) (n : Nat) : (ratchetAt crypto first n).counter = UInt32.ofNat n := by
  rw [ratchetAt, Megolm.iterate_counter, zero, UInt32.zero_add]

theorem toNat_ratchetAt_counter (zero : first.counter = 0) {n : Nat} (low : n < 2 ^ 31) :
    (ratchetAt crypto first n).counter.toNat = n := by
  rw [ratchetAt_counter zero, toNat_ofNat_low low]

/-! #### Members -/

theorem sharedAt_inStep (zero : first.counter = 0) (low : known < 2 ^ 31) {session : InboundGroupSession}
    (initial : session.initialRatchet = ratchetAt crypto first known) (latest : session.latestRatchet = session.initialRatchet)
    (signingKey : session.signingKey = (crypto.ed25519.createKeypair seed).publicKey) :
    InStep crypto (sharedAt crypto seed first known) session := by
  have same : session.latestRatchet.counter - (sharedAt crypto seed first known).initialRatchet.counter = 0 := by
    rw [latest, initial]
    exact UInt32.sub_self _
  refine ⟨⟨initial, ?_, ?_⟩, signingKey, ?_⟩
  · rw [same]
    decide
  · rw [same, latest, initial]
    rfl
  · rw [latest, initial, toNat_ratchetAt_counter zero low]
    exact low

section Follows

variable (zero : first.counter = 0) (follows : Follows crypto seed first known member)
include zero follows

theorem Follows.start_low : (sharedAt crypto seed first known).initialRatchet.counter.toNat < 2 ^ 31 := by
  rw [sharedAt, toNat_ratchetAt_counter zero follows.low]
  exact follows.low

theorem Follows.firstKnownIndex : member.session.firstKnownIndex.toNat = known := by
  rw [InboundGroupSession.firstKnownIndex, follows.inStep.cached.initial]
  exact toNat_ratchetAt_counter zero follows.low

theorem Follows.getMegolm {messageIndex : UInt32} (low : messageIndex.toNat < 2 ^ 31) :
    (known ≤ messageIndex.toNat →
      (member.session.getMegolm crypto messageIndex).2 = some (ratchetAt crypto first messageIndex.toNat)) ∧
    (messageIndex.toNat < known →
      member.session.getMegolm crypto messageIndex = ({ member.session with lastError := .unknownMessageIndex }, none)) := by
  have counter : (sharedAt crypto seed first known).initialRatchet.counter.toNat = known :=
    toNat_ratchetAt_counter zero follows.low
  obtain ⟨ahead, behind⟩ := follows.inStep.getMegolm (follows.start_low zero) messageIndex low
  constructor
  · intro le
    have le' : (sharedAt crypto seed first known).initialRatchet.counter ≤ messageIndex := by
      rw [UInt32.le_iff_toNat_le, counter]
      exact le
    rw [ahead le', UInt32.toNat_sub_of_le _ _ le', counter]
    show some ((Megolm.advance (megolmHash crypto))^[messageIndex.toNat - known] (ratchetAt crypto first known)) = _
    rw [ratchetAt, ← Function.iterate_add_apply, Nat.sub_add_cancel le, ratchetAt]
  · intro lt
    apply behind
    rw [UInt32.lt_iff_toNat_lt, counter]
    exact lt

theorem Follows.exportSession {messageIndex : UInt32} (low : messageIndex.toNat < 2 ^ 31) (keyLength : Nat) :
    (member.session.exportSession crypto keyLength messageIndex).2 =
      if keyLength < encodeBase64Length sessionExportRawLength ∨ messageIndex.toNat < known then none
      else some (encodeBase64 (sessionKeyLayout sessionExportVersion (ratchetAt crypto first messageIndex.toNat)
        (crypto.ed25519.createKeypair seed).publicKey)) := by
  obtain ⟨ahead, behind⟩ := follows.getMegolm zero low
  unfold InboundGroupSession.exportSession
  by_cases small : keyLength < encodeBase64Length sessionExportRawLength
  · rw [if_pos small, if_pos (.inl small)]
  · by_cases unknown : messageIndex.toNat < known
    · rw [if_neg small, if_pos (.inr unknown), behind unknown]
    · have known_le := Nat.le_of_not_lt unknown
      have kept := getMegolm_signingKey crypto member.session messageIndex
      rw [if_neg small, if_neg (not_or_intro small unknown)]
      rcases lookup : member.session.getMegolm crypto messageIndex with ⟨session, found⟩
      rw [lookup] at kept
      have same : found = some (ratchetAt crypto first messageIndex.toNat) := by
        rw [← ahead known_le, lookup]
      have signer : session.signingKey = (crypto.ed25519.createKeypair seed).publicKey :=
        kept.trans follows.inStep.signingKey
      rw [same]
      dsimp only
      rw [signer, sessionKeyLayout, ratchetAt_counter zero, UInt32.ofNat_toNat]

theorem Follows.apply (call : InboundGroupSession.Call)
    (low : ∀ messageIndex, call.lookup crypto member.session = some messageIndex → messageIndex.toNat < 2 ^ 31) :
    InStep crypto (sharedAt crypto seed first known) (call.apply crypto member.session) :=
  follows.inStep.apply (follows.start_low zero) low

end Follows

/-! #### Calls -/

/-- Whatever is delivered, only the number of a message that was sent is looked for. -/
theorem Held.lookup_low (zero : first.counter = 0) (held : Held crypto seed first room)
    (complete : crypto.ed25519.Complete) (mem : member ∈ room.members) {stack : GroupMessageResults} {message : Bytes}
    {maxPlaintextLength : Nat} (unforged : room.Unforged crypto message) {messageIndex : UInt32}
    (request : (InboundGroupSession.Call.decrypt stack message maxPlaintextLength).lookup crypto member.session =
      some messageIndex) : messageIndex.toNat < 2 ^ 31 := by
  obtain ⟨known, follows⟩ := held.members member mem
  obtain ⟨signed, index⟩ := lookup_some request
  have key : member.session.signingKey = room.outbound.signingKey.publicKey := by
    rw [follows.inStep.signingKey, held.signingKey]
    rfl
  rw [key] at signed
  obtain ⟨sent, sent_mem, same⟩ := unforged signed
  obtain ⟨n, at_n⟩ := List.mem_iff_getElem?.mp sent_mem
  obtain ⟨raw, span, -, raw_eq, decoded, -⟩ := (held.sent n sent at_n).parsed complete
  have inside := (List.getElem?_eq_some_iff.mp at_n).1
  have low : n < 2 ^ 31 := inside.trans held.few
  rw [index, same, raw_eq, decoded]
  rw [toNat_ratchetAt_counter zero low]
  exact low

theorem Held.encrypt (perm : crypto.aes.Permutation) (held : Held crypto seed first room) (plaintext : Bytes)
    (message : Buffer) (few : room.sent.length + 1 < 2 ^ 31) :
    Held crypto seed first (room.encrypt crypto plaintext message.val) := by
  unfold GroupRoom.encrypt
  cases encrypt_eq perm room.outbound plaintext message with
  | inl failed =>
    rw [failed]
    exact { held with }
  | inr done =>
    obtain ⟨text, encrypted, genuine⟩ := done
    rw [encrypted]
    refine { held with ratchet := ?ratchet, few := ?few, sent := ?sent }
    case ratchet =>
      show Megolm.advance (megolmHash crypto) room.outbound.ratchet = _
      rw [held.ratchet, List.length_append, List.length_singleton, ratchetAt, ratchetAt, Function.iterate_succ_apply']
    case few =>
      rw [List.length_append, List.length_singleton]
      exact few
    case sent =>
      intro n sent at_n
      by_cases inside : n < room.sent.length
      · rw [List.getElem?_append_left inside] at at_n
        exact held.sent n sent at_n
      · rw [List.getElem?_append_right (Nat.le_of_not_lt inside)] at at_n
        obtain ⟨last, same⟩ := List.getElem?_eq_some_iff.mp at_n
        rw [List.length_singleton] at last
        have whole : n = room.sent.length := by omega
        subst whole
        simp only [Nat.sub_self, List.getElem_cons_zero] at same
        rw [← same, ← held.signingKey, ← held.ratchet]
        exact genuine

theorem Held.sessionKey (held : Held crypto seed first room) (keyLength : Nat) :
    Held crypto seed first (room.sessionKey crypto keyLength) := by
  unfold GroupRoom.sessionKey
  rcases done : room.outbound.sessionKey crypto keyLength with ⟨outbound, _ | key⟩
  · unfold OutboundGroupSession.sessionKey at done
    split at done
    · obtain ⟨rfl, -⟩ := Prod.mk.inj done
      exact { held with }
    · cases done
  · obtain ⟨rfl, written⟩ := sessionKey_eq done
    refine { held with keys := ?_ }
    intro other mem
    cases mem with
    | head =>
      refine ⟨room.sent.length, held.few, ?_⟩
      rw [written, held.signingKey, held.ratchet]
    | tail _ old => exact held.keys other old

theorem Held.join (held : Held crypto seed first room) {joined : Bool} {result : InboundGroupSession × Option Unit}
    (follows : ∀ session, result = (session, some ()) → ∃ known, Follows crypto seed first known ⟨session, joined, 0⟩) :
    Held crypto seed first (room.join joined result) := by
  obtain ⟨session, _ | done⟩ := result
  · exact held
  · refine { held with members := ?_ }
    intro member mem
    cases List.mem_append.mp mem with
    | inl old => exact held.members member old
    | inr new =>
      obtain rfl := List.mem_singleton.mp new
      exact follows session rfl

theorem Held.init (zero : first.counter = 0) (complete : crypto.ed25519.Complete) (held : Held crypto seed first room)
    {key : Bytes} (given : key ∈ room.keys) :
    Held crypto seed first (room.join true (clear.init crypto key)) := by
  apply held.join
  intro session done
  obtain ⟨known, low, written⟩ := held.keys key given
  have loaded := init_layout crypto clear (ratchetAt crypto first known) (crypto.ed25519.createKeypair seed).publicKey _
    (complete seed (sessionKeyLayout sessionKeyVersion (ratchetAt crypto first known)
      (crypto.ed25519.createKeypair seed).publicKey))
  dsimp only at written
  rw [written, loaded] at done
  obtain ⟨rfl, -⟩ := Prod.mk.inj done
  exact ⟨known, low, sharedAt_inStep zero low rfl rfl rfl, rfl⟩

theorem Held.importSession (zero : first.counter = 0) (held : Held crypto seed first room) {exported : Bytes}
    (given : exported ∈ room.exports) :
    Held crypto seed first (room.join false (clear.importSession crypto exported)) := by
  apply held.join
  intro session done
  obtain ⟨known, low, written⟩ := held.exports exported given
  rw [written, importSession_layout] at done
  obtain ⟨rfl, -⟩ := Prod.mk.inj done
  exact ⟨known, low, sharedAt_inStep zero low rfl rfl rfl, rfl⟩

theorem Held.set (held : Held crypto seed first room) (number : Nat)
    (follows : ∃ known, Follows crypto seed first known member) :
    Held crypto seed first { room with members := room.members.set number member } := by
  refine { held with members := ?_ }
  intro other mem
  cases List.mem_or_eq_of_mem_set mem with
  | inl old => exact held.members other old
  | inr new =>
    rw [new]
    exact follows

theorem Held.decrypt (zero : first.counter = 0) (complete : crypto.ed25519.Complete) (held : Held crypto seed first room)
    (number : Nat) (stack : GroupMessageResults) {message : Bytes} (maxPlaintextLength : Nat)
    (unforged : room.Unforged crypto message) :
    Held crypto seed first (room.decrypt crypto number stack message maxPlaintextLength) := by
  unfold GroupRoom.decrypt
  rcases found : room.members[number]? with _ | member
  · exact held
  · have mem := List.mem_of_getElem? found
    obtain ⟨known, follows⟩ := held.members member mem
    apply held.set number
    refine ⟨known, follows.low, follows.apply zero (.decrypt stack message maxPlaintextLength)
      (fun _ request => held.lookup_low zero complete mem unforged request), ?_⟩
    have opened := decrypt_verified crypto member.session stack message maxPlaintextLength
    dsimp only [isVerified]
    cases text : (member.session.decrypt crypto stack message maxPlaintextLength).plaintext with
    | none =>
      rw [decrypt_refused crypto text]
      exact follows.verified
    | some plaintext =>
      rw [text] at opened
      cases opened with
      | inl none => cases none
      | inr verified =>
        rw [verified]
        simp

theorem Held.exportSession (zero : first.counter = 0) (held : Held crypto seed first room) (number keyLength : Nat)
    {messageIndex : UInt32} (low : messageIndex.toNat < 2 ^ 31) :
    Held crypto seed first (room.exportSession crypto number keyLength messageIndex) := by
  unfold GroupRoom.exportSession
  rcases found : room.members[number]? with _ | member
  · exact held
  · obtain ⟨known, follows⟩ := held.members member (List.mem_of_getElem? found)
    have result := follows.exportSession zero low keyLength
    have inStep := follows.apply zero (.export keyLength messageIndex) (by
      intro requested request
      simp only [InboundGroupSession.Call.lookup] at request
      split at request
      · cases request
      · obtain rfl := Option.some.inj request
        exact low)
    have kept := exportSession_verified crypto member.session keyLength messageIndex
    dsimp only [InboundGroupSession.Call.apply] at inStep
    rcases done : member.session.exportSession crypto keyLength messageIndex with ⟨session, exported⟩
    rw [done] at result inStep kept
    have changed : Follows crypto seed first known { member with session } :=
      ⟨follows.low, inStep, kept.trans follows.verified⟩
    have held := held.set number ⟨known, changed⟩
    simp only [done]
    refine { held with exports := ?_ }
    intro other mem
    cases List.mem_append.mp mem with
    | inl new =>
      dsimp only at result
      rw [result] at new
      split at new
      · exact absurd new List.not_mem_nil
      · exact ⟨messageIndex.toNat, low, List.mem_singleton.mp new⟩
    | inr old => exact held.exports other old

theorem Held.reload (perm : crypto.aes.Permutation) (held : Held crypto seed first room) (number : Nat) (key : Bytes)
    (buffer : Memory Unit) : Held crypto seed first (room.reload crypto number key buffer) := by
  unfold GroupRoom.reload
  rcases found : room.members[number]? with _ | member
  · exact held
  · obtain ⟨known, follows⟩ := held.members member (List.mem_of_getElem? found)
    apply held.set number
    rw [InboundGroupSession.reload_eq perm]
    exact ⟨known, follows.low, ⟨⟨follows.inStep.cached.initial, follows.inStep.cached.near, follows.inStep.cached.latest⟩,
      follows.inStep.signingKey, follows.inStep.low⟩, follows.verified⟩

theorem Held.step (zero : first.counter = 0) (complete : crypto.ed25519.Complete) (perm : crypto.aes.Permutation)
    (held : Held crypto seed first room) {call : Call} (allowed : room.Allowed crypto call) :
    Held crypto seed first (room.step crypto call) := by
  cases call with
  | encrypt plaintext message => exact held.encrypt perm plaintext message allowed
  | sessionKey keyLength => exact held.sessionKey keyLength
  | reloadOutbound key buffer memory =>
    simp only [GroupRoom.step, OutboundGroupSession.reload_eq perm]
    exact { held with }
  | init sessionKey => exact held.init zero complete allowed
  | importSession exported => exact held.importSession zero allowed
  | decrypt number stack message maxPlaintextLength =>
    exact held.decrypt zero complete number stack maxPlaintextLength allowed
  | exportSession number keyLength messageIndex => exact held.exportSession zero number keyLength allowed
  | reload number key buffer => exact held.reload perm number key buffer

theorem Run.held (zero : first.counter = 0) (complete : crypto.ed25519.Complete) (perm : crypto.aes.Permutation)
    (held : Held crypto seed first room) {room' : GroupRoom} (run : Run crypto room room') : Held crypto seed first room' := by
  induction run with
  | refl => exact held
  | step call _ allowed ih => exact ih.step zero complete perm allowed

theorem start_held {outbound : OutboundGroupSession} (signingKey : outbound.signingKey = crypto.ed25519.createKeypair seed) :
    Held crypto seed outbound.ratchet (start outbound) where
  signingKey := signingKey
  ratchet := rfl
  few := Nat.two_pow_pos 31
  sent n sent at_n := by cases at_n
  keys key mem := absurd mem List.not_mem_nil
  exports exported mem := absurd mem List.not_mem_nil
  members member mem := absurd mem List.not_mem_nil

/-! #### What members read -/

section Genuine

variable {session : InboundGroupSession} {ratchet : Megolm (Block 32)} {plaintext message : Bytes}
  (complete : crypto.ed25519.Complete)
  (genuine : Genuine crypto (crypto.ed25519.createKeypair seed) ratchet plaintext message)
include complete genuine

theorem decryptMaxPlaintextLength_genuine (stack : GroupMessageResults) :
    (session.decryptMaxPlaintextLength crypto stack message).2 =
      some ((megolmCipher crypto).encryptCiphertextLength plaintext.length) := by
  obtain ⟨raw, span, length, raw_eq, decoded, -, span_length, -⟩ := genuine.parsed complete
  simp only [decryptMaxPlaintextLength, length, raw_eq, decryptMaxPlaintextLengthRaw, decoded, ne_eq, not_true_eq_false,
    if_false, span_length]
  rfl

theorem decrypt_small (signingKey : session.signingKey = (crypto.ed25519.createKeypair seed).publicKey)
    (stack : GroupMessageResults) {maxPlaintextLength : Nat}
    (small : maxPlaintextLength < (megolmCipher crypto).encryptCiphertextLength plaintext.length) :
    (session.decrypt crypto stack message maxPlaintextLength).plaintext = none := by
  obtain ⟨raw, span, length, raw_eq, decoded, verified, span_length, -⟩ := genuine.parsed complete
  have max (length : Nat) : (megolmCipher crypto).decryptMaxPlaintextLength length = length := rfl
  simp only [InboundGroupSession.decrypt, length, raw_eq, decryptRaw, decoded, signingKey, verified, span_length, max,
    if_pos small, ne_eq, not_true_eq_false, if_false]

end Genuine

theorem Follows.decrypt_sent (zero : first.counter = 0) (complete : crypto.ed25519.Complete)
    (follows : Follows crypto seed first known member) {n : Nat} (low : n < 2 ^ 31) {plaintext message : Bytes}
    (genuine : Genuine crypto (crypto.ed25519.createKeypair seed) (ratchetAt crypto first n) plaintext message)
    (stack : GroupMessageResults) {maxPlaintextLength : Nat}
    (room : (megolmCipher crypto).encryptCiphertextLength plaintext.length ≤ maxPlaintextLength) :
    let decrypted := member.session.decrypt crypto stack message maxPlaintextLength
    (known ≤ n → decrypted.plaintext = some plaintext ∧ decrypted.messageIndex = some (UInt32.ofNat n)) ∧
      (n < known → decrypted.plaintext = none ∧ decrypted.session.lastError = .unknownMessageIndex) := by
  intro decrypted
  have index := toNat_ofNat_low low
  have index_low : (UInt32.ofNat n).toNat < 2 ^ 31 := by
    rw [index]
    exact low
  obtain ⟨ahead, behind⟩ := follows.getMegolm zero index_low
  obtain ⟨opened, refused⟩ := decrypt_genuine complete genuine follows.inStep.signingKey stack room
  rw [ratchetAt_counter zero] at opened refused
  rw [index] at ahead behind
  constructor
  · intro le
    have done := opened _ (Prod.ext rfl (ahead le))
    exact ⟨congrArg Decrypted.plaintext done, congrArg Decrypted.messageIndex done⟩
  · intro lt
    have done := refused _ (behind lt)
    exact ⟨congrArg Decrypted.plaintext done, congrArg (fun decrypted => decrypted.session.lastError) done⟩

/-- What is decrypted was sent. -/
theorem Held.decrypt_authentic (zero : first.counter = 0) (complete : crypto.ed25519.Complete)
    (held : Held crypto seed first room) (mem : member ∈ room.members) {stack : GroupMessageResults}
    {message plaintext : Bytes} {maxPlaintextLength : Nat} (unforged : room.Unforged crypto message)
    (opened : (member.session.decrypt crypto stack message maxPlaintextLength).plaintext = some plaintext) :
    ∃ n sent, room.sent[n]? = some sent ∧ plaintext = sent.plaintext ∧
      (member.session.decrypt crypto stack message maxPlaintextLength).messageIndex = some (UInt32.ofNat n) := by
  obtain ⟨known, follows⟩ := held.members member mem
  have signed := decrypt_opened crypto opened
  have key : member.session.signingKey = room.outbound.signingKey.publicKey := by
    rw [follows.inStep.signingKey, held.signingKey]
    rfl
  rw [key] at signed
  obtain ⟨sent, sent_mem, same⟩ := unforged signed
  obtain ⟨n, at_n⟩ := List.mem_iff_getElem?.mp sent_mem
  have genuine := held.sent n sent at_n
  have low : n < 2 ^ 31 := (List.getElem?_eq_some_iff.mp at_n).1.trans held.few
  obtain ⟨raw, span, length, -⟩ := genuine.parsed complete
  have decodes : decodeBase64Length sent.message.length ≠ none := by
    rw [length]
    exact Option.some_ne_none _
  have congruent := decrypt_congr crypto member.session stack maxPlaintextLength (decrypt_decodes opened)
    decodes same
  rw [congruent] at opened ⊢
  by_cases small : maxPlaintextLength < (megolmCipher crypto).encryptCiphertextLength sent.plaintext.length
  · rw [decrypt_small complete genuine follows.inStep.signingKey stack small] at opened
    cases opened
  · obtain ⟨ahead, behind⟩ := follows.decrypt_sent zero complete low genuine stack (Nat.le_of_not_lt small)
    by_cases unknown : n < known
    · rw [(behind unknown).1] at opened
      cases opened
    · obtain ⟨text, index⟩ := ahead (Nat.le_of_not_lt unknown)
      rw [text] at opened
      exact ⟨n, sent, at_n, (Option.some.inj opened).symm, index⟩

/-- A member and the sender agree: on the session, on the messages that the member knows and on their numbers. What the
member exports it knows, and the import knows from there on. -/
structure Agrees (crypto : Crypto) (room : GroupRoom) (member : Member) : Prop where
  sameId : ∀ idLength, (member.session.sessionId idLength).2 = (room.outbound.sessionId idLength).2
  verified : member.session.isVerified = (member.joined || decide (0 < member.opened))
  decrypts : ∀ n sent, room.sent[n]? = some sent → ∀ stack maxPlaintextLength,
    (∀ length, (member.session.decryptMaxPlaintextLength crypto stack sent.message).2 = some length →
      length ≤ maxPlaintextLength) →
    let decrypted := member.session.decrypt crypto stack sent.message maxPlaintextLength
    (member.session.firstKnownIndex.toNat ≤ n →
        decrypted.plaintext = some sent.plaintext ∧ decrypted.messageIndex = some (UInt32.ofNat n)) ∧
      (n < member.session.firstKnownIndex.toNat →
        decrypted.plaintext = none ∧ decrypted.session.lastError = .unknownMessageIndex)
  authentic : ∀ stack message maxPlaintextLength plaintext, room.Unforged crypto message →
    let decrypted := member.session.decrypt crypto stack message maxPlaintextLength
    decrypted.plaintext = some plaintext → ∃ n sent, room.sent[n]? = some sent ∧ plaintext = sent.plaintext ∧
      decrypted.messageIndex = some (UInt32.ofNat n)
  exports : ∀ keyLength messageIndex, messageIndex.toNat < 2 ^ 31 → encodeBase64Length sessionExportRawLength ≤ keyLength →
    (member.session.firstKnownIndex ≤ messageIndex → ∃ exported copy,
        (member.session.exportSession crypto keyLength messageIndex).2 = some exported ∧
        clear.importSession crypto exported = (copy, some ()) ∧ copy.firstKnownIndex = messageIndex) ∧
      (messageIndex < member.session.firstKnownIndex →
        (member.session.exportSession crypto keyLength messageIndex).2 = none)

theorem Held.agrees (zero : first.counter = 0) (complete : crypto.ed25519.Complete)
    (held : Held crypto seed first room) (mem : member ∈ room.members) : Agrees crypto room member := by
  obtain ⟨known, follows⟩ := held.members member mem
  have index := follows.firstKnownIndex zero
  refine ⟨?sameId, follows.verified, ?decrypts, ?authentic, ?exports⟩
  case sameId =>
    intro idLength
    have key : member.session.signingKey = room.outbound.signingKey.publicKey := by
      rw [follows.inStep.signingKey, held.signingKey]
      rfl
    have length : InboundGroupSession.groupSessionIdLength = OutboundGroupSession.groupSessionIdLength := rfl
    simp only [InboundGroupSession.sessionId, OutboundGroupSession.sessionId, key, length]
    split
    · rfl
    · rfl
  case decrypts =>
    intro n sent at_n stack maxPlaintextLength enough
    have genuine := held.sent n sent at_n
    have low : n < 2 ^ 31 := (List.getElem?_eq_some_iff.mp at_n).1.trans held.few
    rw [index]
    exact follows.decrypt_sent zero complete low genuine stack
      (enough _ (decryptMaxPlaintextLength_genuine complete genuine stack))
  case authentic =>
    intro stack message maxPlaintextLength plaintext unforged decrypted opened
    exact held.decrypt_authentic zero complete mem unforged opened
  case exports =>
    intro keyLength messageIndex low enough
    have exported := follows.exportSession zero low keyLength
    constructor
    · intro le
      rw [UInt32.le_iff_toNat_le, index] at le
      rw [if_neg (not_or_intro (Nat.not_lt.mpr enough) (Nat.not_lt.mpr le))] at exported
      refine ⟨_, _, exported, importSession_layout crypto clear _ _, ?_⟩
      show (ratchetAt crypto first messageIndex.toNat).counter = messageIndex
      rw [ratchetAt_counter zero, UInt32.ofNat_toNat]
    · intro lt
      rw [UInt32.lt_iff_toNat_lt, index] at lt
      rw [exported, if_pos (.inr lt)]

/-- Whatever way a room goes, its members agree with the sender. -/
theorem members_agree (complete : crypto.ed25519.Complete) (perm : crypto.aes.Permutation)
    {memory outbound : OutboundGroupSession} {random : Bytes} (init : memory.init crypto random = (outbound, some ()))
    (run : Run crypto (start outbound) room) (mem : member ∈ room.members) : Agrees crypto room member := by
  obtain ⟨zero, seed, signingKey⟩ := init_eq init
  exact (run.held zero complete perm (start_held signingKey)).agrees zero complete mem

/-! ### A room with one member -/

def zeroSender : OutboundGroupSession := (zeroOutbound.init Crypto.plain (List.replicate 160 0)).1

def sharedRoom : GroupRoom := (start zeroSender).step Crypto.plain (.sessionKey 400)

def sharedKey : Bytes := sharedRoom.keys.headD []

def joinedRoom : GroupRoom := (sharedRoom.step Crypto.plain (.init sharedKey)).step Crypto.plain (.encrypt [7] zeroBuffer)

theorem members_agree_joined :
    joinedRoom.sent.length = 1 ∧ ∃ member ∈ joinedRoom.members, Agrees Crypto.plain joinedRoom member := by
  have init := init_of_enough Crypto.plain zeroOutbound (List.replicate 160 0)
    (by rw [List.length_replicate]; decide)
  have given : sharedKey ∈ sharedRoom.keys ∧ (sharedRoom.step Crypto.plain (.init sharedKey)).sent.length + 1 < 2 ^ 31 ∧
      joinedRoom.sent.length = 1 ∧ joinedRoom.members.length = 1 := by
    decide +kernel
  obtain ⟨key, few, sent, members⟩ := given
  have run : Run Crypto.plain (start zeroSender) joinedRoom :=
    .step _ (.step _ (.step (.sessionKey 400) .refl trivial) key) few
  obtain ⟨member, whole⟩ := List.length_eq_one_iff.mp members
  have mem : member ∈ joinedRoom.members := by
    rw [whole]
    exact List.mem_singleton_self _
  exact ⟨sent, member, mem, members_agree Crypto.plain_complete Crypto.plain_permutation init run mem⟩

end GroupRoom

end RubyOlm
