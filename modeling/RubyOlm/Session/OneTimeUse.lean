import RubyOlm.Account.KeyStore
import RubyOlm.Session.Conversation

/-!
# What one-time keys are used for

A device makes one-time keys, takes them out of its account with the sessions that it makes from pre-key messages, and
pickles and unpickles the account in between. Next to the account there are the keys that it has made and the sessions
that it has accepted.
-/

namespace RubyOlm

namespace Account

/-- `olm_remove_one_time_keys` -/
def removeOneTimeKeys (account : Account) (session : Session (Block 32)) : Account × Option UInt32 :=
  match account.removeKey session.bobOneTimeKey with
  | (account, none) => ({ account with lastError := .badMessageKeyId }, none)
  | (account, some id) => (account, some id)

/-- `olm_pickle_account` into `buffer`, and `olm_unpickle_account` of it to another object. -/
def reload (crypto : Crypto) (account : Account) (key : Bytes) (buffer : Memory Unit) (memory : Account) :
    Account × Option Nat :=
  let length := pickleLength crypto account
  let pickled := pickleAt crypto key ⟨(), 0⟩ length account buffer
  (unpickleAt crypto key ⟨(), 0⟩ length (new memory) pickled.memory).value

end Account

/-- `olm_create_inbound_session`, or `olm_create_inbound_session_from` with an identity key. -/
def Session.createInbound (crypto : Crypto) (stack : Stack) (session : Session (Block 32)) (account : Account)
    (theirIdentityKey : Option Bytes) (oneTimeKeyMessage : Bytes) : Option (Session (Block 32) × Option Unit) :=
  let ops := olmRatchet crypto stack.reader
  match theirIdentityKey with
  | none => session.createInboundSession ops stack.preKeyReader account oneTimeKeyMessage
  | some key => session.createInboundSessionFrom ops stack.preKeyReader account key oneTimeKeyMessage

/-- It was made here, and the account does not have it any more. -/
def KeyStore.Spent (store : KeyStore) (publicKey : PublicKey) : Prop :=
  publicKey ∈ store.made ∧ ∀ key ∈ store.keys, key.key.publicKey ≠ publicKey

structure Device where
  account : Account
  store : KeyStore
  accepted : List (Session (Block 32))

namespace Device

inductive Call where
  | generate (numberOfKeys : Nat) (random : Bytes)
  | markAsPublished
  | reload (key : Bytes) (buffer : Memory Unit) (memory : Account)
  | accept (stack : Stack) (memory : Session (Block 32)) (theirIdentityKey : Option Bytes) (message : Bytes)
  | remove (session : Session (Block 32))

variable (crypto : Crypto)

def start (account : Account) : Device := ⟨account, ⟨[], []⟩, []⟩

/-- An operation of the key store, with more tests of the loop's condition than there are numbers of keys. One that is
refused makes no key. -/
def operate (device : Device) (op : KeyStore.Op) : Device :=
  match device.account.call crypto (2 ^ 32) op with
  | none => device
  | some (account, .count none) => { device with account }
  | some (account, _) => { device with account, store := (device.store.call crypto op).1 }

def remove (device : Device) (session : Session (Block 32)) : Device :=
  { device with
    account := (device.account.removeOneTimeKeys session).1
    store := (device.store.call crypto (.remove session.bobOneTimeKey)).1 }

/-- The key of a session that was made from a message goes out of the account with it. -/
def accept (device : Device) (stack : Stack) (memory : Session (Block 32)) (theirIdentityKey : Option Bytes)
    (message : Bytes) : Device :=
  match (Session.new memory).createInbound crypto stack device.account theirIdentityKey message with
  | some (session, some ()) => { device.remove crypto session with accepted := session :: device.accepted }
  | _ => device

def step (device : Device) : Call → Device
  | .generate numberOfKeys random => device.operate crypto (.generate numberOfKeys random)
  | .markAsPublished => device.operate crypto .markAsPublished
  | .reload key buffer memory => { device with account := (device.account.reload crypto key buffer memory).1 }
  | .accept stack memory theirIdentityKey message => device.accept crypto stack memory theirIdentityKey message
  | .remove session => device.remove crypto session

/-- New keys differ from each other and from all before them, if there are random bytes for them at all. -/
def Allowed (device : Device) : Call → Prop
  | .generate numberOfKeys random =>
    random.length < Account.generateOneTimeKeysRandomLength numberOfKeys ∨
      device.store.Admits crypto (.generate numberOfKeys random)
  | _ => True

inductive Run (device : Device) : Device → Prop
  | refl : Run device device
  | step {device' : Device} (call : Call) (run : Run device device') (allowed : device'.Allowed crypto call) :
    Run device (device'.step crypto call)

/-- What holds throughout the life of a device. -/
structure Held (device : Device) : Prop where
  refines : device.account.Refines device.store
  ok : device.store.Ok
  keyed : device.account.Keyed crypto.curve25519
  spent : ∀ session ∈ device.accepted, device.store.Spent session.bobOneTimeKey
  distinct : (device.accepted.map Session.bobOneTimeKey).Nodup

end Device

/-! ### Spent keys -/

namespace KeyStore

variable {crypto : Crypto} {store : KeyStore} {publicKey : PublicKey}

theorem mem_putAll {pairs : List Curve25519KeyPair} :
    (∀ key ∈ (pairs.foldl put store).keys, key ∈ store.keys ∨ key.key ∈ pairs) ∧
      (pairs.foldl put store).made = (pairs.map Curve25519KeyPair.publicKey).reverse ++ store.made := by
  induction pairs generalizing store with
  | nil => exact ⟨fun _ mem => .inl mem, rfl⟩
  | cons pair pairs ih =>
    obtain ⟨kept, made⟩ := @ih (store.put pair)
    constructor
    · intro key mem
      cases kept key mem with
      | inr later => exact .inr (List.mem_cons_of_mem _ later)
      | inl here =>
        cases List.mem_cons.mp (List.mem_of_mem_take here) with
        | inl new =>
          rw [new]
          exact .inr List.mem_cons_self
        | inr old => exact .inl old
    · rw [List.foldl_cons, made, List.map_cons, List.reverse_cons, List.append_assoc]
      rfl

/-- What is spent stays spent. -/
theorem Spent.call (spent : store.Spent publicKey) {op : Op} (admits : store.Admits crypto op) :
    (store.call crypto op).1.Spent publicKey := by
  obtain ⟨made, gone⟩ := spent
  cases op with
  | generate numberOfKeys random =>
    obtain ⟨-, -, -, new⟩ := admits
    obtain ⟨kept, all⟩ := @mem_putAll store (newKeys crypto.curve25519 numberOfKeys random)
    refine ⟨?_, ?_⟩
    · simp only [KeyStore.call, all]
      exact List.mem_append_right _ made
    · intro key mem same
      cases kept key mem with
      | inl old => exact gone key old same
      | inr fresh =>
        have listed : publicKey ∈ ((newKeys crypto.curve25519 numberOfKeys random).map Curve25519KeyPair.publicKey).reverse := by
          rw [List.mem_reverse, ← same]
          exact List.mem_map_of_mem fresh
        exact List.disjoint_of_nodup_append new listed made
  | markAsPublished =>
    refine ⟨made, ?_⟩
    intro key mem
    obtain ⟨old, listed, rfl⟩ := List.mem_map.mp mem
    exact gone old listed
  | remove other => exact ⟨made, fun key mem => gone key (List.mem_of_mem_filter mem)⟩
  | lookup other => exact ⟨made, gone⟩

variable (crypto) in
theorem spent_removed (made : publicKey ∈ store.made) : (store.call crypto (.remove publicKey)).1.Spent publicKey := by
  refine ⟨made, ?_⟩
  intro key mem
  exact of_decide_eq_true (List.mem_filter.mp mem).2

end KeyStore

/-! ### Calls of an account -/

namespace Account

variable {crypto : Crypto} {account : Account}

theorem reload_restored (perm : crypto.aes.Permutation) (account : Account) (key : Bytes) (buffer : Memory Unit)
    (memory : Account) : account.Restored (account.reload crypto key buffer memory).1 := by
  have fresh : (new memory).oneTimeKeys.toList = [] := OlmList.toList_new _
  have trips : Pickle.RoundTrips (B := Unit) (pickleLength crypto) (pickleAt crypto) (unpickleAt crypto) (new memory)
      Restored := Pickle.roundTrips_codec perm codec_restores _ fresh _ _ _
  obtain ⟨restored, read, same⟩ := trips.reads account key ⟨(), 0⟩ buffer
  have reloaded : account.reload crypto key buffer memory = (restored, some (pickleLength crypto account)) := read
  rw [reloaded]
  exact same

theorem removeOneTimeKeys_keys (account : Account) (session : Session (Block 32)) :
    let removed := (account.removeKey session.bobOneTimeKey).1
    let account := (account.removeOneTimeKeys session).1
    account.identityKeys = removed.identityKeys ∧ account.oneTimeKeys = removed.oneTimeKeys ∧
      account.nextOneTimeKeyId = removed.nextOneTimeKeyId := by
  unfold removeOneTimeKeys
  rcases account.removeKey session.bobOneTimeKey with ⟨removed, _ | id⟩
  · exact ⟨rfl, rfl, rfl⟩
  · exact ⟨rfl, rfl, rfl⟩

theorem call_keyed (keyed : account.Keyed crypto.curve25519) {fuel : Nat} {op : KeyStore.Op} {account' : Account}
    {answer : KeyStore.Answer} (called : account.call crypto fuel op = some (account', answer)) :
    account'.Keyed crypto.curve25519 := by
  cases op with
  | generate numberOfKeys random =>
    obtain ⟨⟨after, result⟩, done, same⟩ := Option.map_eq_some_iff.mp called
    obtain ⟨rfl, -⟩ := Prod.mk.inj same
    unfold generateOneTimeKeys at done
    split at done
    · obtain ⟨rfl, -⟩ := Prod.mk.inj (Option.some.inj done)
      exact ⟨keyed.identity, keyed.oneTime⟩
    · obtain ⟨looped, ran, same⟩ := Option.map_eq_some_iff.mp done
      obtain ⟨rfl, -⟩ := Prod.mk.inj same
      exact keyed.generateLoop ran
  | markAsPublished =>
    obtain ⟨rfl, -⟩ := Prod.mk.inj (Option.some.inj called)
    exact keyed.markKeysAsPublished
  | remove publicKey =>
    obtain ⟨rfl, -⟩ := Prod.mk.inj (Option.some.inj called)
    exact keyed.removeKey publicKey
  | lookup publicKey =>
    obtain ⟨rfl, -⟩ := Prod.mk.inj (Option.some.inj called)
    exact keyed

theorem lookupKey_some {publicKey : PublicKey} {key : OneTimeKey} (found : account.lookupKey publicKey = some key) :
    key ∈ account.oneTimeKeys.toList ∧ key.key.publicKey = publicKey := by
  unfold lookupKey at found
  have same := List.find?_some found
  exact ⟨List.mem_of_find?_eq_some found, of_decide_eq_true same⟩

theorem lookupKey_none {publicKey : PublicKey} (gone : ∀ key ∈ account.oneTimeKeys.toList, key.key.publicKey ≠ publicKey) :
    account.lookupKey publicKey = none := by
  rw [lookupKey, List.find?_eq_none]
  intro key mem
  simpa using gone key mem

end Account

namespace Session

variable {crypto : Crypto} {ops : RatchetOps (Block 32) Bytes}

/-- A session is made with a key that the account has. -/
theorem newInboundSession_found {stack : PreKeyMessageReader} {memory session : Session (Block 32)} {account : Account}
    {theirIdentityKey : Option PublicKey} {message : Bytes}
    (made : memory.newInboundSession ops stack account theirIdentityKey message = some (session, some ())) :
    ∃ key ∈ account.oneTimeKeys.toList, key.key.publicKey = session.bobOneTimeKey := by
  unfold newInboundSession at made
  dsimp only at made
  split at made
  · cases made
  split at made
  · cases made
  split at made
  · have made := Option.some.inj made
    unfold receiveRatchetKey at made
    split at made
    · cases made
    split at made
    · cases made
    split at made
    · cases made
    · rename_i found
      obtain ⟨rfl, -⟩ := Prod.mk.inj made
      exact ⟨_, Account.lookupKey_some found⟩
  · cases made

theorem createInbound_found {stack : Stack} {memory session : Session (Block 32)} {account : Account}
    {theirIdentityKey : Option Bytes} {message : Bytes}
    (made : memory.createInbound crypto stack account theirIdentityKey message = some (session, some ())) :
    ∃ key ∈ account.oneTimeKeys.toList, key.key.publicKey = session.bobOneTimeKey := by
  cases theirIdentityKey with
  | none =>
    simp only [createInbound, createInboundSession] at made
    split at made
    · cases made
    · exact newInboundSession_found made
  | some key =>
    simp only [createInbound, createInboundSessionFrom] at made
    split at made
    · cases made
    · split at made
      · cases made
      · exact newInboundSession_found made

end Session

/-! ### What holds of a device -/

namespace Device

variable {crypto : Crypto} {device device' : Device}

theorem operate_admitted (held : device.Held crypto) {op : KeyStore.Op} (admits : device.store.Admits crypto op) :
    ∃ account answer, device.account.call crypto (2 ^ 32) op = some (account, answer) ∧
      account.Refines (device.store.call crypto op).1 ∧
      device.operate crypto op = { device with account, store := (device.store.call crypto op).1 } := by
  obtain ⟨account, called, refines⟩ := held.refines.call held.ok (Nat.le_refl _) admits
  refine ⟨account, _, called, refines, ?_⟩
  unfold Device.operate
  rw [called]
  cases op with
  | generate numberOfKeys random => rfl
  | markAsPublished => rfl
  | remove publicKey => rfl
  | lookup publicKey => rfl

theorem operate_refused {numberOfKeys : Nat} {random : Bytes}
    (short : random.length < Account.generateOneTimeKeysRandomLength numberOfKeys) :
    device.operate crypto (.generate numberOfKeys random) =
      { device with account := { device.account with lastError := .notEnoughRandom } } := by
  unfold Device.operate
  rw [Account.call, Account.generateOneTimeKeys, if_pos short]
  rfl

theorem Held.operate (held : device.Held crypto) {op : KeyStore.Op} (admits : device.store.Admits crypto op) :
    (device.operate crypto op).Held crypto := by
  obtain ⟨account, answer, called, refines, operated⟩ := operate_admitted held admits
  rw [operated]
  exact
    { refines
      ok := held.ok.call admits
      keyed := Account.call_keyed held.keyed called
      spent := fun session mem => (held.spent session mem).call admits
      distinct := held.distinct }

theorem Held.generate (held : device.Held crypto) {numberOfKeys : Nat} {random : Bytes}
    (allowed : device.Allowed crypto (.generate numberOfKeys random)) :
    (device.operate crypto (.generate numberOfKeys random)).Held crypto := by
  obtain short | admits := allowed
  · rw [operate_refused short]
    exact
      { refines := ⟨held.refines.keys, held.refines.next⟩
        ok := held.ok
        keyed := ⟨held.keyed.identity, held.keyed.oneTime⟩
        spent := held.spent
        distinct := held.distinct }
  · exact held.operate admits

theorem Held.remove (held : device.Held crypto) (session : Session (Block 32)) :
    (device.remove crypto session).Held crypto := by
  obtain ⟨refines, -⟩ := held.refines.removeKey held.ok session.bobOneTimeKey
  obtain ⟨identity, keys, next⟩ := device.account.removeOneTimeKeys_keys session
  have keyed := held.keyed.removeKey session.bobOneTimeKey
  have admits : device.store.Admits crypto (.remove session.bobOneTimeKey) := trivial
  exact
    { refines := ⟨(congrArg OlmList.toList keys).trans refines.keys, next.trans refines.next⟩
      ok := held.ok.call admits
      keyed :=
        { identity := by
            show (device.account.removeOneTimeKeys session).1.identityKeys.curve25519Key.Generated crypto.curve25519
            rw [identity]
            exact keyed.identity
          oneTime := by
            show ∀ key ∈ (device.account.removeOneTimeKeys session).1.oneTimeKeys.toList, _
            rw [keys]
            exact keyed.oneTime }
      spent := fun other mem => (held.spent other mem).call admits
      distinct := held.distinct }

theorem Held.accept (held : device.Held crypto) (stack : Stack) (memory : Session (Block 32))
    (theirIdentityKey : Option Bytes) (message : Bytes) :
    (device.accept crypto stack memory theirIdentityKey message).Held crypto := by
  unfold Device.accept
  split
  · rename_i session made
    obtain ⟨key, mem, same⟩ := Session.createInbound_found made
    rw [held.refines.keys] at mem
    have was_made : session.bobOneTimeKey ∈ device.store.made := by
      rw [← same]
      exact held.ok.listed.subset (List.mem_map_of_mem mem)
    have removed := held.remove session
    refine { removed with spent := ?spent, distinct := ?distinct }
    case spent =>
      intro other listed
      cases listed with
      | head => exact KeyStore.spent_removed crypto was_made
      | tail _ old => exact removed.spent other old
    case distinct =>
      refine List.nodup_cons.mpr ⟨?_, held.distinct⟩
      intro again
      obtain ⟨other, old, same_key⟩ := List.mem_map.mp again
      exact (held.spent other old).2 key mem (same.trans same_key.symm)
  · exact held

theorem Held.reload (perm : crypto.aes.Permutation) (held : device.Held crypto) (key : Bytes) (buffer : Memory Unit)
    (memory : Account) : Held crypto { device with account := (device.account.reload crypto key buffer memory).1 } := by
  obtain ⟨identity, keys, next⟩ := Account.reload_restored perm device.account key buffer memory
  exact
    { refines := ⟨keys.trans held.refines.keys, next.trans held.refines.next⟩
      ok := held.ok
      keyed :=
        { identity := by
            rw [identity]
            exact held.keyed.identity
          oneTime := by
            rw [keys]
            exact held.keyed.oneTime }
      spent := held.spent
      distinct := held.distinct }

theorem Held.step (perm : crypto.aes.Permutation) (held : device.Held crypto) {call : Call}
    (allowed : device.Allowed crypto call) : (device.step crypto call).Held crypto := by
  cases call with
  | generate numberOfKeys random => exact held.generate allowed
  | markAsPublished => exact held.operate (show device.store.Admits crypto .markAsPublished from trivial)
  | reload key buffer memory => exact held.reload perm key buffer memory
  | accept stack memory theirIdentityKey message => exact held.accept stack memory theirIdentityKey message
  | remove session => exact held.remove session

theorem Run.held (perm : crypto.aes.Permutation) (held : device.Held crypto) (run : Run crypto device device') :
    device'.Held crypto := by
  induction run with
  | refl => exact held
  | step call _ allowed ih => exact ih.step perm allowed

theorem start_held {memory account : Account} {random : Bytes}
    (created : (Account.new memory).newAccount crypto random = (account, some ())) : (start account).Held crypto where
  refines := Account.newAccount_refines created
  ok := ⟨Nat.two_pow_pos 32, List.nodup_nil, List.nil_sublist _, fun _ mem => absurd mem List.not_mem_nil, .nil⟩
  keyed := Account.newAccount_keyed created
  spent _ mem := absurd mem List.not_mem_nil
  distinct := List.nodup_nil

/-! ### Later -/

theorem step_spent (held : device.Held crypto) {publicKey : PublicKey} (spent : device.store.Spent publicKey)
    {call : Call} (allowed : device.Allowed crypto call) : (device.step crypto call).store.Spent publicKey := by
  have operated {op : KeyStore.Op} (admits : device.store.Admits crypto op) :
      (device.operate crypto op).store.Spent publicKey := by
    obtain ⟨account, answer, -, -, operated⟩ := operate_admitted held admits
    rw [operated]
    exact spent.call admits
  have removed (session : Session (Block 32)) : (device.remove crypto session).store.Spent publicKey := by
    have admits : device.store.Admits crypto (.remove session.bobOneTimeKey) := trivial
    exact spent.call admits
  cases call with
  | generate numberOfKeys random =>
    obtain short | admits := allowed
    · rw [Device.step, operate_refused short]
      exact spent
    · exact operated admits
  | markAsPublished => exact operated (show device.store.Admits crypto .markAsPublished from trivial)
  | reload key buffer memory => exact spent
  | accept stack memory theirIdentityKey message =>
    simp only [Device.step, Device.accept]
    split
    · exact removed _
    · exact spent
  | remove session => exact removed session

theorem Run.spent (perm : crypto.aes.Permutation) (held : device.Held crypto) {publicKey : PublicKey}
    (spent : device.store.Spent publicKey) (run : Run crypto device device') : device'.store.Spent publicKey := by
  induction run with
  | refl => exact spent
  | step call before allowed ih => exact step_spent (before.held perm held) ih allowed

/-! ### First messages -/

open Session

variable (crypto) in
/-- What comes of a pre-key message is decided by its keys. -/
theorem createInbound_preKeyMessage {session : Session (Block 32)} {body : Bytes}
    (short : (session.preKeyMessage body).length < 2 ^ 64) (stack : Stack) (memory : Session (Block 32)) (account : Account)
    {theirs : Option PublicKey} (same : ∀ key ∈ theirs, key = session.aliceIdentityKey) :
    memory.createInbound crypto stack account (theirs.map fun key => encodeBase64 key.val)
        (encodeBase64 (session.preKeyMessage body)) =
      some ({ memory with
        aliceIdentityKey := session.aliceIdentityKey
        aliceBaseKey := session.aliceBaseKey
        bobOneTimeKey := session.bobOneTimeKey }.receiveRatchetKey (olmRatchet crypto stack.reader) account body) := by
  have made := newInboundSession_preKeyMessage short stack.preKeyReader memory (olmRatchet crypto stack.reader) account same
  cases theirs with
  | none =>
    simp only [createInbound, Option.map_none, createInboundSession, b64Input_encodeBase64]
    exact made
  | some key =>
    simp only [createInbound, Option.map_some, createInboundSessionFrom, b64Key_encodeBase64, b64Input_encodeBase64]
    exact made

theorem receiveRatchetKey_spent {ops : RatchetOps (Block 32) Bytes} {session : Session (Block 32)} {account : Account}
    {body ratchetKey : Bytes} (read : (ops.wire.read body).ratchetKey = some ratchetKey) (length : ratchetKey.length = 32)
    (gone : account.lookupKey session.bobOneTimeKey = none) :
    session.receiveRatchetKey ops account body = ({ session with lastError := .badMessageKeyId }, none) := by
  unfold receiveRatchetKey
  rw [read]
  simp only [length, ne_eq, not_true_eq_false, if_false, gone]

theorem createInbound_spent {session : Session (Block 32)} {body : Bytes}
    (short : (session.preKeyMessage body).length < 2 ^ 64) (stack : Stack) (memory : Session (Block 32)) {account : Account}
    {theirs : Option PublicKey} (same : ∀ key ∈ theirs, key = session.aliceIdentityKey) {ratchetKey : Block 32}
    (read : ((olmRatchet crypto stack.reader).wire.read body).ratchetKey = some ratchetKey.val)
    (gone : account.lookupKey session.bobOneTimeKey = none) :
    ∃ refused, memory.createInbound crypto stack account (theirs.map fun key => encodeBase64 key.val)
        (encodeBase64 (session.preKeyMessage body)) = some (refused, none) ∧ refused.lastError = .badMessageKeyId := by
  rw [createInbound_preKeyMessage crypto short stack memory account same]
  exact ⟨_, congrArg some (receiveRatchetKey_spent read (Block.length_val _) gone), rfl⟩

theorem read_firstBody (perm : crypto.aes.Permutation) (reader : MessageReader) {secret : Bytes}
    {pair : Curve25519KeyPair} {position : Nat} {plaintext : Bytes}
    (short : (firstBody crypto Conversation.noReader secret pair position plaintext).length < 2 ^ 64) :
    ((olmRatchet crypto reader).wire.read (firstBody crypto Conversation.noReader secret pair position plaintext)).ratchetKey =
      some pair.publicKey.val := by
  have carries := (Conversation.sentAt_reader Conversation.noReader reader _ _ _).mp (sentAt_firstBody short)
  obtain ⟨key, -⟩ := World.read_sentAt (Wire.olm_correct perm reader) carries
  exact key

/-- Every key that the account has is good for one session, whose first messages are accepted once; no message that names
a key which is spent makes a session again. -/
theorem first_message_once (commutes : Commutes crypto.curve25519) (perm : crypto.aes.Permutation)
    {memory account : Account} {random : Bytes}
    (created : (Account.new memory).newAccount crypto random = (account, some ())) (run : Run crypto (start account) device) :
    (device.accepted.map Session.bobOneTimeKey).Nodup ∧
    (∀ session ∈ device.accepted, session.bobOneTimeKey ∈ device.store.made) ∧
    ∀ a : Account, a.Keyed crypto.curve25519 → ∀ oneTimeKey ∈ device.account.oneTimeKeys.toList,
      ∀ (random : Block 64) (memory memory' : Session (Block 32)) (calls : List (Bytes × Bytes × Buffer)),
        let ops := Conversation.ops crypto
        let identityKey := a.identityKeys.curve25519Key.publicKey
        ∃ first,
          (Session.new memory).createOutboundSession ops a
            (encodeBase64 device.account.identityKeys.curve25519Key.publicKey.val)
            (encodeBase64 oneTimeKey.key.publicKey.val) random.val = (first, some ()) ∧
          ∀ sent ∈ (first.encryptAll ops calls).2, ∀ (stack : Stack) (theirs : Option PublicKey), (∀ key ∈ theirs, key = identityKey) →
            let device' := device.step crypto
              (.accept stack memory' (theirs.map fun key => encodeBase64 key.val) sent.message)
            (∃ session, device'.accepted = session :: device.accepted ∧ ∀ idLength,
              (session.olmSessionId crypto.sha256 idLength).2 = (first.olmSessionId crypto.sha256 idLength).2) ∧
            ∀ device'', Run crypto device' device'' → ∀ again ∈ (first.encryptAll ops calls).2,
              ∀ (stack : Stack) (memory : Session (Block 32)) (theirs : Option PublicKey),
                (∀ key ∈ theirs, key = identityKey) →
                ∃ refused, (Session.new memory).createInbound crypto stack device''.account
                    (theirs.map fun key => encodeBase64 key.val) again.message = some (refused, none) ∧
                  refused.lastError = .badMessageKeyId := by
  have held := run.held perm (start_held created)
  refine ⟨held.distinct, fun session mem => (held.spent session mem).1, ?_⟩
  intro a keyed_a oneTimeKey listed random memory memory' calls ops identityKey
  obtain ⟨first, outbound, opens, -⟩ := createOutboundSession_begins crypto memory a
    device.account.identityKeys.curve25519Key.publicKey oneTimeKey.key.publicKey random
  generalize generateKey crypto.curve25519 (Block.load 32 random.val) = base at opens
  generalize generateKey crypto.curve25519 (Block.load 32 (random.val.drop 32)) = pair at opens
  obtain ⟨secret, hsecret⟩ : ∃ secret, openingSecret crypto a base
    device.account.identityKeys.curve25519Key.publicKey oneTimeKey.key.publicKey = secret := ⟨_, rfl⟩
  have unanswered := opens.unanswered
  rw [hsecret] at unanswered
  obtain ⟨-, sent_first⟩ := unanswered.encryptAll_sent calls
  refine ⟨first, outbound Conversation.noReader, ?_⟩
  have parts {one : Sent} (mem : one ∈ (first.encryptAll ops calls).2) : ∃ body : Bytes,
      one.message = encodeBase64 (first.preKeyMessage body) ∧ (first.preKeyMessage body).length < 2 ^ 64 ∧
        ∀ reader, ((olmRatchet crypto reader).wire.read body).ratchetKey = some pair.publicKey.val := by
    obtain ⟨i, at_i⟩ := List.mem_iff_getElem?.mp mem
    obtain ⟨message, short⟩ := sent_first i one at_i
    refine ⟨_, message, short, fun reader => read_firstBody perm reader ?_⟩
    unfold preKeyMessage at short
    rw [List.length_append] at short
    omega
  have sender {theirs : Option PublicKey} (same : ∀ key ∈ theirs, key = identityKey) :
      ∀ key ∈ theirs, key = first.aliceIdentityKey := by
    intro key mem
    rw [opens.aliceIdentityKey]
    exact same key mem
  intro sent mem stack theirs same device'
  obtain ⟨body, message, short, read⟩ := parts mem
  have answers := receiveRatchetKey_answers keyed_a held.keyed listed commutes opens memory' hsecret (read stack.reader)
  have made : (Session.new memory').createInbound crypto stack device.account
      (theirs.map fun key => encodeBase64 key.val) sent.message =
        some (answering crypto Conversation.noReader secret pair memory' first, some ()) := by
    rw [message, createInbound_preKeyMessage crypto short stack _ _ (sender same), answers]
  have accepted : device'.accepted = answering crypto Conversation.noReader secret pair memory' first :: device.accepted := by
    simp only [device', Device.step, Device.accept, made]
  refine ⟨⟨_, accepted, fun idLength => olmSessionId_eq (answering_sameKeys memory') _ _⟩, ?_⟩
  intro device'' later again again_mem stack' memory'' theirs' same'
  obtain ⟨other, other_message, other_short, other_read⟩ := parts again_mem
  have held' : device'.Held crypto := held.accept stack memory' _ sent.message
  have spent := held'.spent _ (accepted ▸ List.mem_cons_self)
  have spent' := later.spent perm held' spent
  have gone : device''.account.lookupKey first.bobOneTimeKey = none := by
    apply Account.lookupKey_none
    rw [(later.held perm held').refines.keys]
    exact spent'.2
  rw [other_message]
  exact createInbound_spent other_short stack' (Session.new memory'') (sender same') (other_read stack'.reader) gone

/-! ### A device with one key -/

def steadyDevice : Device := (start steadyIdentity).step steadyCrypto (.generate 1 (List.replicate 32 3))

theorem first_message_once_steady :
    ∃ first sent,
      (Session.new clearSession).createOutboundSession steadyOps steadyAlice
        (encodeBase64 steadyBob.identityKeys.curve25519Key.publicKey.val) (encodeBase64 steadyOneTimeKey.key.publicKey.val)
        (List.replicate 64 4) = (first, some ()) ∧
      (first.encryptAll steadyOps [([104], [], wideBuffer)]).2 = [sent] ∧
      let device := steadyDevice.step steadyCrypto (.accept ⟨Conversation.noReader, clearReader⟩ clearSession none sent.message)
      (∃ session, device.accepted = [session]) ∧
      ∃ refused, (Session.new clearSession).createInbound steadyCrypto ⟨Conversation.noReader, clearReader⟩ device.account
        none sent.message = some (refused, none) ∧ refused.lastError = .badMessageKeyId := by
  have created : (Account.new clearAccount).newAccount steadyCrypto (List.replicate 64 2) = (steadyIdentity, some ()) := rfl
  have admits : (start steadyIdentity).Allowed steadyCrypto (.generate 1 (List.replicate 32 3)) :=
    .inr ⟨by decide, by decide, by decide, by decide⟩
  have run : Run steadyCrypto (start steadyIdentity) steadyDevice := .step _ .refl admits
  have account : steadyDevice.account = steadyBob := rfl
  obtain ⟨-, -, once⟩ := first_message_once steady_commutes steady_permutation created run
  rw [account] at once
  obtain ⟨first, outbound, accepted⟩ := once steadyAlice steadyAlice_made.keyed steadyOneTimeKey steadyOneTimeKey_held
    ⟨List.replicate 64 4, rfl⟩ clearSession clearSession [([104], [], wideBuffer)]
  have outbound : (Session.new clearSession).createOutboundSession steadyOps steadyAlice
      (encodeBase64 steadyBob.identityKeys.curve25519Key.publicKey.val) (encodeBase64 steadyOneTimeKey.key.publicKey.val)
      (List.replicate 64 4) = (first, some ()) := outbound
  have count : (((Session.new clearSession).createOutboundSession steadyOps steadyAlice
      (encodeBase64 steadyBob.identityKeys.curve25519Key.publicKey.val) (encodeBase64 steadyOneTimeKey.key.publicKey.val)
      (List.replicate 64 4)).1.encryptAll steadyOps [([104], [], wideBuffer)]).2.length = 1 := by
    decide +kernel
  rw [outbound] at count
  obtain ⟨sent, whole⟩ := List.length_eq_one_iff.mp count
  have mem : sent ∈ (first.encryptAll steadyOps [([104], [], wideBuffer)]).2 := by
    rw [whole]
    exact List.mem_singleton_self _
  obtain ⟨⟨session, listed, -⟩, refused⟩ := accepted sent mem ⟨Conversation.noReader, clearReader⟩ none
    (fun _ none => absurd none (Option.not_mem_none _))
  exact ⟨first, sent, outbound, whole, ⟨session, listed⟩, refused _ .refl sent mem ⟨Conversation.noReader, clearReader⟩
    clearSession none (fun _ none => absurd none (Option.not_mem_none _))⟩

end Device

end RubyOlm
