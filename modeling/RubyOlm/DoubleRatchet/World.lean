import RubyOlm.DoubleRatchet.Ratchet
import RubyOlm.Theory.Exchange

/-!
# Two ratchets and the messages between them

Alice and Bob encrypt and decrypt in any order. A message that was sent may be delivered to either of them
at any time, any number of times or never. Next to its ratchet each end has a record of what has happened
to it, which no call looks at.
-/

namespace RubyOlm

namespace Ratchet

variable {Key : Type}

/-- The keys that a ratchet holds, in entries before the end of its lists. -/
inductive Live (ratchet : Ratchet Key) : Key → Prop
  | root : Live ratchet ratchet.rootKey
  | sender {chain : SenderChain Key} (mem : chain ∈ ratchet.senderChain.toList) : Live ratchet chain.chainKey.key
  | receiver {chain : ReceiverChain Key} (mem : chain ∈ ratchet.receiverChains.toList) :
      Live ratchet chain.chainKey.key
  | skipped {key : SkippedMessageKey Key} (mem : key ∈ ratchet.skippedMessageKeys.toList) :
      Live ratchet key.messageKey.key

def senderKeys (ratchet : Ratchet Key) : List PublicKey :=
  ratchet.senderChain.toList.map fun chain => chain.ratchetKey.publicKey

def receiverKeys (ratchet : Ratchet Key) : List PublicKey :=
  ratchet.receiverChains.toList.map ReceiverChain.ratchetKey

/-- The messages whose keys `decrypt` puts into the skipped list when it opens a message with this ratchet
key and counter, last one first. -/
def passedOver (ratchet : Ratchet Key) (ratchetKey : PublicKey) (counter : UInt32) : List (PublicKey × UInt32) :=
  let index :=
    match findChain ratchetKey ratchet.receiverChains.toList with
    | none => 0
    | some (_, chain) => chain.chainKey.index
  (List.range (counter.toNat - index.toNat)).reverse.map fun distance =>
    (ratchetKey, index + UInt32.ofNat distance)

end Ratchet

structure Endpoint (Key Msg : Type) where
  ratchet : Ratchet Key
  /-- The messages it has decrypted. -/
  opened : List Msg
  /-- The ratchet keys it has sent under. -/
  sentUnder : List PublicKey
  /-- The ratchet keys it has had a receiver chain for. -/
  seen : List PublicKey
  /-- The messages whose keys it has put into its skipped list, newest first. -/
  passed : List (PublicKey × UInt32)

structure SentMessage (Msg : Type) where
  sender : Side
  message : Msg
  plaintext : Bytes

structure World (Key Msg : Type) where
  endpoint : Side → Endpoint Key Msg
  sent : List (SentMessage Msg)

inductive Event (Msg : Type) where
  | encrypt (side : Side) (plaintext random : Bytes) (output : Buffer)
  | decrypt (side : Side) (message : Msg) (maxPlaintextLength : Nat)

def Endpoint.start {Key : Type} (Msg : Type) (ratchet : Ratchet Key) : Endpoint Key Msg where
  ratchet
  opened := []
  sentUnder := ratchet.senderKeys
  seen := ratchet.receiverKeys
  passed := []

/-- An end can still read what was sent with this ratchet key and counter: it keeps the chain and, if it is
past the counter, has put fewer than `maxSkippedMessageKeys` keys into its skipped list since; or it has never
had a chain with the ratchet key. -/
inductive Endpoint.CanRead {Key Msg : Type} (endpoint : Endpoint Key Msg) (ratchetKey : PublicKey)
    (counter : UInt32) : Prop
  | known {chain : ReceiverChain Key} (mem : chain ∈ endpoint.ratchet.receiverChains.toList)
      (same : chain.ratchetKey = ratchetKey)
      (near : counter.toNat ≤ chain.chainKey.index.toNat + maxMessageGap)
      (kept : counter < chain.chainKey.index → ∀ newer older,
        endpoint.passed = newer ++ (ratchetKey, counter) :: older → newer.length < maxSkippedMessageKeys)
  | unseen (new : ratchetKey ∉ endpoint.seen) (near : counter.toNat ≤ maxMessageGap)

namespace World

variable {Key Msg : Type} (ops : RatchetOps Key Msg)

/-- Alice is initialised with a key pair and Bob with its public key, over any memory. -/
def start (memory : Side → Ratchet Key) (secret : Bytes) (pair : Curve25519KeyPair) : World Key Msg where
  endpoint
    | .alice => .start Msg ((Ratchet.new (memory .alice)).initialiseAsAlice ops secret pair)
    | .bob => .start Msg ((Ratchet.new (memory .bob)).initialiseAsBob ops secret pair.publicKey)
  sent := []

def set (world : World Key Msg) (side : Side) (endpoint : Endpoint Key Msg) : World Key Msg :=
  { world with endpoint := fun other => if other = side then endpoint else world.endpoint other }

def encrypt (world : World Key Msg) (side : Side) (plaintext random output : Bytes) : World Key Msg :=
  let endpoint := world.endpoint side
  match endpoint.ratchet.encrypt ops plaintext random output with
  | (ratchet, none) => world.set side { endpoint with ratchet }
  | (ratchet, some message) =>
    { world.set side { endpoint with ratchet, sentUnder := ratchet.senderKeys ++ endpoint.sentUnder } with
      sent := ⟨side, message, plaintext⟩ :: world.sent }

def decrypt (world : World Key Msg) (side : Side) (message : Msg) (maxPlaintextLength : Nat) : World Key Msg :=
  let endpoint := world.endpoint side
  match endpoint.ratchet.decrypt ops message maxPlaintextLength with
  | (ratchet, none) => world.set side { endpoint with ratchet }
  | (ratchet, some _) =>
    let reader := ops.wire.read message
    let ratchetKey := Block.load 32 (reader.ratchetKey.getD [])
    world.set side
      { endpoint with
        ratchet
        opened := message :: endpoint.opened
        seen := ratchet.receiverKeys ++ endpoint.seen
        passed := endpoint.ratchet.passedOver ratchetKey reader.counter.value ++ endpoint.passed }

def step (world : World Key Msg) : Event Msg → World Key Msg
  | .encrypt side plaintext random output => world.encrypt ops side plaintext random output.val
  | .decrypt side message maxPlaintextLength => world.decrypt ops side message maxPlaintextLength

def Genuine (world : World Key Msg) : Event Msg → Prop
  | .encrypt _ _ _ _ => True
  | .decrypt _ message _ => ∃ s ∈ world.sent, s.message = message

/-- The random bytes for a new chain give a ratchet key that this end has not sent under, and there are fewer
than `2 ^ 32` messages on a chain. -/
def Orderly (world : World Key Msg) : Event Msg → Prop
  | .encrypt side _ random _ =>
    let endpoint := world.endpoint side
    if endpoint.ratchet.senderChain.empty then
      (generateKey ops.curve25519 (Block.load 32 random)).publicKey ∉ endpoint.sentUnder
    else endpoint.ratchet.sender.chainKey.index.toNat + 1 < 2 ^ 32
  | .decrypt _ _ _ => True

inductive Run (allowed : World Key Msg → Event Msg → Prop) (world : World Key Msg) : World Key Msg → Prop
  | refl : Run allowed world world
  | step {world' : World Key Msg} (event : Event Msg) (run : Run allowed world world')
      (genuine : world'.Genuine event) (admitted : allowed world' event) :
      Run allowed world (world'.step ops event)

def Reachable (allowed : World Key Msg → Event Msg → Prop) (secret : Bytes) (pair : Curve25519KeyPair)
    (world : World Key Msg) : Prop :=
  ∃ memory, Run ops allowed (start ops memory secret pair) world

/-! ### One end at a time -/

variable {world : World Key Msg}

@[simp] theorem set_endpoint_self (side : Side) (endpoint : Endpoint Key Msg) :
    (world.set side endpoint).endpoint side = endpoint := if_pos rfl

theorem set_endpoint_of_ne {side other : Side} (endpoint : Endpoint Key Msg) (different : other ≠ side) :
    (world.set side endpoint).endpoint other = world.endpoint other := if_neg different

@[simp] theorem set_sent (side : Side) (endpoint : Endpoint Key Msg) :
    (world.set side endpoint).sent = world.sent := rfl

theorem opened_subset_step (world : World Key Msg) (event : Event Msg) (side : Side) :
    (world.endpoint side).opened ⊆ ((world.step ops event).endpoint side).opened := by
  have kept {other : Side} {endpoint : Endpoint Key Msg} (more : (world.endpoint other).opened ⊆ endpoint.opened) :
      (world.endpoint side).opened ⊆ ((world.set other endpoint).endpoint side).opened := by
    by_cases same : side = other
    · subst same
      rw [set_endpoint_self]
      exact more
    · rw [set_endpoint_of_ne _ same]
      exact List.Subset.refl _
  cases event with
  | encrypt other plaintext random output =>
    simp only [step, encrypt]
    split
    · exact kept (List.Subset.refl _)
    · exact kept (List.Subset.refl _)
  | decrypt other message maxPlaintextLength =>
    simp only [step, decrypt]
    split
    · exact kept (List.Subset.refl _)
    · exact kept (List.subset_cons_self _ _)

variable {ops}

theorem Run.opened_subset {allowed : World Key Msg → Event Msg → Prop} {world' : World Key Msg}
    (run : Run ops allowed world world') (side : Side) :
    (world.endpoint side).opened ⊆ (world'.endpoint side).opened := by
  induction run with
  | refl => exact List.Subset.refl _
  | step event _ _ _ ih => exact List.Subset.trans ih (opened_subset_step ops _ event side)

theorem Run.trans {allowed : World Key Msg → Event Msg → Prop} {world' world'' : World Key Msg}
    (run : Run ops allowed world world') (run' : Run ops allowed world' world'') : Run ops allowed world world'' := by
  induction run' with
  | refl => exact run
  | step event _ genuine admitted ih => exact .step event ih genuine admitted

end World

end RubyOlm
