import RubyOlm.Buffers.PickleEncoding
import RubyOlm.Pickle.Objects

/-!
# Pickling in buffers

The functions `olm_pickle_…` and `olm_unpickle_…` over pointers. Readers of accounts, sessions and decryption objects
are given one byte more than the body has and have to leave it, so that an error can be told from the end.
-/

namespace RubyOlm

open Prog

variable {B : Type} [DecidableEq B]

namespace Pickle

variable {α : Type} (crypto : Crypto)

/-- `olm_pickle_…`, for an object that is written as `raw`; `tooSmall` is the object after that error, and `none` is
`size_t(-1)`. -/
def pickleAt (object tooSmall : α) (rawLength : Nat) (raw key : Bytes) (pickled : Pointer B) (pickledLength : Nat) :
    Prog B (α × Option Nat) :=
  if pickledLength < encOutputLength crypto rawLength then pure (tooSmall, none)
  else do
    storeBytes (encOutputPos crypto pickled rawLength) raw
    let length ← encOutputAt crypto key pickled rawLength
    return (object, some length)

/-- `olm_unpickle_…` for a reader with a codec. The body is looked at up to the byte behind it. -/
def unpickleAt (codec : Codec UInt8 α) (lastError : α → OlmErrorCode) (setError : α → OlmErrorCode → α) (object : α)
    (key : Bytes) (pickled : Pointer B) (pickledLength : Nat) : Prog B (α × Option Nat) := do
  match ← encInputAt crypto key pickled pickledLength with
  | .error error => return (setError object error, none)
  | .ok rawLength =>
    let body ← loadBytes pickled (rawLength + 1)
    let (rest, object) := codec.read body object
    if rest.length = 1 then return (object, some pickledLength)
    else if lastError object = .success then return (setError object .corruptedPickle, none)
    else return (object, none)

/-- `olm_unpickle_…` of group sessions, whose bodies are read to their end. -/
def unpickleGroupAt (unpickleBody : Bytes → α × Option Unit) (failed : OlmErrorCode → α) (key : Bytes)
    (pickled : Pointer B) (pickledLength : Nat) : Prog B (α × Option Nat) := do
  match ← encInputAt crypto key pickled pickledLength with
  | .error error => return (failed error, none)
  | .ok rawLength =>
    let body ← loadBytes pickled rawLength
    let (session, result) := unpickleBody body
    return (session, result.map fun _ => pickledLength)

end Pickle

/-! ### The functions for each object -/

variable (crypto : Crypto) (key : Bytes) (pickled : Pointer B) (pickledLength : Nat)

def Account.pickleLength (account : Account) : Nat := encOutputLength crypto (codec.length account)

def Account.pickleAt (account : Account) : Prog B (Account × Option Nat) :=
  Pickle.pickleAt crypto account { account with lastError := .outputBufferTooSmall } (codec.length account)
    (codec.write account) key pickled pickledLength

def Account.unpickleAt (account : Account) : Prog B (Account × Option Nat) :=
  Pickle.unpickleAt crypto codec Account.lastError (fun account error => { account with lastError := error }) account
    key pickled pickledLength

def Session.pickleLength (session : Session (Block 32)) : Nat := encOutputLength crypto (codec.length session)

def Session.pickleAt (session : Session (Block 32)) : Prog B (Session (Block 32) × Option Nat) :=
  Pickle.pickleAt crypto session { session with lastError := .outputBufferTooSmall } (codec.length session)
    (codec.write session) key pickled pickledLength

def Session.unpickleAt (session : Session (Block 32)) : Prog B (Session (Block 32) × Option Nat) :=
  Pickle.unpickleAt crypto codec Session.lastError (fun session error => { session with lastError := error }) session
    key pickled pickledLength

def InboundGroupSession.pickleLength (session : InboundGroupSession) : Nat :=
  encOutputLength crypto session.rawPickleLength

def InboundGroupSession.pickleAt (session : InboundGroupSession) : Prog B (InboundGroupSession × Option Nat) :=
  Pickle.pickleAt crypto session { session with lastError := .outputBufferTooSmall } session.rawPickleLength
    session.pickleBody key pickled pickledLength

def InboundGroupSession.unpickleAt (session : InboundGroupSession) : Prog B (InboundGroupSession × Option Nat) :=
  Pickle.unpickleGroupAt crypto session.unpickleBody (fun error => { session with lastError := error }) key pickled
    pickledLength

def OutboundGroupSession.pickleLength (session : OutboundGroupSession) : Nat :=
  encOutputLength crypto session.rawPickleLength

def OutboundGroupSession.pickleAt (session : OutboundGroupSession) : Prog B (OutboundGroupSession × Option Nat) :=
  Pickle.pickleAt crypto session { session with lastError := .outputBufferTooSmall } session.rawPickleLength
    session.pickleBody key pickled pickledLength

def OutboundGroupSession.unpickleAt (session : OutboundGroupSession) : Prog B (OutboundGroupSession × Option Nat) :=
  Pickle.unpickleGroupAt crypto session.unpickleBody (fun error => { session with lastError := error }) key pickled
    pickledLength

def PkDecryption.pickleLength (decryption : PkDecryption) : Nat := encOutputLength crypto (codec.length decryption)

def PkDecryption.pickleAt (decryption : PkDecryption) : Prog B (PkDecryption × Option Nat) :=
  Pickle.pickleAt crypto decryption { decryption with lastError := .outputBufferTooSmall } (codec.length decryption)
    (codec.write decryption) key pickled pickledLength

/-- `olm_unpickle_pk_decryption`, with a buffer for the public key and its length, if one is wanted. -/
def PkDecryption.unpickleAt (pubkey : Option (Pointer B × Nat)) (decryption : PkDecryption) :
    Prog B (PkDecryption × Option Nat) :=
  if pubkey.any fun (_, pubkeyLength) => pubkeyLength < pkKeyLength then
    pure ({ decryption with lastError := .outputBufferTooSmall }, none)
  else do
    let (decryption, result) ← Pickle.unpickleAt crypto codec PkDecryption.lastError
      (fun decryption error => { decryption with lastError := error }) decryption key pickled pickledLength
    match result, pubkey with
    | some length, some (pubkey, _) =>
      storeBytes pubkey (encodeBase64 decryption.keyPair.publicKey.val)
      return (decryption, some length)
    | result, _ => return (decryption, result)

/-! ### Round trips -/

namespace Pickle

variable {α : Type} {crypto}

theorem pickleAt_within (object tooSmall : α) {rawLength : Nat} {raw : Bytes} (length : raw.length = rawLength)
    {P : Access B → Prop} (memory : Memory B) :
    (pickleAt crypto object tooSmall rawLength raw key pickled (encOutputLength crypto rawLength)).Within memory P ↔
      Covers P .read (encOutputPos crypto pickled rawLength) (sealedLength crypto rawLength) ∧
        Covers P .write pickled (encOutputLength crypto rawLength) := by
  have longer := le_sealedLength crypto rawLength
  have base64 : sealedLength crypto rawLength ≤ encOutputLength crypto rawLength := le_encodeBase64Length _
  have fits : encOutputLength crypto rawLength - sealedLength crypto rawLength + raw.length ≤
      encOutputLength crypto rawLength := by
    rw [length]
    omega
  rw [pickleAt, if_neg (Nat.lt_irrefl _), within_bind, within_bind, within_storeBytes, encOutputAt_within]
  simp only [within_pure, and_true]
  constructor
  · exact And.right
  · rintro ⟨read, write⟩
    refine ⟨?_, read, write⟩
    rw [encOutputPos_eq]
    exact write.sub fits

/-- The buffer is filled, with the text of the body, and nothing else is written to. -/
theorem pickleAt_eq (object tooSmall : α) {rawLength : Nat} {raw : Bytes} (length : raw.length = rawLength)
    (memory : Memory B) :
    let written := pickleAt crypto object tooSmall rawLength raw key pickled (encOutputLength crypto rawLength) memory
    written.value = (object, some (encOutputLength crypto rawLength)) ∧
      written.memory.read pickled (encOutputLength crypto rawLength) = encOutput crypto key raw := by
  subst length
  have holds := Memory.read_write memory (encOutputPos crypto pickled raw.length) raw
  obtain ⟨value, left⟩ := encOutputAt_eq key raw pickled _ holds
  dsimp only
  rw [pickleAt, if_neg (Nat.lt_irrefl _), value_bind, value_bind, memory_bind, memory_bind, memory_storeBytes, value,
    left]
  exact ⟨rfl, Memory.read_write_of_length _ _ _ (length_encOutput crypto key raw)⟩

theorem pickleAt_writes (object tooSmall : α) {rawLength : Nat} {raw : Bytes} (length : raw.length = rawLength)
    (memory : Memory B) :
    (pickleAt crypto object tooSmall rawLength raw key pickled (encOutputLength crypto rawLength)).Writes memory pickled
      (encOutputLength crypto rawLength) := by
  apply writes_of_within fun P => pickleAt_within key pickled object tooSmall length memory
  intro P allowed i _
  exact allowed _

theorem unpickleAt_encOutput (perm : crypto.aes.Permutation) {codec : Codec UInt8 α} {Fresh : α → Prop}
    {Same : α → α → Prop} (restores : codec.Restores Fresh Same) {old : α} (fresh : Fresh old) (value : α)
    (lastError : α → OlmErrorCode) (setError : α → OlmErrorCode → α) {memory : Memory B}
    (holds : memory.read pickled (encOutputLength crypto (codec.length value)) =
      encOutput crypto key (codec.write value)) :
    ∃ restored, (unpickleAt crypto codec lastError setError old key pickled
        (encOutputLength crypto (codec.length value)) memory).value =
      (restored, some (encOutputLength crypto (codec.length value))) ∧ Same value restored := by
  rw [← restores.length_write] at holds ⊢
  obtain ⟨opened, left⟩ := encInputAt_encOutput perm key (codec.write value) pickled memory holds
  obtain ⟨after, hafter⟩ : ∃ after, (encInputAt crypto key pickled
      (encOutputLength crypto (codec.write value).length) memory).memory = after := ⟨_, rfl⟩
  rw [hafter] at left
  -- the reader leaves the byte behind the body, whatever it is
  obtain ⟨restored, read, same⟩ :=
    restores.read_write fresh value [after (pickled + (codec.write value).length)]
  have body : after.read pickled ((codec.write value).length + 1) =
      codec.write value ++ [after (pickled + (codec.write value).length)] := by
    rw [Memory.read_add, left, Memory.read_one]
  refine ⟨restored, ?_, same⟩
  rw [unpickleAt, value_bind, opened, hafter]
  simp only [value_bind, value_loadBytes, body, read, List.length_singleton, if_true, run_pure]

/-- A group session is unpickled from what `_olm_enc_input` makes of the text. -/
theorem unpickleGroupAt_eq (unpickleBody : Bytes → α × Option Unit) (failed : OlmErrorCode → α) (memory : Memory B) :
    (unpickleGroupAt crypto unpickleBody failed key pickled pickledLength memory).value =
      match encInput (surrounded crypto pickled pickledLength memory) key (memory.read pickled pickledLength) with
      | .error error => (failed error, none)
      | .ok body => ((unpickleBody body).1, (unpickleBody body).2.map fun _ => pickledLength) := by
  obtain ⟨value, left⟩ := @encInputAt_eq B _ crypto key pickled pickledLength memory
  rw [unpickleGroupAt, value_bind, value]
  cases opened : encInput (surrounded crypto pickled pickledLength memory) key (memory.read pickled pickledLength) with
  | error error => rfl
  | ok body => simp only [Except.map, value_bind, value_loadBytes, left body opened, run_pure]

/-- Pickling fills a buffer of the announced length and writes to nothing else, and where the same bytes lie, wherever
that is, they are unpickled into the fresh object `old`. -/
def RoundTrips (pickleLength : α → Nat) (pickle unpickle : (key : Bytes) → (pickled : Pointer B) →
    (pickledLength : Nat) → α → Prog B (α × Option Nat)) (old : α) (Restored : α → α → Prop) : Prop :=
  ∀ (object : α) (key : Bytes) (pickled : Pointer B) (memory : Memory B),
    let written := pickle key pickled (pickleLength object) object memory
    written.value = (object, some (pickleLength object)) ∧
    (pickle key pickled (pickleLength object) object).Writes memory pickled (pickleLength object) ∧
    ∀ (pickled' : Pointer B) (memory' : Memory B),
      memory'.read pickled' (pickleLength object) = written.memory.read pickled (pickleLength object) →
      ∃ restored, (unpickle key pickled' (pickleLength object) old memory').value =
        (restored, some (pickleLength object)) ∧ Restored object restored

omit [DecidableEq B] in
theorem RoundTrips.reads {pickleLength : α → Nat} {pickle unpickle : (key : Bytes) → (pickled : Pointer B) →
    (pickledLength : Nat) → α → Prog B (α × Option Nat)} {old : α} {Restored : α → α → Prop}
    (trips : RoundTrips pickleLength pickle unpickle old Restored) (object : α) (key : Bytes) (pickled : Pointer B)
    (memory : Memory B) :
    ∃ restored, (unpickle key pickled (pickleLength object) old
        (pickle key pickled (pickleLength object) object memory).memory).value =
      (restored, some (pickleLength object)) ∧ Restored object restored :=
  (trips object key pickled memory).2.2 pickled _ rfl

theorem roundTrips_codec (perm : crypto.aes.Permutation) {codec : Codec UInt8 α} {Fresh : α → Prop}
    {Same : α → α → Prop} (restores : codec.Restores Fresh Same) (old : α) (fresh : Fresh old) (tooSmall : α → α)
    (lastError : α → OlmErrorCode) (setError : α → OlmErrorCode → α) :
    RoundTrips (B := B) (fun object => encOutputLength crypto (codec.length object))
      (fun key pickled pickledLength object => pickleAt crypto object (tooSmall object) (codec.length object)
        (codec.write object) key pickled pickledLength)
      (fun key pickled pickledLength object => unpickleAt crypto codec lastError setError object key pickled
        pickledLength) old Same := by
  intro object key pickled memory
  have length := restores.length_write object
  obtain ⟨value, text⟩ := pickleAt_eq key pickled object (tooSmall object) length memory
  refine ⟨value, pickleAt_writes key pickled _ _ length memory, ?_⟩
  intro pickled' memory' same
  exact unpickleAt_encOutput key pickled' perm restores fresh object lastError setError (same.trans text)

theorem roundTrips_group (perm : crypto.aes.Permutation) {rawLength : α → Nat} {raw : α → Bytes} {old : α}
    {unpickleBody : α → Bytes → α × Option Unit} {kept : α → α}
    (length : ∀ object, (raw object).length = rawLength object)
    (reads : ∀ object, unpickleBody old (raw object) = (kept object, some ())) (tooSmall : α → α)
    (failed : α → OlmErrorCode → α) :
    RoundTrips (B := B) (fun object => encOutputLength crypto (rawLength object))
      (fun key pickled pickledLength object => pickleAt crypto object (tooSmall object) (rawLength object) (raw object)
        key pickled pickledLength)
      (fun key pickled pickledLength object => unpickleGroupAt crypto (unpickleBody object) (failed object) key pickled
        pickledLength) old (fun value restored => restored = kept value) := by
  intro object key pickled memory
  obtain ⟨value, text⟩ := pickleAt_eq key pickled object (tooSmall object) (length object) memory
  refine ⟨value, pickleAt_writes key pickled _ _ (length object) memory, ?_⟩
  intro pickled' memory' same
  have holds : memory'.read pickled' (encOutputLength crypto (rawLength object)) = encOutput crypto key (raw object) :=
    same.trans text
  have opened := encInput_surrounded perm key (raw object) pickled' (encOutputLength crypto (rawLength object)) memory'
  rw [← holds] at opened
  refine ⟨kept object, ?_, rfl⟩
  dsimp only
  rw [unpickleGroupAt_eq, opened]
  dsimp only
  rw [reads object]
  rfl

end Pickle

theorem InboundGroupSession.unpickleAt_eq (session : InboundGroupSession) (memory : Memory B) :
    (session.unpickleAt crypto key pickled pickledLength memory).value =
      session.unpickle (surrounded crypto pickled pickledLength memory) key (memory.read pickled pickledLength) := by
  rw [unpickle, Memory.length_read]
  exact Pickle.unpickleGroupAt_eq key pickled pickledLength session.unpickleBody _ memory

theorem OutboundGroupSession.unpickleAt_eq (session : OutboundGroupSession) (memory : Memory B) :
    (session.unpickleAt crypto key pickled pickledLength memory).value =
      session.unpickle (surrounded crypto pickled pickledLength memory) key (memory.read pickled pickledLength) := by
  rw [unpickle, Memory.length_read]
  exact Pickle.unpickleGroupAt_eq key pickled pickledLength session.unpickleBody _ memory

theorem PkDecryption.unpickleAt_long {pubkey : Option (Pointer B × Nat)}
    (long : ∀ p pubkeyLength, pubkey = some (p, pubkeyLength) → pkKeyLength ≤ pubkeyLength)
    (decryption : PkDecryption) (memory : Memory B) :
    (unpickleAt crypto key pickled pickledLength pubkey decryption memory).value =
      (Pickle.unpickleAt crypto codec PkDecryption.lastError
        (fun decryption error => { decryption with lastError := error }) decryption key pickled pickledLength
        memory).value := by
  have room : ¬ (pubkey.any fun (_, pubkeyLength) => pubkeyLength < pkKeyLength) = true := by
    cases pubkey with
    | none => exact Bool.false_ne_true
    | some buffer =>
      have := long buffer.1 buffer.2 rfl
      rw [Option.any_some, decide_eq_true_iff]
      omega
  rw [unpickleAt, if_neg room, value_bind]
  obtain ⟨read, result⟩ := (Pickle.unpickleAt crypto codec PkDecryption.lastError
        (fun decryption error => { decryption with lastError := error }) decryption key pickled pickledLength
        memory).value
  cases result <;> cases pubkey <;> rfl

/-- Every object that can be pickled comes back from its pickle as it was, but for the last error. -/
theorem pickle_round_trip (perm : crypto.aes.Permutation) :
    (∀ memory : Account, Pickle.RoundTrips (B := B) (Account.pickleLength crypto) (Account.pickleAt crypto)
      (Account.unpickleAt crypto) (Account.new memory) Account.Restored) ∧
    (∀ memory : Session (Block 32), Pickle.RoundTrips (B := B) (Session.pickleLength crypto) (Session.pickleAt crypto)
      (Session.unpickleAt crypto) (Session.new memory) Session.Restored) ∧
    Pickle.RoundTrips (B := B) (InboundGroupSession.pickleLength crypto) (InboundGroupSession.pickleAt crypto)
      (InboundGroupSession.unpickleAt crypto) InboundGroupSession.clear
      (fun value restored => restored = { value with lastError := .success }) ∧
    (∀ memory : OutboundGroupSession, Pickle.RoundTrips (B := B) (OutboundGroupSession.pickleLength crypto)
      (OutboundGroupSession.pickleAt crypto) (OutboundGroupSession.unpickleAt crypto) memory
      (fun value restored => restored = { value with lastError := memory.lastError })) ∧
    ∀ (memory : PkDecryption) (pubkey : Option (Pointer B × Nat)),
      (∀ p pubkeyLength, pubkey = some (p, pubkeyLength) → pkKeyLength ≤ pubkeyLength) →
      Pickle.RoundTrips (PkDecryption.pickleLength crypto) (PkDecryption.pickleAt crypto)
        (fun key pickled pickledLength => PkDecryption.unpickleAt crypto key pickled pickledLength pubkey) memory
        (fun value restored => restored.keyPair = value.keyPair) := by
  refine ⟨?account, ?session, ?inbound, ?outbound, ?pkDecryption⟩
  case account =>
    intro memory
    have fresh : (Account.new memory).oneTimeKeys.toList = [] := OlmList.toList_new _
    exact Pickle.roundTrips_codec perm Account.codec_restores _ fresh _ _ _
  case session =>
    intro memory
    have fresh : (Session.new memory).ratchet.Fresh :=
      ⟨OlmList.toList_new _, OlmList.toList_new _, OlmList.toList_new _⟩
    exact Pickle.roundTrips_codec perm Session.codec_restores _ fresh _ _ _
  case inbound =>
    exact Pickle.roundTrips_group perm InboundGroupSession.length_pickleBody
      (InboundGroupSession.unpickleBody_pickleBody InboundGroupSession.clear) _
      (fun session error => { session with lastError := error })
  case outbound =>
    intro memory
    exact Pickle.roundTrips_group perm OutboundGroupSession.length_pickleBody
      (OutboundGroupSession.unpickleBody_pickleBody memory) _ (fun session error => { session with lastError := error })
  case pkDecryption =>
    intro memory pubkey long object key pickled before
    have trip := Pickle.roundTrips_codec (B := B) perm PkDecryption.codec_restores memory trivial
      (fun decryption => { decryption with lastError := .outputBufferTooSmall }) PkDecryption.lastError
      (fun decryption error => { decryption with lastError := error }) object key pickled before
    obtain ⟨value, writes, reads⟩ := trip
    refine ⟨value, writes, ?_⟩
    intro pickled' memory' same
    rw [PkDecryption.unpickleAt_long crypto key pickled' _ long]
    exact reads pickled' memory' same

theorem pickle_round_trip_plain :
    Pickle.RoundTrips (B := Unit) (Account.pickleLength Crypto.plain) (Account.pickleAt Crypto.plain)
      (Account.unpickleAt Crypto.plain) (Account.new clearAccount) Account.Restored ∧
    Pickle.RoundTrips (B := Unit) (PkDecryption.pickleLength Crypto.plain) (PkDecryption.pickleAt Crypto.plain)
      (fun key pickled pickledLength => PkDecryption.unpickleAt Crypto.plain key pickled pickledLength none)
      PkDecryption.zeroDecryption (fun value restored => restored.keyPair = value.keyPair) := by
  obtain ⟨account, -, -, -, pkDecryption⟩ := @pickle_round_trip Unit _ Crypto.plain Crypto.plain_permutation
  exact ⟨account clearAccount, pkDecryption PkDecryption.zeroDecryption none (fun _ _ impossible => nomatch impossible)⟩

end RubyOlm
