import RubyOlm.Group.Agreement
import RubyOlm.Group.Unpickle

/-!
# What a verified key rests on

An inbound session counts as verified once a signed key share was loaded or a message decrypted. The flag is
never taken back, while the signing key is replaced by every key that is loaded: also by an export, which is
not signed, and by a key share before its signature turns out to be bad.
-/

namespace RubyOlm

/-- What an inbound session has accepted: a signed key share, or a message that it has decrypted. -/
inductive Evidence where
  | keyShare (raw : Bytes)
  | message (raw : Bytes)

/-- `signingKey` verifies the signature at the end of a message. -/
def messageSigned (crypto : Crypto) (raw : Bytes) (signingKey : Block 32) : Bool :=
  crypto.ed25519.verify (Block.load 64 (raw.drop (raw.length - signatureLength)))
    (raw.take (raw.length - signatureLength)) signingKey

def Evidence.VerifiedBy (crypto : Crypto) (signingKey : Block 32) : Evidence → Prop
  | .keyShare raw => InboundGroupSession.keySigned crypto raw signingKey
  | .message raw => messageSigned crypto raw signingKey

def Vouched (crypto : Crypto) (accepted : List Evidence) (signingKey : Block 32) : Prop :=
  ∃ evidence ∈ accepted, evidence.VerifiedBy crypto signingKey

theorem Vouched.mono {crypto : Crypto} {accepted more : List Evidence} {signingKey : Block 32}
    (vouched : Vouched crypto accepted signingKey) (subset : accepted ⊆ more) : Vouched crypto more signingKey := by
  obtain ⟨evidence, mem, verified⟩ := vouched
  exact ⟨evidence, subset mem, verified⟩

namespace InboundGroupSession

/-- A session and what it has accepted, which no call looks at. -/
structure Observed where
  session : InboundGroupSession
  accepted : List Evidence

/-- A call that may write the signing key or the flag. A pickle comes with what the session in it had accepted. -/
inductive Action where
  | init (sessionKey : Bytes)
  | importSession (sessionKey : Bytes)
  | unpickle (key pickled : Bytes) (accepted : List Evidence)
  | decrypt (stack : GroupMessageResults) (message : Bytes) (maxPlaintextLength : Nat)

variable (crypto : Crypto)

def Observed.act (observed : Observed) : Action → Observed
  | .init sessionKey =>
    match observed.session.init crypto sessionKey with
    | (session, none) => { observed with session }
    | (session, some ()) => ⟨session, .keyShare (decodeBase64 sessionKey) :: observed.accepted⟩
  | .importSession sessionKey => { observed with session := (observed.session.importSession crypto sessionKey).1 }
  | .unpickle key pickled accepted =>
    match observed.session.unpickle crypto key pickled with
    | (session, none) => { observed with session }
    | (session, some _) => ⟨session, accepted ++ observed.accepted⟩
  | .decrypt stack message maxPlaintextLength =>
    let decrypted := observed.session.decrypt crypto stack message maxPlaintextLength
    match decrypted.plaintext with
    | none => { observed with session := decrypted.session }
    | some _ => ⟨decrypted.session, .message (decodeBase64 message) :: observed.accepted⟩

/-- A key that counts as verified has verified something that was accepted. -/
def Observed.Lawful (observed : Observed) : Prop :=
  observed.session.isVerified → Vouched crypto observed.accepted observed.session.signingKey

/-! ### Pickles -/

/-- The signing key in a body that is long enough to hold one. -/
def pickledKey (body : Bytes) : Block 32 := Block.load 32 (body.drop 268)

/-- The flag in a body that is long enough to hold one; in version 1 it goes without saying. -/
def pickledFlag (body : Bytes) : Bool := bodyVersion body = 1 || (body.getD 300 0 != 0)

/-- The pickle of a session with a verified key comes with something that the key has verified. -/
def Action.LawfulPickle : Action → Prop
  | .unpickle key pickled accepted => ∀ body, encInput crypto key pickled = .ok body → CompleteBody body →
      pickledFlag body → Vouched crypto accepted (pickledKey body)
  | _ => True

theorem unpickleBody_unknown (session : InboundGroupSession) {body : Bytes}
    (unknown : ¬ (bodyVersion body = 1 ∨ bodyVersion body = 2)) :
    (session.unpickleBody body).1 = { session with lastError := .unknownPickleVersion } := by
  rw [← known_version_iff, not_not] at unknown
  unfold unpickleBody
  dsimp only
  rw [if_pos (by exact unknown)]

theorem unpickleBytes_drop (session : InboundGroupSession) (body : Bytes) :
    unpickleBytes (body.drop 268) session.signingKey =
      (body.drop 300, if body.length < 300 then session.signingKey else pickledKey body) := by
  unfold unpickleBytes
  by_cases short : body.length < 300
  · rw [if_pos (by rw [List.length_drop]; omega), if_pos short, List.drop_of_length_le (Nat.le_of_lt short)]
  · rw [if_neg (by rw [List.length_drop]; omega), if_neg short, List.drop_drop, pickledKey]

theorem unpickleBool_drop (body : Bytes) (flag : Bool) :
    (unpickleBool (body.drop 300) flag).2 = if body.length < 301 then flag else body.getD 300 0 != 0 := by
  rcases rest : body.drop 300 with _ | ⟨byte, tail⟩
  · rw [List.drop_eq_nil_iff] at rest
    rw [if_pos (by omega)]
    rfl
  · have long := congrArg List.length rest
    rw [List.length_drop, List.length_cons] at long
    have read : body.getD 300 0 = byte := by
      rw [List.getD_eq_getElem?_getD, ← Nat.add_zero 300, ← List.getElem?_drop, rest]
      rfl
    rw [if_neg (by omega), read]
    rfl

theorem unpickleBody_known (session : InboundGroupSession) {body : Bytes}
    (known : bodyVersion body = 1 ∨ bodyVersion body = 2) :
    (session.unpickleBody body).1.signingKey = (if body.length < 300 then session.signingKey else pickledKey body) ∧
      (session.unpickleBody body).1.signingKeyVerified =
        if bodyVersion body = 1 then true
        else if body.length < 301 then session.signingKeyVerified else body.getD 300 0 != 0 := by
  rw [← known_version_iff] at known
  unfold unpickleBody
  dsimp only
  rw [if_neg (by exact known), Megolm.unpickle_rest, Megolm.unpickle_rest, unpickleUint32_rest, List.drop_drop,
    List.drop_drop, unpickleBytes_drop, ← unpickleBool_drop]
  -- the fields are the same whether or not bytes are left over
  rw [apply_ite Prod.fst, apply_ite signingKey, apply_ite signingKeyVerified, ite_self, ite_self, apply_ite Prod.snd]
  exact ⟨rfl, rfl⟩

/-! ### Decryption -/

theorem getMegolm_verified (session : InboundGroupSession) (messageIndex : UInt32) :
    (session.getMegolm crypto messageIndex).1.signingKeyVerified = session.signingKeyVerified := by
  unfold getMegolm
  split
  · rfl
  · split <;> rfl

theorem decrypt_refused {session : InboundGroupSession} {stack : GroupMessageResults} {message : Bytes}
    {maxPlaintextLength : Nat}
    (refused : (session.decrypt crypto stack message maxPlaintextLength).plaintext = none) :
    (session.decrypt crypto stack message maxPlaintextLength).session.signingKeyVerified =
      session.signingKeyVerified := by
  unfold decrypt at refused ⊢
  split
  · rfl
  unfold decryptRaw at refused ⊢
  dsimp only at refused ⊢
  split
  · rfl
  split
  · split
    · rfl
    split
    · rfl
    have kept := getMegolm_verified crypto session
      (decodeGroupMessage stack (decodeBase64 message) (megolmCipher crypto).macLength signatureLength).messageIndex
    split
    · rename_i lookup
      rw [lookup] at kept
      exact kept
    · rename_i lookup
      rw [lookup] at kept
      split
      · exact kept
      · simp_all
  · rfl

/-- A message is decrypted after its signature was verified. -/
theorem decrypt_opened {session : InboundGroupSession} {stack : GroupMessageResults} {message plaintext : Bytes}
    {maxPlaintextLength : Nat}
    (opened : (session.decrypt crypto stack message maxPlaintextLength).plaintext = some plaintext) :
    messageSigned crypto (decodeBase64 message) session.signingKey := by
  by_contra unsigned
  unfold messageSigned at unsigned
  unfold decrypt at opened
  split at opened
  · cases opened
  unfold decryptRaw at opened
  dsimp only at opened
  split at opened
  · cases opened
  split at opened
  · cases opened
  · cases opened

/-! ### One call -/

/-- The condition on a call: a key that is stored without a signature next to a flag that stays is vouched for by
what was accepted before. So are the present key when a short pickle of version 1 declares it verified, and the key
of a body with bytes left over, which is stored with its flag before the body is refused. -/
def Action.Sound (observed : Observed) : Action → Prop
  | .init sessionKey =>
    let raw := decodeBase64 sessionKey
    Decodes sessionKey OutboundGroupSession.sessionKeyRawLength OutboundGroupSession.sessionKeyVersion →
      keySigned crypto raw (sharedKey raw) = false → observed.session.isVerified →
        Vouched crypto observed.accepted (sharedKey raw)
  | .importSession sessionKey =>
    Decodes sessionKey sessionExportRawLength sessionExportVersion → observed.session.isVerified →
      Vouched crypto observed.accepted (sharedKey (decodeBase64 sessionKey))
  | .unpickle key pickled accepted => ∀ body, encInput crypto key pickled = .ok body →
      (bodyVersion body = 2 → body.length = 300 → observed.session.isVerified →
        Vouched crypto (accepted ++ observed.accepted) (pickledKey body)) ∧
      (bodyVersion body = 1 → body.length < 300 →
        Vouched crypto (accepted ++ observed.accepted) observed.session.signingKey) ∧
      (bodyVersion body = 1 ∨ bodyVersion body = 2 → bodyLength (bodyVersion body) < body.length → pickledFlag body →
        Vouched crypto observed.accepted (pickledKey body))
  | .decrypt _ _ _ => True

variable {crypto} {observed : Observed}

theorem init_lawful_iff (lawful : observed.Lawful crypto) (sessionKey : Bytes) :
    (observed.act crypto (.init sessionKey)).Lawful crypto ↔ (Action.init sessionKey).Sound crypto observed := by
  by_cases decodes : Decodes sessionKey OutboundGroupSession.sessionKeyRawLength OutboundGroupSession.sessionKeyVersion
  · by_cases signed : keySigned crypto (decodeBase64 sessionKey) (sharedKey (decodeBase64 sessionKey))
    · have done := init_of_decodes crypto observed.session decodes
      simp only [if_pos signed] at done
      simp only [Observed.act, done, Action.Sound, signed]
      refine ⟨fun _ _ => nofun, fun _ _ => ⟨_, List.mem_cons_self, signed⟩⟩
    · have done := init_of_decodes crypto observed.session decodes
      simp only [if_neg signed] at done
      simp only [Observed.act, done, Action.Sound, Observed.Lawful, isVerified, holding]
      exact ⟨fun after _ _ => after, fun sound => sound decodes (Bool.eq_false_iff.mpr signed)⟩
  · obtain ⟨error, done⟩ := init_of_not_decodes crypto observed.session decodes
    simp only [Observed.act, done]
    exact ⟨fun _ decodes' => absurd decodes' decodes, fun _ => lawful⟩

theorem importSession_lawful_iff (lawful : observed.Lawful crypto) (sessionKey : Bytes) :
    (observed.act crypto (.importSession sessionKey)).Lawful crypto ↔
      (Action.importSession sessionKey).Sound crypto observed := by
  by_cases decodes : Decodes sessionKey sessionExportRawLength sessionExportVersion
  · simp only [Observed.act, importSession_of_decodes crypto observed.session decodes]
    exact ⟨fun after _ => after, fun sound => sound decodes⟩
  · obtain ⟨error, done⟩ := importSession_of_not_decodes crypto observed.session decodes
    simp only [Observed.act, done]
    exact ⟨fun _ decodes' => absurd decodes' decodes, fun _ => lawful⟩

section Unpickle

variable {key pickled body : Bytes} {accepted : List Evidence} (input : encInput crypto key pickled = .ok body)
include input

theorem act_unpickle : observed.act crypto (.unpickle key pickled accepted) =
    ⟨(observed.session.unpickleBody body).1,
      if (observed.session.unpickleBody body).2.isSome then accepted ++ observed.accepted else observed.accepted⟩ := by
  simp only [Observed.act, unpickle, input]
  rcases observed.session.unpickleBody body with ⟨session, _ | _⟩ <;> rfl

/-- A body of a known version leaves its key and its flag, as far as it holds them, and is accepted if it is not too
long. -/
theorem unpickle_known_lawful_iff (known : bodyVersion body = 1 ∨ bodyVersion body = 2) :
    (observed.act crypto (.unpickle key pickled accepted)).Lawful crypto ↔
      ((if bodyVersion body = 1 then true
          else if body.length < 301 then observed.session.signingKeyVerified else body.getD 300 0 != 0) = true →
        Vouched crypto
          (if body.length ≤ bodyLength (bodyVersion body) then accepted ++ observed.accepted else observed.accepted)
          (if body.length < 300 then observed.session.signingKey else pickledKey body)) := by
  obtain ⟨signingKey, flag⟩ := unpickleBody_known observed.session known
  have taken := unpickleBody_isSome_iff observed.session body
  simp only [known, true_and] at taken
  simp only [act_unpickle input, Observed.Lawful, isVerified, signingKey, flag, taken]

theorem unpickle_one_lawful_iff (one : bodyVersion body = 1)
    (pickle : (Action.unpickle key pickled accepted).LawfulPickle crypto) :
    (observed.act crypto (.unpickle key pickled accepted)).Lawful crypto ↔
      (body.length < 300 → Vouched crypto (accepted ++ observed.accepted) observed.session.signingKey) ∧
        (300 < body.length → Vouched crypto observed.accepted (pickledKey body)) := by
  have length : bodyLength (bodyVersion body) = 300 := by rw [one]; rfl
  rw [unpickle_known_lawful_iff input (.inl one), if_pos one, length]
  rcases Nat.lt_trichotomy body.length 300 with short | exact | long
  · rw [if_pos (Nat.le_of_lt short), if_pos short]
    exact ⟨fun after => ⟨fun _ => after rfl, fun long => absurd long (Nat.lt_asymm short)⟩, fun sound _ => sound.1 short⟩
  · have complete : CompleteBody body := (completeBody_iff body).mpr ⟨.inl one, exact.trans length.symm⟩
    have vouched := pickle body input complete (by rw [pickledFlag, one]; rfl)
    rw [if_pos (Nat.le_of_eq exact), if_neg (by omega)]
    exact ⟨fun _ => ⟨fun short => absurd short (by omega), fun long => absurd long (by omega)⟩,
      fun _ _ => vouched.mono (List.subset_append_left _ _)⟩
  · rw [if_neg (Nat.not_le.mpr long), if_neg (Nat.lt_asymm long)]
    exact ⟨fun after => ⟨fun short => absurd short (Nat.lt_asymm long), fun _ => after rfl⟩, fun sound _ => sound.2 long⟩

theorem unpickle_two_lawful_iff (lawful : observed.Lawful crypto) (two : bodyVersion body = 2)
    (pickle : (Action.unpickle key pickled accepted).LawfulPickle crypto) :
    (observed.act crypto (.unpickle key pickled accepted)).Lawful crypto ↔
      (body.length = 300 → observed.session.isVerified →
        Vouched crypto (accepted ++ observed.accepted) (pickledKey body)) ∧
        (301 < body.length → pickledFlag body → Vouched crypto observed.accepted (pickledKey body)) := by
  have not_one : bodyVersion body ≠ 1 := by rw [two]; decide
  have length : bodyLength (bodyVersion body) = 301 := by rw [two]; rfl
  have flag : pickledFlag body = (body.getD 300 0 != 0) := by
    rw [pickledFlag, two]
    rfl
  rw [unpickle_known_lawful_iff input (.inr two), if_neg not_one, length]
  rcases Nat.lt_or_ge body.length 301 with flagless | flagged
  · rw [if_pos flagless, if_pos (Nat.le_of_lt flagless)]
    by_cases short : body.length < 300
    · rw [if_pos short]
      exact ⟨fun _ => ⟨fun exact => absurd short (by omega), fun long => absurd long (by omega)⟩,
        fun _ verified => (lawful verified).mono (List.subset_append_right _ _)⟩
    · rw [if_neg short]
      exact ⟨fun after => ⟨fun _ => after, fun long => absurd long (by omega)⟩,
        fun sound verified => sound.1 (by omega) verified⟩
  · rw [if_neg (Nat.not_lt.mpr flagged), if_neg (show ¬ body.length < 300 by omega), flag]
    by_cases exact : body.length = 301
    · have complete : CompleteBody body := (completeBody_iff body).mpr ⟨.inr two, exact.trans length.symm⟩
      rw [if_pos (Nat.le_of_eq exact)]
      refine ⟨fun _ => ⟨fun short => absurd short (by omega), fun long => absurd long (by omega)⟩, fun _ set => ?_⟩
      exact (pickle body input complete (flag.trans set)).mono (List.subset_append_left _ _)
    · rw [if_neg (by omega)]
      exact ⟨fun after => ⟨fun short => absurd short (by omega), fun _ => after⟩, fun sound => sound.2 (by omega)⟩

end Unpickle

theorem unpickle_lawful_iff (lawful : observed.Lawful crypto) {key pickled : Bytes} {accepted : List Evidence}
    (pickle : (Action.unpickle key pickled accepted).LawfulPickle crypto) :
    (observed.act crypto (.unpickle key pickled accepted)).Lawful crypto ↔
      (Action.unpickle key pickled accepted).Sound crypto observed := by
  rcases input : encInput crypto key pickled with error | body
  · simp only [Observed.act, unpickle, input, Action.Sound]
    exact ⟨fun _ => nofun, fun _ => lawful⟩
  simp only [Action.Sound, input, Except.ok.injEq, forall_eq']
  by_cases one : bodyVersion body = 1
  · have length : bodyLength (bodyVersion body) = 300 := by rw [one]; rfl
    have flag : pickledFlag body = true := by rw [pickledFlag, one]; rfl
    rw [unpickle_one_lawful_iff input one pickle, length, flag, one]
    simp
  by_cases two : bodyVersion body = 2
  · have length : bodyLength (bodyVersion body) = 301 := by rw [two]; rfl
    rw [unpickle_two_lawful_iff input lawful two pickle, length, two]
    simp
  · have refused : ¬ (bodyVersion body = 1 ∨ bodyVersion body = 2) := not_or.mpr ⟨one, two⟩
    have none : (observed.session.unpickleBody body).2.isSome = false := by
      rw [Bool.eq_false_iff, ne_eq, unpickleBody_isSome_iff]
      exact fun taken => refused taken.1
    rw [act_unpickle input, unpickleBody_unknown observed.session refused, none]
    simp only [one, two, false_or, false_imp_iff, and_self, iff_true]
    exact lawful

theorem decrypt_lawful (lawful : observed.Lawful crypto) (stack : GroupMessageResults) (message : Bytes)
    (maxPlaintextLength : Nat) : (observed.act crypto (.decrypt stack message maxPlaintextLength)).Lawful crypto := by
  have same := decrypt_signingKey crypto observed.session stack message maxPlaintextLength
  simp only [Observed.act]
  split
  · rename_i refused
    unfold Observed.Lawful isVerified
    rw [same, decrypt_refused crypto refused]
    exact lawful
  · rename_i opened
    intro _
    exact ⟨_, List.mem_cons_self, same ▸ decrypt_opened crypto opened⟩

/-- One call keeps the law exactly if it is sound. -/
theorem act_lawful_iff (lawful : observed.Lawful crypto) {action : Action} (pickle : action.LawfulPickle crypto) :
    (observed.act crypto action).Lawful crypto ↔ action.Sound crypto observed := by
  cases action with
  | init sessionKey => exact init_lawful_iff lawful sessionKey
  | importSession sessionKey => exact importSession_lawful_iff lawful sessionKey
  | unpickle key pickled accepted => exact unpickle_lawful_iff lawful pickle
  | decrypt stack message maxPlaintextLength =>
    exact ⟨fun _ => trivial, fun _ => decrypt_lawful lawful stack message maxPlaintextLength⟩

/-! ### Runs -/

/-- The session at the start and after each call is lawful. -/
def LawfulThroughout (crypto : Crypto) (observed : Observed) : List Action → Prop
  | [] => observed.Lawful crypto
  | action :: actions => observed.Lawful crypto ∧ LawfulThroughout crypto (observed.act crypto action) actions

/-- Each call is sound for the session it is made on. -/
def SoundThroughout (crypto : Crypto) (observed : Observed) : List Action → Prop
  | [] => True
  | action :: actions => action.Sound crypto observed ∧ SoundThroughout crypto (observed.act crypto action) actions

theorem lawful_iff_sound_from (lawful : observed.Lawful crypto) (actions : List Action)
    (pickles : ∀ action ∈ actions, action.LawfulPickle crypto) :
    LawfulThroughout crypto observed actions ↔ SoundThroughout crypto observed actions := by
  induction actions generalizing observed with
  | nil => exact ⟨fun _ => trivial, fun _ => lawful⟩
  | cons action actions ih =>
    have step := act_lawful_iff lawful (pickles action List.mem_cons_self)
    have rest (next : (observed.act crypto action).Lawful crypto) :=
      ih next fun later mem => pickles later (List.mem_cons_of_mem _ mem)
    have first {actions : List Action} (throughout : LawfulThroughout crypto (observed.act crypto action) actions) :
        (observed.act crypto action).Lawful crypto := by
      cases actions with
      | nil => exact throughout
      | cons later actions => exact throughout.1
    constructor
    · rintro ⟨-, throughout⟩
      exact ⟨step.mp (first throughout), (rest (first throughout)).mp throughout⟩
    · rintro ⟨sound, throughout⟩
      exact ⟨lawful, (rest (step.mpr sound)).mpr throughout⟩

/-- On a cleared session, a verified key is vouched for after every call exactly if every call is sound. -/
theorem verified_iff_sound (crypto : Crypto) (actions : List Action)
    (pickles : ∀ action ∈ actions, action.LawfulPickle crypto) :
    LawfulThroughout crypto ⟨clear, []⟩ actions ↔ SoundThroughout crypto ⟨clear, []⟩ actions :=
  lawful_iff_sound_from (fun verified => absurd verified (by decide)) actions pickles

def plainSender : OutboundGroupSession :=
  ⟨Megolm.init (Block.zero 128) 0, Crypto.plain.ed25519.createKeypair (Block.zero 32), .success⟩

def plainShare : Bytes :=
  let signed := sessionKeyLayout OutboundGroupSession.sessionKeyVersion plainSender.ratchet plainSender.signingKey.publicKey
  encodeBase64 (signed ++ (Crypto.plain.ed25519.sign plainSender.signingKey signed).val)

def plainMessage : Bytes := encodeBase64 (plainSender.messageParts Crypto.plain [7]).flatten

/-- The pickle of a version alone. -/
def versionAlone : Bytes := ascii "AAAAAgwMDAwMDAwMDAwMDAEQAAAAAgwM"

/-- A signed key share, a message, and a pickle of the version alone. -/
def openedRun : List Action :=
  [.init plainShare, .decrypt ⟨0, 0, false, none⟩ plainMessage 16, .unpickle [] versionAlone []]

theorem openedRun_state :
    (⟨clear, []⟩ : Observed).act Crypto.plain (.init plainShare) =
        ⟨{ clear with
            initialRatchet := plainSender.ratchet
            latestRatchet := plainSender.ratchet
            signingKey := plainSender.signingKey.publicKey
            signingKeyVerified := true }, [.keyShare (decodeBase64 plainShare)]⟩ ∧
      ∀ observed : Observed, observed.session.latestRatchet = plainSender.ratchet →
        observed.session.signingKey = plainSender.signingKey.publicKey →
          observed.act Crypto.plain (.decrypt ⟨0, 0, false, none⟩ plainMessage 16) =
            ⟨{ observed.session with signingKeyVerified := true },
              .message (decodeBase64 plainMessage) :: observed.accepted⟩ := by
  constructor
  · have loaded : clear.init Crypto.plain plainShare = _ :=
      init_layout Crypto.plain clear plainSender.ratchet plainSender.signingKey.publicKey _
        (Crypto.plain_complete (Block.zero 32) _)
    simp only [Observed.act, loaded]
  · intro observed latest signingKey
    have genuine : Genuine Crypto.plain plainSender.signingKey plainSender.ratchet [7] plainMessage :=
      OutboundGroupSession.genuine_messageParts Crypto.plain_permutation plainSender [7] (by decide)
    have lookup := getMegolm_latest Crypto.plain observed.session
    rw [latest] at lookup
    have room : (megolmCipher Crypto.plain).encryptCiphertextLength [(7 : UInt8)].length ≤ 16 := by decide
    have opened := (decrypt_genuine Crypto.plain_complete genuine signingKey ⟨0, 0, false, none⟩ room).1 _ lookup
    simp only [Observed.act, opened]

theorem versionAlone_input : encInput Crypto.plain [] versionAlone = .ok [0, 0, 0, 2] ∧
    bodyVersion [0, 0, 0, 2] = 2 := ⟨rfl, by decide⟩

/-- That pickle is accepted and changes neither the key nor the flag. -/
theorem act_versionAlone (observed : Observed) :
    (observed.act Crypto.plain (.unpickle [] versionAlone [])).session.isVerified =
        observed.session.isVerified ∧
      (observed.act Crypto.plain (.unpickle [] versionAlone [])).accepted =
        observed.accepted := by
  obtain ⟨input, version⟩ := versionAlone_input
  obtain ⟨-, flag⟩ := unpickleBody_known observed.session (.inr version)
  have taken : (observed.session.unpickleBody [0, 0, 0, 2]).2.isSome := by
    rw [unpickleBody_isSome_iff, version]
    exact ⟨.inr rfl, by decide⟩
  rw [act_unpickle input, if_pos taken]
  rw [version, if_neg (by decide), if_pos (by decide)] at flag
  exact ⟨flag, rfl⟩

theorem verified_iff_sound_opened :
    LawfulThroughout Crypto.plain ⟨clear, []⟩ openedRun ∧
      (openedRun.foldl (Observed.act Crypto.plain) ⟨clear, []⟩).session.isVerified ∧
      (openedRun.foldl (Observed.act Crypto.plain) ⟨clear, []⟩).accepted =
        [.message (decodeBase64 plainMessage), .keyShare (decodeBase64 plainShare)] := by
  obtain ⟨input, version⟩ := versionAlone_input
  obtain ⟨loaded, opened⟩ := openedRun_state
  refine ⟨(verified_iff_sound Crypto.plain openedRun ?pickles).mpr ⟨?init, trivial, ?unpickle, trivial⟩, ?_⟩
  case pickles =>
    intro action mem
    simp only [openedRun, List.mem_cons, List.not_mem_nil, or_false] at mem
    rcases mem with rfl | rfl | rfl
    · trivial
    · trivial
    · intro body same complete
      obtain rfl := Except.ok.inj (input.symm.trans same)
      have length := ((completeBody_iff _).mp complete).2
      rw [version] at length
      exact absurd length (by decide)
  case init => exact fun _ _ verified => absurd verified (by decide)
  case unpickle =>
    intro body same
    obtain rfl := Except.ok.inj (input.symm.trans same)
    rw [version]
    exact ⟨fun _ length => absurd length (by decide), fun one => absurd one (by decide),
      fun _ length => absurd length (by decide)⟩
  · simp only [openedRun, List.foldl_cons, List.foldl_nil, loaded, opened]
    obtain ⟨flag, accepted⟩ := act_versionAlone _
    rw [flag, accepted]
    exact ⟨rfl, rfl⟩

/-- A signed key share, and then the export of a session with another key. -/
theorem verified_not_vouched :
    ¬ ∀ (crypto : Crypto) (actions : List Action), (∀ action ∈ actions, action.LawfulPickle crypto) →
      LawfulThroughout crypto ⟨clear, []⟩ actions := by
  intro vouched
  let ratchet := Megolm.init (Block.zero 128) 0
  let first := Block.zero 32
  let second : Block 32 := ⟨List.replicate 32 1, rfl⟩
  let signature := Block.append first (Block.load 32 (sessionKeyLayout OutboundGroupSession.sessionKeyVersion ratchet first))
  let share := sessionKeyLayout OutboundGroupSession.sessionKeyVersion ratchet first ++ signature.val
  have valid : Crypto.plain.ed25519.verify signature
      (sessionKeyLayout OutboundGroupSession.sessionKeyVersion ratchet first) first = true := Crypto.plain_verify_iff.mpr rfl
  have loaded := init_layout Crypto.plain clear ratchet first signature valid
  have run := vouched Crypto.plain [.init (encodeBase64 share),
    .importSession (encodeBase64 (sessionKeyLayout sessionExportVersion ratchet second))] (by
      intro action mem
      simp only [List.mem_cons, List.not_mem_nil, or_false] at mem
      rcases mem with rfl | rfl <;> trivial)
  obtain ⟨-, -, lawful⟩ := run
  simp only [LawfulThroughout, Observed.act, share, loaded, importSession_layout] at lawful
  obtain ⟨evidence, mem, verified⟩ := lawful rfl
  obtain rfl := List.mem_singleton.mp mem
  have length : (sessionKeyLayout OutboundGroupSession.sessionKeyVersion ratchet first).length = 165 :=
    length_sessionKeyLayout _ _ _
  have verified : keySigned Crypto.plain (decodeBase64 (encodeBase64 share)) second := verified
  unfold keySigned at verified
  rw [decode_encodeBase64, ← length, List.drop_left, Block.load_val] at verified
  have same := congrArg (fun block : Block 64 => block.val.head?) (Crypto.plain_verify_iff.mp verified)
  cases same

end InboundGroupSession

end RubyOlm
