import RubyOlm.Ruby.Methods

/-!
# Arguments of the native methods

Which arguments a method takes without doing what has no meaning. Some are checked, some after they were used, and some
not at all.
-/

namespace RubyOlm.Ruby

open Outcome

/-! ### What is always defined -/

section Defined

variable (around : Surroundings)

@[simp] theorem defined_orRaise {α : Type} (value : Option α) : (orRaise value).Defined := by
  cases value <;> simp [orRaise]

@[simp] theorem defined_num2sizet (value : Value) : (num2sizet around value).Defined := defined_orRaise _

@[simp] theorem defined_getRandom (size : Nat) : (getRandom around size).Defined := defined_orRaise _

@[simp] theorem defined_library (function : String) (arguments : List Bytes) :
    (library around function arguments).Defined := defined_orRaise _

@[simp] theorem defined_funcall (method : String) (arguments : List Value) :
    (funcall around method arguments).Defined := defined_orRaise _

@[simp] theorem defined_malloc (size : Nat) : (malloc around size).Defined := by
  unfold malloc
  split <;> simp

@[simp] theorem defined_checkString (value : Value) : (checkString value).Defined := by
  unfold checkString
  split
  · simp
  · exact defined_checkKind _ _

@[simp] theorem defined_scanOptional (argv : List Value) : (scanOptional argv).Defined := by
  unfold scanOptional
  split <;> simp

@[simp] theorem defined_scanOneOptional (argv : List Value) : (scanOneOptional argv).Defined := by
  unfold scanOneOptional
  split <;> simp

@[simp] theorem defined_scanTwoOptional (argv : List Value) : (scanTwoOptional argv).Defined := by
  unfold scanTwoOptional
  split <;> simp

@[simp] theorem defined_scanOptions (argv : List Value) : (scanOptions argv).Defined := by
  unfold scanOptions
  split <;> simp

end Defined

/-- Everything succeeds. -/
def obliging : Surroundings where
  toSize _ := some 0
  random size := some (List.replicate size 0)
  malloc _ := true
  funcall _ _ := some .nil
  size _ _ := 0
  library _ _ := some []

/-- Whatever the library and the interpreter answer, the function raises or returns. -/
def Checked (function : Surroundings → Outcome Value) : Prop := ∀ around, (function around).Defined

/-- A string, or none. -/
def OptionalString (value : Value) : Prop := value.isNil ∨ value.kindOf .string

/-- What a message is read as, if it is a message, is a string, and so is the identity that goes with it. -/
def Readable (oneTimeMessage identity : Value) : Prop :=
  oneTimeMessage.kindOf .preKeyMessage → ∀ text, toS oneTimeMessage = .returned text →
    text.kindOf .string ∧ OptionalString identity

theorem kindOf_orEmpty_iff {password : Value} : (orEmpty password).kindOf .string ↔ OptionalString password := by
  unfold orEmpty OptionalString
  split
  · rename_i none
    exact ⟨fun _ => .inl none, fun _ => by decide⟩
  · rename_i given
    exact ⟨.inr, fun either => either.resolve_left given⟩

theorem checkString_eq_returned_iff {value : Value} {done : Unit} :
    checkString value = .returned done ↔ OptionalString value := by
  unfold checkString OptionalString
  split
  · rename_i none
    exact ⟨fun _ => .inl none, fun _ => rfl⟩
  · rename_i given
    rw [checkKind_eq_returned_iff]
    exact ⟨.inr, fun either => either.resolve_left given⟩

/-- A part that is defined leaves what it decides to the rest. -/
theorem defined_after {α β : Type} {outcome : Outcome α} {next : α → Outcome β} (defined : outcome.Defined) :
    (outcome >>= next).Defined ↔ ∀ value, outcome = .returned value → (next value).Defined :=
  (defined_bind outcome next).trans (and_iff_right defined)

theorem defined_used (around : Surroundings) (function : String) (arguments : List Bytes) (value : Bytes → Value) :
    (library around function arguments >>= fun result => pure (value result)).Defined :=
  (defined_after (defined_library _ _ _)).mpr fun result _ => defined_pure (value result)

/-- A message, and an identity if there is one, which are read before anything else is done with them. -/
theorem defined_readMessage_iff (oneTimeMessage identity : Value) {alone : Bytes → Outcome Value}
    {withIdentity : Bytes → Bytes → Outcome Value} (defined_alone : ∀ text, (alone text).Defined)
    (defined_withIdentity : ∀ identity text, (withIdentity identity text).Defined) :
    (do
      checkKind oneTimeMessage .preKeyMessage
      let text ← toS oneTimeMessage
      if identity.isNil then
        let text ← dupString text
        alone text
      else
        let identity ← rstring identity
        let text ← dupString text
        withIdentity identity text).Defined ↔ Readable oneTimeMessage identity := by
  rw [defined_after (defined_checkKind _ _)]
  simp only [checkKind_eq_returned_iff, defined_after (defined_toS _)]
  unfold Readable OptionalString
  refine ⟨fun defined kind text said => ?_, fun readable _ kind text said => ?_⟩
  · have defined := defined () kind text said
    split at defined
    · rename_i none
      rw [defined_bind, dupString, defined_rstring_iff] at defined
      exact ⟨defined.1, .inl none⟩
    · rw [defined_bind, defined_rstring_iff] at defined
      obtain ⟨string, defined⟩ := defined
      obtain ⟨cls, isString, bytes, rfl⟩ := Value.kindOf_string_iff.mp string
      have defined := defined bytes rfl
      rw [defined_bind, dupString, defined_rstring_iff] at defined
      exact ⟨defined.1, .inr string⟩
  · obtain ⟨string, optional⟩ := readable kind text said
    have read : (dupString text).Defined := defined_rstring_iff.mpr string
    split
    · exact (defined_after read).mpr fun text _ => defined_alone text
    · rename_i given
      rw [defined_after (defined_rstring_iff.mpr (optional.resolve_left given))]
      exact fun identity _ => (defined_after read).mpr fun text _ => defined_withIdentity identity text

variable {self : Value}

/-! ### Sessions -/

section Session

variable (receives : dataGetStruct self .session = .returned ())
include receives

theorem initializeSession_checked (argv : List Value) :
    Checked fun around => ExtSession.initializeSession around self argv := by
  intro around
  simp only [ExtSession.initializeSession, receives, returned_bind, defined_after (defined_scanOneOptional _)]
  rintro ⟨pickle, password⟩ -
  simp only [defined_bind, defined_checkKind, defined_checkString, checkKind_eq_returned_iff,
    checkString_eq_returned_iff, dupString, defined_rstring_iff, kindOf_orEmpty_iff, defined_library, true_and]
  intro _ string _ optional
  exact ⟨optional, fun _ _ => ⟨string, fun _ _ _ _ => defined_pure self⟩⟩

theorem initializeOutbound_checked_iff {account identity oneTimeKey : Value} :
    (Checked fun around => ExtSession.initializeOutbound around self account identity oneTimeKey) ↔
      NotMistaken account .account := by
  rw [← defined_dataGetStruct_iff]
  constructor
  · intro checked
    have defined := checked obliging
    simp only [ExtSession.initializeOutbound, receives, returned_bind, defined_bind] at defined
    exact defined.1
  · intro kept around
    simp only [ExtSession.initializeOutbound, receives, returned_bind, defined_after kept]
    intro _ _
    split
    · exact defined_raised
    · simp only [defined_bind, defined_checkKind, checkKind_eq_returned_iff, defined_rstring_iff, defined_getRandom,
        defined_library, true_and]
      intro _ first _ second
      exact ⟨first, fun _ _ => ⟨second, fun _ _ _ _ _ _ => defined_pure self⟩⟩

theorem initializeInbound_checked_iff (argv : List Value) :
    (Checked fun around => ExtSession.initializeInbound around self argv) ↔
      ∀ account oneTimeMessage identity, scanTwoOptional argv = .returned (account, oneTimeMessage, identity) →
        NotMistaken account .account ∧
          (dataGetStruct account .account = .returned () → Readable oneTimeMessage identity) := by
  have reads (around : Surroundings) (oneTimeMessage identity : Value) := defined_readMessage_iff oneTimeMessage identity
    (fun text => defined_used around "olm_create_inbound_session" [text] fun _ => self)
    (fun identity text => defined_used around "olm_create_inbound_session_from" [identity, text] fun _ => self)
  simp only [Checked, ExtSession.initializeInbound, receives, returned_bind, defined_after (defined_scanTwoOptional _)]
  constructor
  · intro checked account oneTimeMessage identity scanned
    have defined := checked obliging (account, oneTimeMessage, identity) scanned
    rw [defined_bind, defined_dataGetStruct_iff] at defined
    exact ⟨defined.1, fun unwrapped => (reads obliging oneTimeMessage identity).mp (defined.2 () unwrapped)⟩
  · rintro accepts around ⟨account, oneTimeMessage, identity⟩ scanned
    obtain ⟨kept, readable⟩ := accepts account oneTimeMessage identity scanned
    rw [defined_after (defined_dataGetStruct_iff.mpr kept)]
    exact fun _ unwrapped => (reads around oneTimeMessage identity).mpr (readable unwrapped)

theorem willReceive_checked_iff {argv : List Value} :
    (Checked fun around => ExtSession.willReceive around self argv) ↔
      ∀ oneTimeMessage identity, scanOneOptional argv = .returned (oneTimeMessage, identity) →
        Readable oneTimeMessage identity := by
  have reads (around : Surroundings) (oneTimeMessage identity : Value) := defined_readMessage_iff oneTimeMessage identity
    (fun text => defined_used around "olm_matches_inbound_session" [text] fun result => .boolean (result = [1]))
    (fun identity text => defined_used around "olm_matches_inbound_session_from" [identity, text] fun result =>
      .boolean (result = [1]))
  simp only [Checked, ExtSession.willReceive, receives, returned_bind, defined_after (defined_scanOneOptional _)]
  constructor
  · intro checked oneTimeMessage identity scanned
    exact (reads obliging oneTimeMessage identity).mp (checked obliging (oneTimeMessage, identity) scanned)
  · rintro readable around ⟨oneTimeMessage, identity⟩ scanned
    exact (reads around oneTimeMessage identity).mpr (readable oneTimeMessage identity scanned)

theorem encrypt_checked_iff {plain : Value} :
    (Checked fun around => ExtSession.encrypt around self plain) ↔ plain.kindOf .string := by
  rw [← defined_rstring_iff]
  constructor
  · intro checked
    have defined := checked obliging
    simp only [ExtSession.encrypt, receives, returned_bind, defined_bind] at defined
    exact defined.1
  · intro string around
    simp only [ExtSession.encrypt, ExtSession.messageType, receives, returned_bind, defined_bind, string,
      defined_malloc, defined_getRandom, defined_library, true_and]
    intro _ _ _ _
    refine ⟨?_, fun _ _ _ _ _ _ => defined_pure _⟩
    split <;> exact defined_pure _

theorem decrypt_checked_iff {cipher : Value} :
    (Checked fun around => ExtSession.decrypt around self cipher) ↔
      (cipher.kindOf .message ∨ cipher.kindOf .preKeyMessage →
        ∀ text, toS cipher = .returned text → text.kindOf .string) := by
  simp only [Checked, ExtSession.decrypt, receives, returned_bind]
  by_cases kind : cipher.kindOf .message ∨ cipher.kindOf .preKeyMessage
  · have passed : (!(cipher.kindOf .message || cipher.kindOf .preKeyMessage)) = false := by
      rw [Bool.not_eq_false', Bool.or_eq_true]
      exact kind
    simp only [passed, Bool.false_eq_true, if_false, defined_after (defined_toS _)]
    constructor
    · intro checked _ text said
      have defined := checked obliging text said
      rw [defined_bind, dupString, defined_rstring_iff] at defined
      exact defined.1
    · intro string around text said
      have read : (dupString text).Defined := defined_rstring_iff.mpr (string kind text said)
      simp only [defined_after read, defined_after (defined_library _ _ _), defined_after (defined_malloc _ _)]
      exact fun _ _ _ _ _ _ _ _ _ _ => defined_pure _
  · have refused : (!(cipher.kindOf .message || cipher.kindOf .preKeyMessage)) = true := by
      rw [Bool.not_eq_true', Bool.or_eq_false_iff, Bool.eq_false_iff, Bool.eq_false_iff]
      exact not_or.mp kind
    simp only [refused, if_true]
    exact ⟨fun _ some => absurd some kind, fun _ _ => defined_raised⟩

end Session

/-- What both `to_pickle` do with the password. -/
theorem toPickle_checked_iff {argv : List Value} {length pickle : String} :
    (∀ around, (do
      let password ← scanOptional argv
      malloc around (around.size length [])
      let password ← rstring (orEmpty password)
      let pickle ← library around pickle [password]
      return Value.newString pickle : Outcome Value).Defined) ↔
      ∀ password, scanOptional argv = .returned password → OptionalString password := by
  simp only [defined_after (defined_scanOptional _)]
  constructor
  · intro checked password scanned
    have defined := checked obliging password scanned
    simp only [malloc, obliging, if_true, returned_bind, defined_bind, defined_rstring_iff, kindOf_orEmpty_iff] at defined
    exact defined.1
  · intro optional around password scanned
    simp only [defined_bind, defined_malloc, defined_rstring_iff, kindOf_orEmpty_iff, defined_library, true_and]
    exact fun _ _ => ⟨optional password scanned, fun _ _ _ _ => defined_pure _⟩

/-! ### Accounts -/

section Account

variable (receives : dataGetStruct self .account = .returned ())
include receives

theorem initializeAccount_checked (argv : List Value) :
    Checked fun around => ExtAccount.initializeAccount around self argv := by
  intro around
  simp only [ExtAccount.initializeAccount, receives, returned_bind, defined_after (defined_scanOptions _)]
  rintro ⟨pickle, password⟩ -
  simp only [defined_bind, defined_checkString, checkString_eq_returned_iff, true_and]
  intro _ pickleString _ passwordString
  split
  · rename_i given
    rw [Bool.not_eq_true', Bool.eq_false_iff] at given
    simp only [defined_bind, dupString, defined_rstring_iff, kindOf_orEmpty_iff, defined_library, true_and]
    exact ⟨passwordString, fun _ _ => ⟨pickleString.resolve_left given, fun _ _ _ _ => defined_pure self⟩⟩
  · simp only [defined_bind, defined_getRandom, defined_library, true_and]
    exact fun _ _ _ _ => defined_pure self

theorem sign_checked_iff {message : Value} :
    (Checked fun around => ExtAccount.sign around self message) ↔ message.kindOf .string := by
  rw [← defined_rstring_iff]
  constructor
  · intro checked
    have defined := checked obliging
    simp only [ExtAccount.sign, receives, returned_bind, malloc, obliging, if_true, defined_bind] at defined
    exact defined.1
  · intro string around
    simp only [ExtAccount.sign, receives, returned_bind, defined_bind, defined_malloc, string, defined_library, true_and]
    exact fun _ _ _ _ _ _ => defined_pure _

theorem removeOneTimeKeys_checked_iff {session : Value} :
    (Checked fun around => ExtAccount.removeOneTimeKeys around self session) ↔ NotMistaken session .session := by
  rw [← defined_dataGetStruct_iff]
  simp only [Checked, ExtAccount.removeOneTimeKeys, receives, returned_bind]
  constructor
  · exact fun checked => ((defined_bind _ _).mp (checked obliging)).1
  · exact fun kept around => (defined_after kept).mpr fun _ _ => defined_used around _ _ fun _ => self

theorem outboundSession_checked (identityKey preKey : Value) :
    Checked fun around => ExtAccount.outboundSession around self identityKey preKey := by
  refine (initializeOutbound_checked_iff rfl).mpr ?_
  rw [← defined_dataGetStruct_iff, receives]
  exact defined_returned ()

theorem inboundSession_checked_iff {argv : List Value} :
    (Checked fun around => ExtAccount.inboundSession around self argv) ↔
      ∀ oneTimeMessage identity, scanOneOptional argv = .returned (oneTimeMessage, identity) →
        Readable oneTimeMessage identity := by
  have kept : NotMistaken self .account := by
    rw [← defined_dataGetStruct_iff, receives]
    exact defined_returned ()
  have inner (oneTimeMessage identity : Value) := initializeInbound_checked_iff
    (show dataGetStruct (.data .inboundSession .session rfl) .session = .returned () from rfl)
    [self, oneTimeMessage, identity]
  simp only [Checked, ExtAccount.inboundSession, defined_after (defined_scanOneOptional _)]
  constructor
  · intro checked oneTimeMessage identity scanned
    have created := (inner oneTimeMessage identity).mp fun around =>
      checked around (oneTimeMessage, identity) scanned
    exact (created self oneTimeMessage identity rfl).2 receives
  · rintro readable around ⟨oneTimeMessage, identity⟩ scanned
    refine (inner oneTimeMessage identity).mpr ?_ around
    rintro _ _ _ same
    cases same
    exact ⟨kept, fun _ => readable oneTimeMessage identity scanned⟩

end Account

/-! ### Utilities -/

theorem sha256_checked_iff (receives : dataGetStruct self .utility = .returned ()) {data : Value} :
    (Checked fun around => ExtUtility.sha256 around self data) ↔ data.kindOf .string := by
  rw [← defined_rstring_iff]
  simp only [Checked, ExtUtility.sha256, receives, returned_bind]
  constructor
  · exact fun checked => ((defined_bind _ _).mp (checked obliging)).1
  · exact fun string around => (defined_after string).mpr fun _ _ => defined_used around _ _ Value.newString

/-! ### Every method -/

/-- What the arguments of a method have to be, when there are as many as it takes. -/
def admits (owner : RubyClass) (name : String) (argv : List Value) : Prop :=
  match owner, name, argv with
  | .account, "sign", [message] => message.kindOf .string
  | .account, "remove_one_time_keys", [session] => NotMistaken session .session
  | .account, "inbound_session", argv | .session, "will_receive?", argv =>
    ∀ oneTimeMessage identity, scanOneOptional argv = .returned (oneTimeMessage, identity) →
      Readable oneTimeMessage identity
  | .account, "to_pickle", argv | .session, "to_pickle", argv =>
    ∀ password, scanOptional argv = .returned password → OptionalString password
  | .outboundSession, "initialize", [account, _, _] => NotMistaken account .account
  | .inboundSession, "initialize", argv =>
    ∀ account oneTimeMessage identity, scanTwoOptional argv = .returned (account, oneTimeMessage, identity) →
      NotMistaken account .account ∧
        (dataGetStruct account .account = .returned () → Readable oneTimeMessage identity)
  | .session, "encrypt", [plain] => plain.kindOf .string
  | .session, "decrypt", [cipher] =>
    cipher.kindOf .message ∨ cipher.kindOf .preKeyMessage → ∀ text, toS cipher = .returned text → text.kindOf .string
  | .utility, _, data :: _ => data.kindOf .string
  | _, _, _ => True

namespace Method

def Admits (method : Method) (argv : List Value) : Prop :=
  method.arity.all (· = argv.length) → admits method.owner method.name argv

theorem checked_iff_of_function (method : Method) {argv : List Value}
    (function : method.arity.all (· = argv.length) →
      ((Checked fun around => method.function.call around self argv) ↔ admits method.owner method.name argv)) :
    (Checked fun around => method.call around self argv) ↔ method.Admits argv := by
  unfold Admits Method.call
  by_cases counted : method.arity.all (· = argv.length)
  · simp only [counted, if_true, function counted, forall_const]
  · simp only [counted]
    exact ⟨fun _ impossible => absurd impossible Bool.false_ne_true, fun _ _ => defined_raised⟩

theorem nullary_checked_iff {method : Method} {body : Surroundings → Value → Outcome Value}
    (function : method.function = .nullary body) (checked : Checked fun around => body around self)
    (admitted : ∀ argv, admits method.owner method.name argv) (argv : List Value) :
    (Checked fun around => method.call around self argv) ↔ method.Admits argv := by
  refine method.checked_iff_of_function fun _ => ?_
  rw [function]
  exact ⟨fun _ => admitted argv, fun _ => checked⟩

theorem unary_checked_iff {method : Method} {body : Surroundings → Value → Value → Outcome Value}
    (function : method.function = .unary body) (one : method.arity = some 1)
    (same : ∀ first, (Checked fun around => body around self first) ↔ admits method.owner method.name [first])
    (argv : List Value) : (Checked fun around => method.call around self argv) ↔ method.Admits argv := by
  refine method.checked_iff_of_function fun counted => ?_
  rw [one, Option.all_some, decide_eq_true_iff] at counted
  obtain ⟨first, rfl⟩ := List.length_eq_one_iff.mp counted.symm
  rw [function]
  exact same first

theorem variadic_checked_iff {method : Method} {body : Surroundings → Value → List Value → Outcome Value}
    (function : method.function = .variadic body)
    (same : ∀ argv, (Checked fun around => body around self argv) ↔ admits method.owner method.name argv)
    (argv : List Value) : (Checked fun around => method.call around self argv) ↔ method.Admits argv := by
  refine method.checked_iff_of_function fun _ => ?_
  rw [function]
  exact same argv

end Method

section Registered

variable {method : Method} (argv : List Value)

theorem account_checked_iff (listed : method ∈ accountInit) (receives : dataGetStruct self .account = .returned ()) :
    (Checked fun around => method.call around self argv) ↔ method.Admits argv := by
  simp only [accountInit, List.mem_cons, List.not_mem_nil, or_false] at listed
  rcases listed with rfl | rfl | rfl | rfl | rfl | rfl | rfl | rfl | rfl | rfl | rfl | rfl
  · exact Method.variadic_checked_iff rfl
      (fun argv => ⟨fun _ => by trivial, fun _ => initializeAccount_checked receives argv⟩) argv
  · exact Method.nullary_checked_iff rfl (fun around => by
      simp [ExtAccount.identityKeys, receives, defined_bind]) (fun _ => by trivial) argv
  · exact Method.nullary_checked_iff rfl (fun around => by
      simp [ExtAccount.oneTimeKeys, receives, defined_bind]) (fun _ => by trivial) argv
  · exact Method.unary_checked_iff rfl rfl (fun number => ⟨fun _ => by trivial, fun _ around => by
      simp [ExtAccount.generateOneTimeKeys, receives, defined_bind]⟩) argv
  · exact Method.nullary_checked_iff rfl (fun around => by
      simp [ExtAccount.lastError, receives, defined_bind]) (fun _ => by trivial) argv
  · exact Method.unary_checked_iff rfl rfl (fun message => sign_checked_iff receives) argv
  · exact Method.nullary_checked_iff rfl (fun around => by
      simp [ExtAccount.markKeysAsPublished, receives]) (fun _ => by trivial) argv
  · exact Method.nullary_checked_iff rfl (fun around => by
      simp [ExtAccount.maxNumberOfOneTimeKeys, receives]) (fun _ => by trivial) argv
  · exact Method.unary_checked_iff rfl rfl (fun session => removeOneTimeKeys_checked_iff receives) argv
  · refine Method.checked_iff_of_function _ fun counted => ?_
    rw [Option.all_some, decide_eq_true_iff] at counted
    obtain ⟨identityKey, preKey, rfl⟩ := List.length_eq_two.mp counted.symm
    exact ⟨fun _ => by trivial, fun _ => outboundSession_checked receives identityKey preKey⟩
  · exact Method.variadic_checked_iff rfl (fun argv => inboundSession_checked_iff receives) argv
  · refine Method.variadic_checked_iff rfl (fun argv => ?_) argv
    simp only [Checked, ExtAccount.toPickle, receives, returned_bind]
    exact toPickle_checked_iff

theorem session_checked_iff (listed : method ∈ sessionInit) (receives : dataGetStruct self .session = .returned ()) :
    (Checked fun around => method.call around self argv) ↔ method.Admits argv := by
  simp only [sessionInit, List.mem_cons, List.not_mem_nil, or_false] at listed
  rcases listed with rfl | rfl | rfl | rfl | rfl | rfl | rfl | rfl | rfl | rfl
  · refine Method.checked_iff_of_function _ fun counted => ?_
    rw [Option.all_some, decide_eq_true_iff] at counted
    obtain ⟨account, identity, oneTimeKey, rfl⟩ := List.length_eq_three.mp counted.symm
    exact initializeOutbound_checked_iff receives
  · exact Method.variadic_checked_iff rfl (initializeInbound_checked_iff receives) argv
  · exact Method.variadic_checked_iff rfl
      (fun argv => ⟨fun _ => by trivial, fun _ => initializeSession_checked receives argv⟩) argv
  · exact Method.nullary_checked_iff rfl (fun around => by
      simp [ExtSession.getSessionId, receives, defined_bind]) (fun _ => by trivial) argv
  · exact Method.nullary_checked_iff rfl (fun around => by
      simp [ExtSession.lastError, receives, defined_bind]) (fun _ => by trivial) argv
  · exact Method.nullary_checked_iff rfl (fun around => by
      simp [ExtSession.hasReceivedMessage, receives]) (fun _ => by trivial) argv
  · exact Method.unary_checked_iff rfl rfl (fun plain => encrypt_checked_iff receives) argv
  · exact Method.unary_checked_iff rfl rfl (fun cipher => decrypt_checked_iff receives) argv
  · refine Method.variadic_checked_iff rfl (fun argv => ?_) argv
    simp only [Checked, ExtSession.toPickle, receives, returned_bind]
    exact toPickle_checked_iff
  · exact Method.variadic_checked_iff rfl (fun argv => willReceive_checked_iff receives) argv

theorem utility_checked_iff (listed : method ∈ utilityInit) (receives : dataGetStruct self .utility = .returned ()) :
    (Checked fun around => method.call around self argv) ↔ method.Admits argv := by
  simp only [utilityInit, List.mem_cons, List.not_mem_nil, or_false] at listed
  rcases listed with rfl | rfl
  · exact Method.unary_checked_iff rfl rfl (fun data => sha256_checked_iff receives) argv
  · refine Method.checked_iff_of_function _ fun counted => ?_
    rw [Option.all_some, decide_eq_true_iff] at counted
    obtain ⟨data, key, signature, rfl⟩ := List.length_eq_three.mp counted.symm
    exact sha256_checked_iff receives

/-- A method of an object of its class, with any arguments, reads bytes of strings only and unwraps each struct from an
object of its class, whatever the library and the interpreter answer, exactly if it admits the arguments. -/
theorem registered_checked_iff (listed : method ∈ registered) (kind : self.kindOf method.owner) :
    (Checked fun around => method.call around self argv) ↔ method.Admits argv := by
  have receives (native : Native) (belongs : self.kindOf (.ofNative native)) :
      dataGetStruct self native = .returned () := dataGetStruct_eq_returned_iff.mpr belongs
  rw [registered, List.mem_append, List.mem_append] at listed
  rcases listed with (listed | listed) | listed
  · have owner : method.owner = .account := by
      simp only [accountInit, List.mem_cons, List.not_mem_nil, or_false] at listed
      rcases listed with rfl | rfl | rfl | rfl | rfl | rfl | rfl | rfl | rfl | rfl | rfl | rfl <;> rfl
    rw [owner] at kind
    exact account_checked_iff argv listed (receives .account kind)
  · have session : self.kindOf .session := by
      have owner : method.owner = .session ∨ method.owner = .outboundSession ∨ method.owner = .inboundSession := by
        simp only [sessionInit, List.mem_cons, List.not_mem_nil, or_false] at listed
        rcases listed with rfl | rfl | rfl | rfl | rfl | rfl | rfl | rfl | rfl | rfl <;> simp
      rcases owner with owner | owner | owner
      · rwa [owner] at kind
      · rw [owner] at kind
        exact Value.kindOf_session (.inl kind)
      · rw [owner] at kind
        exact Value.kindOf_session (.inr kind)
    exact session_checked_iff argv listed (receives .session session)
  · have owner : method.owner = .utility := by
      simp only [utilityInit, List.mem_cons, List.not_mem_nil, or_false] at listed
      rcases listed with rfl | rfl <;> rfl
    rw [owner] at kind
    exact utility_checked_iff argv listed (receives .utility kind)

end Registered

def signMethod : Method :=
  { owner := .account, name := "sign", function := .unary ExtAccount.sign, arity := some 1 }

theorem signMethod_registered : signMethod ∈ registered := by
  simp [registered, accountInit, signMethod]

/-- `account.sign("")` -/
theorem registered_checked_iff_sign :
    Checked fun around => signMethod.call around (.data .account .account rfl) [Value.newString []] :=
  (registered_checked_iff [Value.newString []] signMethod_registered (by decide)).mpr fun _ =>
    show (Value.newString []).kindOf .string from by decide

/-- `account.sign(nil)` -/
theorem registered_not_checked :
    ¬ ∀ method ∈ registered, ∀ self : Value, self.kindOf method.owner → ∀ argv,
      Checked fun around => method.call around self argv := by
  intro checked
  exact checked signMethod signMethod_registered (.data .account .account rfl) (by decide) [.nil] obliging rfl

end RubyOlm.Ruby
