import RubyOlm.Ruby.Object

/-!
# The native methods

The C functions of `ext_account.c`, `ext_session.c` and `ext_utility.c`, up to what they do with their arguments, and the
table that the three `…_init` install them in. What the library and the interpreter answer is a parameter.
-/

namespace RubyOlm.Ruby

open Outcome

/-- What lies outside the C functions. `size` is a function of the library that gives a number. `library` is one that
may fail, with the bytes that it leaves in its output. -/
structure Surroundings where
  toSize : Value → Option Nat
  random : Nat → Option Bytes
  malloc : Nat → Bool
  funcall : (method : String) → List Value → Option Value
  size : (function : String) → (arguments : List Nat) → Nat
  library : (function : String) → (arguments : List Bytes) → Option Bytes

variable (around : Surroundings)

def orRaise {α : Type} : Option α → Outcome α
  | some value => .returned value
  | none => .raised

/-- `NUM2SIZET` -/
def num2sizet (value : Value) : Outcome Nat := orRaise (around.toSize value)

def getRandom (size : Nat) : Outcome Bytes := orRaise (around.random size)

def malloc (size : Nat) : Outcome Unit := if around.malloc size then .returned () else .raised

/-- A call of the library; `raise_olm_error` if it fails. -/
def library (function : String) (arguments : List Bytes) : Outcome Bytes := orRaise (around.library function arguments)

def funcall (method : String) (arguments : List Value) : Outcome Value := orRaise (around.funcall method arguments)

def dupString (value : Value) : Outcome Bytes := rstring value

/-! ### rb_scan_args -/

/-- `"01"` -/
def scanOptional : (argv : List Value) → Outcome Value
  | [] => .returned .nil
  | [first] => .returned first
  | _ => .raised

/-- `"11"` -/
def scanOneOptional : (argv : List Value) → Outcome (Value × Value)
  | [first] => .returned (first, .nil)
  | [first, second] => .returned (first, second)
  | _ => .raised

/-- `"21"` -/
def scanTwoOptional : (argv : List Value) → Outcome (Value × Value × Value)
  | [first, second] => .returned (first, second, .nil)
  | [first, second, third] => .returned (first, second, third)
  | _ => .raised

/-- `"0:"`, and `rb_hash_aref` of the options for `:pickle` and `:password`. -/
def scanOptions : (argv : List Value) → Outcome (Value × Value)
  | [] => .returned (.nil, .nil)
  | [.hash _ _ pickle password] => .returned (pickle, password)
  | _ => .raised

/-- The check of an argument that may be missing. -/
def checkString (value : Value) : Outcome Unit := if value.isNil then .returned () else checkKind value .string

def orEmpty (password : Value) : Value := if password.isNil then Value.newString [] else password

/-! ### ext_session.c -/

namespace ExtSession

def lastError (self : Value) : Outcome Value := do
  dataGetStruct self .session
  let error ← library around "olm_session_last_error" []
  return Value.newString error

/-- `initialize` -/
def initializeSession (self : Value) (argv : List Value) : Outcome Value := do
  dataGetStruct self .session
  let (pickle, password) ← scanOneOptional argv
  checkKind pickle .string
  checkString password
  let password ← rstring (orEmpty password)
  let pickle ← dupString pickle
  let _ ← library around "olm_unpickle_session" [password, pickle]
  return self

def initializeOutbound (self account identity oneTimeKey : Value) : Outcome Value := do
  dataGetStruct self .session
  dataGetStruct account .account
  let size := around.size "olm_create_outbound_session_random_length" []
  if !account.instanceOf .account then .raised
  else
    checkKind identity .string
    checkKind oneTimeKey .string
    let identity ← rstring identity
    let oneTimeKey ← rstring oneTimeKey
    let random ← getRandom around size
    let _ ← library around "olm_create_outbound_session" [identity, oneTimeKey, random]
    return self

def initializeInbound (self : Value) (argv : List Value) : Outcome Value := do
  let (account, oneTimeMessage, identity) ← scanTwoOptional argv
  dataGetStruct self .session
  dataGetStruct account .account
  checkKind oneTimeMessage .preKeyMessage
  let oneTimeMessage ← toS oneTimeMessage
  if identity.isNil then
    let oneTimeMessage ← dupString oneTimeMessage
    let _ ← library around "olm_create_inbound_session" [oneTimeMessage]
    return self
  else
    let identity ← rstring identity
    let oneTimeMessage ← dupString oneTimeMessage
    let _ ← library around "olm_create_inbound_session_from" [identity, oneTimeMessage]
    return self

def hasReceivedMessage (self : Value) : Outcome Value := do
  dataGetStruct self .session
  return .boolean (around.size "olm_session_has_received_message" [] ≠ 0)

def getSessionId (self : Value) : Outcome Value := do
  dataGetStruct self .session
  let id ← library around "olm_session_id" []
  return Value.newString id

def willReceive (self : Value) (argv : List Value) : Outcome Value := do
  dataGetStruct self .session
  let (oneTimeMessage, identity) ← scanOneOptional argv
  checkKind oneTimeMessage .preKeyMessage
  let oneTimeMessage ← toS oneTimeMessage
  if identity.isNil then
    let oneTimeMessage ← dupString oneTimeMessage
    let result ← library around "olm_matches_inbound_session" [oneTimeMessage]
    return .boolean (result = [1])
  else
    let identity ← rstring identity
    let oneTimeMessage ← dupString oneTimeMessage
    let result ← library around "olm_matches_inbound_session_from" [identity, oneTimeMessage]
    return .boolean (result = [1])

/-- The class of the messages of this type, and an object of it. -/
def messageType (self : Value) : Outcome (Value → Value) := do
  dataGetStruct self .session
  if around.size "olm_encrypt_message_type" [] = 0 then return fun text => .object .preKeyMessage rfl (some text)
  else return fun text => .object .message rfl (some text)

def encrypt (self plain : Value) : Outcome Value := do
  dataGetStruct self .session
  let plain ← rstring plain
  let cipherSize := around.size "olm_encrypt_message_length" [plain.length]
  let randomSize := around.size "olm_encrypt_random_length" []
  malloc around cipherSize
  let type ← messageType around self
  let random ← getRandom around randomSize
  let message ← library around "olm_encrypt" [plain, random]
  return type (Value.newString message)

def decrypt (self cipher : Value) : Outcome Value := do
  dataGetStruct self .session
  if !(cipher.kindOf .message || cipher.kindOf .preKeyMessage) then .raised
  else
    let data ← toS cipher
    let input ← dupString data
    let plainMax ← library around "olm_decrypt_max_plaintext_length" [input]
    malloc around plainMax.length
    let data ← dupString data
    let plain ← library around "olm_decrypt" [data]
    return Value.newString plain

def toPickle (self : Value) (argv : List Value) : Outcome Value := do
  dataGetStruct self .session
  let password ← scanOptional argv
  malloc around (around.size "olm_pickle_session_length" [])
  let password ← rstring (orEmpty password)
  let pickle ← library around "olm_pickle_session" [password]
  return Value.newString pickle

end ExtSession

/-! ### ext_account.c -/

namespace ExtAccount

def lastError (self : Value) : Outcome Value := do
  dataGetStruct self .account
  let error ← library around "olm_account_last_error" []
  funcall around "RubyOlm::OlmError.from_string" [Value.newString error]

/-- `initialize` -/
def initializeAccount (self : Value) (argv : List Value) : Outcome Value := do
  dataGetStruct self .account
  let (pickle, password) ← scanOptions argv
  checkString pickle
  checkString password
  if !pickle.isNil then
    let password ← rstring (orEmpty password)
    let pickle ← dupString pickle
    let _ ← library around "olm_unpickle_account" [password, pickle]
    return self
  else
    let random ← getRandom around (around.size "olm_create_account_random_length" [])
    let _ ← library around "olm_create_account" [random]
    return self

def identityKeys (self : Value) : Outcome Value := do
  dataGetStruct self .account
  let json ← library around "olm_account_identity_keys" []
  funcall around "JSON.parse" [Value.newString json]

def generateOneTimeKeys (self number : Value) : Outcome Value := do
  dataGetStruct self .account
  let count ← num2sizet around number
  let size := around.size "olm_account_generate_one_time_keys_random_length" [count]
  let _ ← num2sizet around number
  let random ← getRandom around size
  let _ ← library around "olm_account_generate_one_time_keys" [random]
  return self

def oneTimeKeys (self : Value) : Outcome Value := do
  dataGetStruct self .account
  malloc around (around.size "olm_account_one_time_keys_length" [])
  let json ← library around "olm_account_one_time_keys" []
  funcall around "JSON.parse" [Value.newString json]

def sign (self message : Value) : Outcome Value := do
  dataGetStruct self .account
  malloc around (around.size "olm_account_signature_length" [])
  let message ← rstring message
  let signature ← library around "olm_account_sign" [message]
  return Value.newString signature

def markKeysAsPublished (self : Value) : Outcome Value := do
  dataGetStruct self .account
  return self

def maxNumberOfOneTimeKeys (self : Value) : Outcome Value := do
  dataGetStruct self .account
  return .integer (around.size "olm_account_max_number_of_one_time_keys" [])

def removeOneTimeKeys (self session : Value) : Outcome Value := do
  dataGetStruct self .account
  dataGetStruct session .session
  let _ ← library around "olm_remove_one_time_keys" []
  return self

/-- `RubyOlm::OutboundSession.new` -/
def outboundSession (self identityKey preKey : Value) : Outcome Value :=
  ExtSession.initializeOutbound around (.data .outboundSession .session rfl) self identityKey preKey

/-- `RubyOlm::InboundSession.new` -/
def inboundSession (self : Value) (argv : List Value) : Outcome Value := do
  let (oneTimeMessage, identity) ← scanOneOptional argv
  ExtSession.initializeInbound around (.data .inboundSession .session rfl) [self, oneTimeMessage, identity]

def toPickle (self : Value) (argv : List Value) : Outcome Value := do
  dataGetStruct self .account
  let password ← scanOptional argv
  malloc around (around.size "olm_pickle_account_length" [])
  let password ← rstring (orEmpty password)
  let pickle ← library around "olm_pickle_account" [password]
  return Value.newString pickle

end ExtAccount

/-! ### ext_utility.c -/

namespace ExtUtility

def sha256 (self data : Value) : Outcome Value := do
  dataGetStruct self .utility
  let data ← rstring data
  let digest ← library around "olm_sha256" [data]
  return Value.newString digest

end ExtUtility

/-! ### The table -/

/-- A function that takes `argc` and `argv`, or so many arguments. One that takes fewer than it is given does not look
at the others. -/
inductive Function where
  | variadic (body : Surroundings → (self : Value) → (argv : List Value) → Outcome Value)
  | nullary (body : Surroundings → (self : Value) → Outcome Value)
  | unary (body : Surroundings → (self first : Value) → Outcome Value)
  | binary (body : Surroundings → (self first second : Value) → Outcome Value)
  | ternary (body : Surroundings → (self first second third : Value) → Outcome Value)

def Function.call (around : Surroundings) (self : Value) (argv : List Value) : Function → Outcome Value
  | variadic body => body around self argv
  | nullary body => body around self
  | unary body =>
    match argv with
    | first :: _ => body around self first
    | _ => .undefined
  | binary body =>
    match argv with
    | first :: second :: _ => body around self first second
    | _ => .undefined
  | ternary body =>
    match argv with
    | first :: second :: third :: _ => body around self first second third
    | _ => .undefined

/-- An entry of the table; `arity` is `none` for -1. -/
structure Method where
  owner : RubyClass
  name : String
  function : Function
  arity : Option Nat

/-- A call; the interpreter raises an `ArgumentError` for the wrong number of arguments. -/
def Method.call (method : Method) (around : Surroundings) (self : Value) (argv : List Value) : Outcome Value :=
  if method.arity.all (· = argv.length) then method.function.call around self argv else .raised

def accountInit : List Method := [
  { owner := .account, name := "initialize", function := .variadic ExtAccount.initializeAccount, arity := none },
  { owner := .account, name := "identity_keys", function := .nullary ExtAccount.identityKeys, arity := some 0 },
  { owner := .account, name := "one_time_keys", function := .nullary ExtAccount.oneTimeKeys, arity := some 0 },
  { owner := .account, name := "generate_one_time_keys", function := .unary ExtAccount.generateOneTimeKeys,
    arity := some 1 },
  { owner := .account, name := "last_error", function := .nullary ExtAccount.lastError, arity := some 0 },
  { owner := .account, name := "sign", function := .unary ExtAccount.sign, arity := some 1 },
  { owner := .account, name := "mark_keys_as_published", function := .nullary fun _ => ExtAccount.markKeysAsPublished,
    arity := some 0 },
  { owner := .account, name := "max_number_of_one_time_keys", function := .nullary ExtAccount.maxNumberOfOneTimeKeys,
    arity := some 0 },
  { owner := .account, name := "remove_one_time_keys", function := .unary ExtAccount.removeOneTimeKeys,
    arity := some 1 },
  { owner := .account, name := "outbound_session", function := .binary ExtAccount.outboundSession, arity := some 2 },
  { owner := .account, name := "inbound_session", function := .variadic ExtAccount.inboundSession, arity := none },
  { owner := .account, name := "to_pickle", function := .variadic ExtAccount.toPickle, arity := none }]

def sessionInit : List Method := [
  { owner := .outboundSession, name := "initialize", function := .ternary ExtSession.initializeOutbound,
    arity := some 3 },
  { owner := .inboundSession, name := "initialize", function := .variadic ExtSession.initializeInbound, arity := none },
  { owner := .session, name := "initialize", function := .variadic ExtSession.initializeSession, arity := none },
  { owner := .session, name := "id", function := .nullary ExtSession.getSessionId, arity := some 0 },
  { owner := .session, name := "last_error", function := .nullary ExtSession.lastError, arity := some 0 },
  { owner := .session, name := "has_received_message", function := .nullary ExtSession.hasReceivedMessage,
    arity := some 0 },
  { owner := .session, name := "encrypt", function := .unary ExtSession.encrypt, arity := some 1 },
  { owner := .session, name := "decrypt", function := .unary ExtSession.decrypt, arity := some 1 },
  { owner := .session, name := "to_pickle", function := .variadic ExtSession.toPickle, arity := none },
  { owner := .session, name := "will_receive?", function := .variadic ExtSession.willReceive, arity := none }]

/-- `ed25519_verify` is `sha256`, with three arguments. -/
def utilityInit : List Method := [
  { owner := .utility, name := "sha256", function := .unary ExtUtility.sha256, arity := some 1 },
  { owner := .utility, name := "ed25519_verify", function := .unary ExtUtility.sha256, arity := some 3 }]

def registered : List Method := accountInit ++ sessionInit ++ utilityInit

end RubyOlm.Ruby
