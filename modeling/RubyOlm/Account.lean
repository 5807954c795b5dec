import RubyOlm.Base64
import RubyOlm.List
import RubyOlm.Crypto

/-!
# Accounts

`account.cpp`: the identity keys and the one-time keys of a device.
-/

namespace RubyOlm

structure IdentityKeys where
  ed25519Key : Ed25519KeyPair
  curve25519Key : Curve25519KeyPair

structure OneTimeKey where
  id : UInt32
  published : Bool
  key : Curve25519KeyPair

def maxOneTimeKeys : Nat := 100

structure Account where
  identityKeys : IdentityKeys
  oneTimeKeys : OlmList OneTimeKey maxOneTimeKeys
  nextOneTimeKeyId : UInt32
  lastError : OlmErrorCode

def clearAccount : Account where
  identityKeys := ⟨⟨Block.zero 32, Block.zero 64⟩, ⟨Block.zero 32, Block.zero 32⟩⟩
  oneTimeKeys := OlmList.new (Vector.replicate maxOneTimeKeys ⟨0, false, ⟨Block.zero 32, Block.zero 32⟩⟩)
  nextOneTimeKeyId := 0
  lastError := .success

namespace Account

/-- The constructor, over memory that already holds `memory`. -/
def new (memory : Account) : Account :=
  { memory with
    oneTimeKeys := OlmList.new memory.oneTimeKeys.data
    nextOneTimeKeyId := 0
    lastError := .success }

def lookupKey (account : Account) (publicKey : PublicKey) : Option OneTimeKey :=
  account.oneTimeKeys.toList.find? fun key => key.key.publicKey = publicKey

/-- `remove_key`; the id it returns is that of the first key with the public key. -/
def removeKey (account : Account) (publicKey : PublicKey) : Account × Option UInt32 :=
  match account.oneTimeKeys.toList.findIdx? fun key => key.key.publicKey = publicKey with
  | none => (account, none)
  | some pos =>
    ({ account with oneTimeKeys := account.oneTimeKeys.erase pos },
      account.oneTimeKeys.toList[pos]?.map OneTimeKey.id)

def newAccountRandomLength : Nat := 32 + 32

def newAccount (crypto : Crypto) (account : Account) (random : Bytes) : Account × Option Unit :=
  if random.length < newAccountRandomLength then ({ account with lastError := .notEnoughRandom }, none)
  else
    ({ account with
        identityKeys :=
          { ed25519Key := crypto.ed25519.createKeypair (Block.load 32 random)
            curve25519Key := generateKey crypto.curve25519 (Block.load 32 (random.drop 32)) } }, some ())

def markKeysAsPublished (account : Account) : Account × Nat :=
  let mark (key : OneTimeKey) (live : Bool) : OneTimeKey := if live then { key with published := true } else key
  ({ account with oneTimeKeys :=
      { account.oneTimeKeys with
        data := account.oneTimeKeys.data.mapFinIdx fun i key _ => mark key (i < account.oneTimeKeys.size) } },
    (account.oneTimeKeys.toList.filter fun key => !key.published).length)

def generateOneTimeKeysRandomLength (numberOfKeys : Nat) : Nat := 32 * numberOfKeys % 2 ^ 64

def generateOneTimeKey (crypto : Crypto) (account : Account) (random : Bytes) : Account :=
  let id := account.nextOneTimeKeyId + 1
  { account with
    nextOneTimeKeyId := id
    oneTimeKeys := account.oneTimeKeys.pushFront ⟨id, false, generateKey crypto.curve25519 (Block.load 32 random)⟩ }

/-- The loop of `generate_one_time_keys`. Its counter is an `unsigned`, so it never ends when there are `2 ^ 32`
keys to make or more; `none` is a loop that goes on. -/
def generateLoop (crypto : Crypto) (numberOfKeys : Nat) :
    (fuel : Nat) → (i : UInt32) → (random : Bytes) → Account → Option Account
  | 0, _, _, _ => none
  | fuel + 1, i, random, account =>
    if i.toNat < numberOfKeys then
      generateLoop crypto numberOfKeys fuel (i + 1) (random.drop 32) (account.generateOneTimeKey crypto random)
    else some account

/-- `generate_one_time_keys`, for `fuel` tests of the loop's condition. -/
def generateOneTimeKeys (crypto : Crypto) (fuel : Nat) (account : Account) (numberOfKeys : Nat) (random : Bytes) :
    Option (Account × Option Nat) :=
  if random.length < generateOneTimeKeysRandomLength numberOfKeys then
    some ({ account with lastError := .notEnoughRandom }, none)
  else (generateLoop crypto numberOfKeys fuel 0 random account).map fun account => (account, some numberOfKeys)

/-! ### Keys as JSON -/

def keyJsonCurve25519 : Bytes := ascii "\"curve25519\":"

/-- One turn of the loop of `get_one_time_keys_json_length`: the length, and whether no key was counted yet. -/
def countKey (done : Nat × Bool) (key : OneTimeKey) : Nat × Bool :=
  if key.published then done else (done.1 + 2 + encodeBase64Length 4 + 3 + encodeBase64Length 32 + 1, false)

def getOneTimeKeysJsonLength (account : Account) : Nat :=
  let (length, isEmpty) := account.oneTimeKeys.toList.foldl countKey (0, true)
  (if isEmpty then length + 1 else length) + 3 + keyJsonCurve25519.length

/-- What the loop of `get_one_time_keys_json` writes for one key: `sep`, and the id and the key as strings. -/
def oneTimeKeyJson (sep : UInt8) (key : OneTimeKey) : Bytes :=
  [sep, 0x22] ++ encodeBase64 (bigEndian key.id) ++ [0x22, 0x3A, 0x22] ++ encodeBase64 key.key.publicKey.val ++ [0x22]

/-- One turn of that loop: the bytes so far, and what goes before the next key. -/
def writeKey (done : Bytes × UInt8) (key : OneTimeKey) : Bytes × UInt8 :=
  if key.published then done else (done.1 ++ oneTimeKeyJson done.2 key, 0x2C)

/-- `get_one_time_keys_json`, into a buffer of `jsonLength` bytes: the bytes written. -/
def getOneTimeKeysJson (account : Account) (jsonLength : Nat) : Account × Option Bytes :=
  if jsonLength < account.getOneTimeKeysJsonLength then ({ account with lastError := .outputBufferTooSmall }, none)
  else
    let (json, sep) := account.oneTimeKeys.toList.foldl writeKey ([0x7B] ++ keyJsonCurve25519, 0x7B)
    -- an empty list has not had its brace yet
    let json := if sep ≠ 0x2C then json ++ [sep] else json
    (account, some (json ++ [0x7D, 0x7D]))

/-! ### Keys that belong together -/

/-- Every public key is that of the private key next to it. -/
structure Keyed (curve : Curve25519) (account : Account) : Prop where
  identity : account.identityKeys.curve25519Key.Generated curve
  oneTime : ∀ key ∈ account.oneTimeKeys.toList, key.key.Generated curve

/-- The accounts that the library makes. -/
inductive Made (crypto : Crypto) : Account → Prop
  | create {memory account : Account} {random : Bytes}
      (created : (new memory).newAccount crypto random = (account, some ())) : Made crypto account
  | markPublished {account : Account} (made : Made crypto account) : Made crypto account.markKeysAsPublished.1
  | generate {account account' : Account} {fuel numberOfKeys : Nat} {random : Bytes} {result : Option Nat}
      (made : Made crypto account)
      (done : account.generateOneTimeKeys crypto fuel numberOfKeys random = some (account', result)) :
      Made crypto account'
  | remove {account : Account} (made : Made crypto account) (publicKey : PublicKey) :
      Made crypto (account.removeKey publicKey).1

variable {crypto : Crypto} {account account' : Account}

theorem newAccount_keyed {memory : Account} {random : Bytes}
    (created : (new memory).newAccount crypto random = (account, some ())) : account.Keyed crypto.curve25519 := by
  unfold newAccount at created
  split at created
  · cases created
  · obtain ⟨rfl, -⟩ := Prod.mk.inj created
    refine ⟨generateKey_generated _ _, ?_⟩
    intro key mem
    rw [new, OlmList.toList_new] at mem
    cases mem

theorem toList_markKeysAsPublished (account : Account) :
    account.markKeysAsPublished.1.oneTimeKeys.toList =
      account.oneTimeKeys.toList.map fun key => { key with published := true } := by
  apply List.ext_getElem?
  intro i
  rw [OlmList.getElem?_toList, List.getElem?_map, OlmList.getElem?_toList, Account.markKeysAsPublished]
  by_cases live : i < account.oneTimeKeys.size
  · have bound : i < maxOneTimeKeys := Nat.lt_of_lt_of_le live account.oneTimeKeys.size_le
    rw [if_pos live, if_pos live, Vector.getElem?_eq_getElem bound, Vector.getElem?_eq_getElem bound,
      Vector.getElem_mapFinIdx, decide_eq_true live]
    rfl
  · rw [if_neg live, if_neg live]
    rfl

theorem Keyed.markKeysAsPublished (keyed : account.Keyed crypto.curve25519) :
    account.markKeysAsPublished.1.Keyed crypto.curve25519 := by
  refine ⟨keyed.identity, ?_⟩
  intro key mem
  rw [toList_markKeysAsPublished] at mem
  obtain ⟨old, listed, rfl⟩ := List.mem_map.mp mem
  exact keyed.oneTime old listed

theorem Keyed.generateOneTimeKey (keyed : account.Keyed crypto.curve25519) (random : Bytes) :
    (account.generateOneTimeKey crypto random).Keyed crypto.curve25519 := by
  refine ⟨keyed.identity, ?_⟩
  intro key mem
  rw [Account.generateOneTimeKey, OlmList.toList_pushFront _ _ (by decide)] at mem
  rcases List.mem_cons.mp (List.mem_of_mem_take mem) with rfl | old
  · exact generateKey_generated _ _
  · exact keyed.oneTime key old

theorem Keyed.generateLoop (keyed : account.Keyed crypto.curve25519) {numberOfKeys fuel : Nat} {i : UInt32}
    {random : Bytes} (done : generateLoop crypto numberOfKeys fuel i random account = some account') :
    account'.Keyed crypto.curve25519 := by
  induction fuel generalizing i random account with
  | zero => cases done
  | succ fuel ih =>
    rw [Account.generateLoop] at done
    split at done
    · exact ih (keyed.generateOneTimeKey random) done
    · obtain rfl := Option.some.inj done
      exact keyed

theorem Keyed.removeKey (keyed : account.Keyed crypto.curve25519) (publicKey : PublicKey) :
    (account.removeKey publicKey).1.Keyed crypto.curve25519 := by
  unfold Account.removeKey
  split
  · exact keyed
  · rename_i pos found
    have live : pos < account.oneTimeKeys.size := by
      rw [← OlmList.length_toList]
      exact (List.findIdx?_eq_some_iff_getElem.mp found).1
    refine ⟨keyed.identity, ?_⟩
    intro key mem
    rw [OlmList.toList_erase _ live] at mem
    exact keyed.oneTime key (List.mem_of_mem_eraseIdx mem)

theorem Made.keyed (made : Made crypto account) : account.Keyed crypto.curve25519 := by
  induction made with
  | create created => exact newAccount_keyed created
  | markPublished _ ih => exact ih.markKeysAsPublished
  | generate _ done ih =>
    unfold generateOneTimeKeys at done
    split at done
    · obtain ⟨rfl, -⟩ := Prod.mk.inj (Option.some.inj done)
      exact ⟨ih.identity, ih.oneTime⟩
    · obtain ⟨account', looped, same⟩ := Option.map_eq_some_iff.mp done
      obtain ⟨rfl, -⟩ := Prod.mk.inj same
      exact ih.generateLoop looped
  | remove _ publicKey ih => exact ih.removeKey publicKey

end Account

end RubyOlm
