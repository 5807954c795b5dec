import Mathlib.Data.List.Nodup
import RubyOlm.Account.KeysJson

/-!
# The store of one-time keys

What the one-time keys of an account are: a list that new keys go in front of, cut to its newest entries. The
account does as the list does in every run of its calls, and writes what is still unpublished as JSON.
-/

namespace RubyOlm

/-- The keys in the store, newest first, and the public keys of all that were ever put there. -/
structure KeyStore where
  keys : List OneTimeKey
  made : List PublicKey

namespace KeyStore

inductive Op where
  | generate (numberOfKeys : Nat) (random : Bytes)
  | markAsPublished
  | remove (publicKey : PublicKey)
  | lookup (publicKey : PublicKey)

inductive Answer where
  | count (count : Option Nat)
  | removed (id : Option UInt32)
  | found (key : Option OneTimeKey)

/-- The key pairs that so many chunks of the random bytes give. -/
def newKeys (curve : Curve25519) : (numberOfKeys : Nat) → (random : Bytes) → List Curve25519KeyPair
  | 0, _ => []
  | numberOfKeys + 1, random =>
    generateKey curve (Block.load 32 random) :: newKeys curve numberOfKeys (random.drop 32)

def put (store : KeyStore) (pair : Curve25519KeyPair) : KeyStore where
  keys := (⟨UInt32.ofNat (store.made.length + 1), false, pair⟩ :: store.keys).take maxOneTimeKeys
  made := pair.publicKey :: store.made

def find (store : KeyStore) (publicKey : PublicKey) : Option OneTimeKey :=
  store.keys.find? fun key => key.key.publicKey = publicKey

def unpublished (store : KeyStore) : List OneTimeKey := store.keys.filter fun key => !key.published

variable (crypto : Crypto)

def call (store : KeyStore) : Op → KeyStore × Answer
  | .generate numberOfKeys random =>
    ((newKeys crypto.curve25519 numberOfKeys random).foldl put store, .count (some numberOfKeys))
  | .markAsPublished =>
    ({ store with keys := store.keys.map fun key => { key with published := true } },
      .count (some store.unpublished.length))
  | .remove publicKey =>
    ({ store with keys := store.keys.filter fun key => key.key.publicKey ≠ publicKey },
      .removed ((store.find publicKey).map OneTimeKey.id))
  | .lookup publicKey => (store, .found (store.find publicKey))

def run (store : KeyStore) : (ops : List Op) → KeyStore × List Answer
  | [] => (store, [])
  | op :: ops =>
    let (store, answer) := store.call crypto op
    let (store, answers) := run store ops
    (store, answer :: answers)

/-- New keys differ from each other and from all before them, and there are enough random bytes and few enough
keys. -/
def Admits (store : KeyStore) : Op → Prop
  | .generate numberOfKeys random =>
    numberOfKeys < 2 ^ 32 ∧ 32 * numberOfKeys ≤ random.length ∧ store.made.length + numberOfKeys < 2 ^ 32 ∧
      (((newKeys crypto.curve25519 numberOfKeys random).map Curve25519KeyPair.publicKey).reverse ++ store.made).Nodup
  | _ => True

def AdmitsAll (store : KeyStore) : (ops : List Op) → Prop
  | [] => True
  | op :: ops => store.Admits crypto op ∧ AdmitsAll (store.call crypto op).1 ops

end KeyStore

namespace Account

variable (crypto : Crypto) (fuel : Nat)

/-- One call of the account; `none` is a call that does not return. -/
def call (account : Account) : KeyStore.Op → Option (Account × KeyStore.Answer)
  | .generate numberOfKeys random =>
    (account.generateOneTimeKeys crypto fuel numberOfKeys random).map fun done => (done.1, .count done.2)
  | .markAsPublished =>
    let (account, count) := account.markKeysAsPublished
    some (account, .count (some count))
  | .remove publicKey =>
    let (account, id) := account.removeKey publicKey
    some (account, .removed id)
  | .lookup publicKey => some (account, .found (account.lookupKey publicKey))

def run (account : Account) : (ops : List KeyStore.Op) → Option (Account × List KeyStore.Answer)
  | [] => some (account, [])
  | op :: ops =>
    match account.call crypto fuel op with
    | none => none
    | some (account, answer) => (run account ops).map fun done => (done.1, answer :: done.2)

end Account

/-! ### The store by itself -/

namespace KeyStore

variable {crypto : Crypto} {store : KeyStore}

structure Ok (store : KeyStore) : Prop where
  few : store.made.length < 2 ^ 32
  distinct : store.made.Nodup
  listed : (store.keys.map fun key => key.key.publicKey).Sublist store.made
  numbered : ∀ key ∈ store.keys, key.id.toNat ≤ store.made.length
  ordered : store.keys.Pairwise fun newer older => older.id < newer.id

theorem Ok.put (ok : store.Ok) {pair : Curve25519KeyPair} (few : store.made.length + 1 < 2 ^ 32)
    (new : pair.publicKey ∉ store.made) : (store.put pair).Ok := by
  have number : (UInt32.ofNat (store.made.length + 1)).toNat = store.made.length + 1 :=
    UInt32.toNat_ofNat_of_lt' few
  refine ⟨few, List.nodup_cons.mpr ⟨new, ok.distinct⟩, ?_, ?_, ?_⟩
  · refine List.Sublist.trans (List.Sublist.map _ (List.take_sublist _ _)) ?_
    rw [List.map_cons]
    exact ok.listed.cons_cons _
  · intro key mem
    rcases List.mem_cons.mp (List.mem_of_mem_take mem) with rfl | old
    · exact Nat.le_of_eq number
    · exact Nat.le_succ_of_le (ok.numbered key old)
  · refine List.Pairwise.sublist (List.take_sublist _ _) (List.pairwise_cons.mpr ⟨?_, ok.ordered⟩)
    intro key old
    rw [UInt32.lt_iff_toNat_lt, number]
    exact Nat.lt_succ_of_le (ok.numbered key old)

theorem Ok.sublist (ok : store.Ok) {keys : List OneTimeKey} (fewer : keys.Sublist store.keys) :
    Ok { store with keys } where
  few := ok.few
  distinct := ok.distinct
  listed := (fewer.map _).trans ok.listed
  numbered key mem := ok.numbered key (fewer.subset mem)
  ordered := ok.ordered.sublist fewer

theorem Ok.markAsPublished (ok : store.Ok) :
    Ok { store with keys := store.keys.map fun key => { key with published := true } } where
  few := ok.few
  distinct := ok.distinct
  listed := by
    rw [List.map_map]
    exact ok.listed
  numbered key mem := by
    obtain ⟨old, listed, rfl⟩ := List.mem_map.mp mem
    exact ok.numbered old listed
  ordered := List.pairwise_map.mpr ok.ordered

theorem Ok.putAll (ok : store.Ok) {pairs : List Curve25519KeyPair} (few : store.made.length + pairs.length < 2 ^ 32)
    (new : ((pairs.map Curve25519KeyPair.publicKey).reverse ++ store.made).Nodup) : (pairs.foldl KeyStore.put store).Ok := by
  induction pairs generalizing store with
  | nil => exact ok
  | cons pair pairs ih =>
    rw [List.map_cons, List.reverse_cons, List.append_assoc, List.singleton_append] at new
    rw [List.length_cons] at few
    have here : pair.publicKey ∉ store.made := (List.nodup_cons.mp (List.nodup_append.mp new).2.1).1
    apply ih (ok.put (by omega) here)
    · simp only [KeyStore.put, List.length_cons]
      omega
    · exact new

theorem length_newKeys (curve : Curve25519) (numberOfKeys : Nat) (random : Bytes) :
    (newKeys curve numberOfKeys random).length = numberOfKeys := by
  induction numberOfKeys generalizing random with
  | zero => rfl
  | succ numberOfKeys ih => rw [newKeys, List.length_cons, ih]

theorem Ok.call (ok : store.Ok) {op : Op} (admits : store.Admits crypto op) : (store.call crypto op).1.Ok := by
  cases op with
  | generate numberOfKeys random =>
    obtain ⟨-, -, few, new⟩ := admits
    exact ok.putAll (by rwa [length_newKeys]) new
  | markAsPublished => exact ok.markAsPublished
  | remove publicKey => exact ok.sublist (List.filter_sublist)
  | lookup publicKey => exact ok

/-- The key that is found is the only one in the store. -/
theorem Ok.find_eq_some_iff (ok : store.Ok) {publicKey : PublicKey} {key : OneTimeKey} :
    store.find publicKey = some key ↔ key ∈ store.keys ∧ key.key.publicKey = publicKey := by
  have distinct := ok.listed.nodup ok.distinct
  constructor
  · intro found
    exact ⟨List.mem_of_find?_eq_some found, by simpa using List.find?_some found⟩
  · rintro ⟨mem, rfl⟩
    rcases found : store.find key.key.publicKey with _ | other
    · have absent := List.find?_eq_none.mp found key mem
      simp at absent
    · have same : other.key.publicKey = key.key.publicKey := by simpa using List.find?_some found
      rw [List.inj_on_of_nodup_map distinct (List.mem_of_find?_eq_some found) mem same]

end KeyStore

namespace Account

open KeyStore

variable {crypto : Crypto} {fuel : Nat} {account account' : Account} {store : KeyStore}

/-! ### The account does as the store -/

structure Refines (account : Account) (store : KeyStore) : Prop where
  keys : account.oneTimeKeys.toList = store.keys
  next : account.nextOneTimeKeyId = UInt32.ofNat store.made.length

theorem Refines.generateOneTimeKey (refines : account.Refines store) (random : Bytes) :
    (account.generateOneTimeKey crypto random).Refines
      (store.put (generateKey crypto.curve25519 (Block.load 32 random))) where
  keys := by
    rw [Account.generateOneTimeKey, OlmList.toList_pushFront _ _ (by decide), refines.keys, refines.next, put,
      UInt32.ofNat_add]
    rfl
  next := by
    rw [Account.generateOneTimeKey, put, refines.next, List.length_cons, UInt32.ofNat_add]
    rfl

variable (crypto) in
theorem Refines.generateLoop (refines : account.Refines store) {numberOfKeys left : Nat} (few : numberOfKeys < 2 ^ 32)
    {i : UInt32} (turns : i.toNat + left = numberOfKeys) (enough : left < fuel) (random : Bytes) :
    ∃ account', generateLoop crypto numberOfKeys fuel i random account = some account' ∧
      account'.Refines ((newKeys crypto.curve25519 left random).foldl put store) := by
  induction fuel generalizing account store left i random with
  | zero => omega
  | succ fuel ih =>
    rw [Account.generateLoop]
    cases left with
    | zero =>
      rw [if_neg (by omega)]
      exact ⟨account, rfl, refines⟩
    | succ left =>
      rw [if_pos (by omega)]
      have one : (1 : UInt32).toNat = 1 := rfl
      have next : (i + 1).toNat + left = numberOfKeys := by
        rw [UInt32.toNat_add, one]
        omega
      exact ih (refines.generateOneTimeKey random) next (by omega) (random.drop 32)

/-- With different keys, the first entry with a key is the only one. -/
theorem eraseIdx_eq_filter {keys : List OneTimeKey} (distinct : (keys.map fun key => key.key.publicKey).Nodup)
    {publicKey : PublicKey} {pos : Nat}
    (found : keys.findIdx? (fun key => key.key.publicKey = publicKey) = some pos) :
    keys.eraseIdx pos = keys.filter (fun key => key.key.publicKey ≠ publicKey) ∧
      keys[pos]? = keys.find? fun key => key.key.publicKey = publicKey := by
  induction keys generalizing pos with
  | nil => cases found
  | cons key keys ih =>
    obtain ⟨new, distinct⟩ := List.nodup_cons.mp distinct
    rw [List.findIdx?_cons] at found
    split at found
    · rename_i here
      obtain rfl := Option.some.inj found
      have here : key.key.publicKey = publicKey := of_decide_eq_true here
      have others : keys.filter (fun key => key.key.publicKey ≠ publicKey) = keys := by
        rw [List.filter_eq_self]
        intro other mem
        rw [decide_eq_true_eq]
        rintro rfl
        exact new (List.mem_map.mpr ⟨other, mem, here.symm⟩)
      rw [List.filter_cons_of_neg (by simpa using here), others, List.find?_cons_of_pos (by simpa using here)]
      exact ⟨rfl, rfl⟩
    · rename_i elsewhere
      obtain ⟨pos, later, rfl⟩ := Option.map_eq_some_iff.mp found
      obtain ⟨erased, read⟩ := ih distinct later
      rw [List.filter_cons_of_pos (by simpa using elsewhere), List.find?_cons_of_neg (by simpa using elsewhere),
        List.eraseIdx_cons_succ, erased, List.getElem?_cons_succ, read]
      exact ⟨rfl, rfl⟩

theorem Refines.removeKey (refines : account.Refines store) (ok : store.Ok) (publicKey : PublicKey) :
    (account.removeKey publicKey).1.Refines
        { store with keys := store.keys.filter fun key => key.key.publicKey ≠ publicKey } ∧
      (account.removeKey publicKey).2 = (store.find publicKey).map OneTimeKey.id := by
  have distinct := ok.listed.nodup ok.distinct
  unfold Account.removeKey
  rw [refines.keys]
  rcases found : store.keys.findIdx? (fun key => key.key.publicKey = publicKey) with _ | pos
  · have absent := List.findIdx?_eq_none_iff.mp found
    have all : store.keys.filter (fun key => key.key.publicKey ≠ publicKey) = store.keys := by
      rw [List.filter_eq_self]
      intro key mem
      simpa using absent key mem
    have none : store.find publicKey = none := by
      rw [find, List.find?_eq_none]
      intro key mem
      simpa using absent key mem
    simp only [found]
    rw [all, none]
    exact ⟨refines, rfl⟩
  · obtain ⟨erased, read⟩ := eraseIdx_eq_filter distinct found
    have live : pos < account.oneTimeKeys.size := by
      rw [← OlmList.length_toList, refines.keys]
      exact (List.findIdx?_eq_some_iff_getElem.mp found).1
    simp only [found]
    refine ⟨⟨?_, refines.next⟩, ?_⟩
    · rw [OlmList.toList_erase _ live, refines.keys, erased]
    · rw [read]
      rfl

/-- One call: it returns, and answers what the store answers. -/
theorem Refines.call (refines : account.Refines store) (ok : store.Ok) (enough : 2 ^ 32 ≤ fuel) {op : Op}
    (admits : store.Admits crypto op) :
    ∃ account', account.call crypto fuel op = some (account', (store.call crypto op).2) ∧
      account'.Refines (store.call crypto op).1 := by
  cases op with
  | generate numberOfKeys random =>
    obtain ⟨few, long, -, -⟩ := admits
    have zero : (0 : UInt32).toNat + numberOfKeys = numberOfKeys := Nat.zero_add _
    obtain ⟨account', looped, refines'⟩ :=
      refines.generateLoop crypto few zero (Nat.lt_of_lt_of_le few enough) random
    refine ⟨account', ?_, refines'⟩
    have room : ¬ random.length < generateOneTimeKeysRandomLength numberOfKeys := by
      unfold generateOneTimeKeysRandomLength
      omega
    rw [Account.call, generateOneTimeKeys, if_neg room, looped]
    rfl
  | markAsPublished =>
    refine ⟨account.markKeysAsPublished.1, ?_, ?_, refines.next⟩
    · rw [Account.call, KeyStore.call, unpublished, ← refines.keys]
      rfl
    · rw [toList_markKeysAsPublished, refines.keys]
      rfl
  | remove publicKey =>
    obtain ⟨refines', answer⟩ := refines.removeKey ok publicKey
    refine ⟨(account.removeKey publicKey).1, ?_, refines'⟩
    rw [Account.call, KeyStore.call, ← answer]
  | lookup publicKey =>
    refine ⟨account, ?_, refines⟩
    rw [Account.call, KeyStore.call, lookupKey, refines.keys]
    rfl

theorem Refines.run (refines : account.Refines store) (ok : store.Ok) (enough : 2 ^ 32 ≤ fuel) {ops : List Op}
    (admits : store.AdmitsAll crypto ops) :
    ∃ account', account.run crypto fuel ops = some (account', (store.run crypto ops).2) ∧
      account'.Refines (store.run crypto ops).1 ∧ (store.run crypto ops).1.Ok := by
  induction ops generalizing account store with
  | nil => exact ⟨account, rfl, refines, ok⟩
  | cons op ops ih =>
    obtain ⟨here, later⟩ := admits
    obtain ⟨account₁, called, refines₁⟩ := refines.call ok enough here
    obtain ⟨account₂, ran, refines₂, ok₂⟩ := ih refines₁ (ok.call here) later
    refine ⟨account₂, ?_, refines₂, ok₂⟩
    rw [Account.run, called]
    dsimp only
    rw [ran]
    rfl

/-- The text that an account writes of its unpublished keys: as long as announced, and an object with one
member for each of them, no two under one name. -/
structure WritesUnpublished (account : Account) (store : KeyStore) (jsonLength : Nat) (text : Bytes) : Prop where
  written : account.getOneTimeKeysJson jsonLength = (account, some text)
  length : text.length = account.getOneTimeKeysJsonLength
  parsed : Json.parse text = some (keysObject store.unpublished)
  distinct : (store.unpublished.map idText).Nodup

theorem Refines.writes (refines : account.Refines store) (ok : store.Ok) {jsonLength : Nat}
    (room : account.getOneTimeKeysJsonLength ≤ jsonLength) : ∃ text, account.WritesUnpublished store jsonLength text := by
  have unpublished : account.oneTimeKeys.toList.filter (fun key => !key.published) = store.unpublished := by
    rw [refines.keys]
    rfl
  refine ⟨(keysObject store.unpublished).render, ?_, ?_, Json.parse_render _ (plain_keysObject _), ?_⟩
  · rw [getOneTimeKeysJson_eq account room, unpublished]
  · rw [← unpublished, length_keysObject]
  · have ordered : store.unpublished.Pairwise fun newer older => older.id < newer.id :=
      ok.ordered.sublist List.filter_sublist
    refine List.pairwise_map.mpr (ordered.imp ?_)
    intro newer older less same
    have ids := congrArg loadBigEndian (encodeBase64_inj same)
    rw [loadBigEndian_bigEndian, loadBigEndian_bigEndian] at ids
    rw [ids] at less
    exact UInt32.lt_irrefl _ less

theorem newAccount_refines {memory : Account} {random : Bytes}
    (created : (new memory).newAccount crypto random = (account, some ())) : account.Refines ⟨[], []⟩ := by
  unfold newAccount at created
  split at created
  · cases created
  · obtain ⟨rfl, -⟩ := Prod.mk.inj created
    exact ⟨OlmList.toList_new _, rfl⟩

/-- In every run from a new account, all calls return and answer what the list of keys answers; the keys are
those of the list, in the order of their ids. -/
theorem keys_refine_store {memory : Account} {random : Bytes}
    (created : (new memory).newAccount crypto random = (account, some ())) (enough : 2 ^ 32 ≤ fuel) {ops : List Op}
    (admits : (⟨[], []⟩ : KeyStore).AdmitsAll crypto ops) :
    let (store, answers) := (⟨[], []⟩ : KeyStore).run crypto ops
    ∃ account', account.run crypto fuel ops = some (account', answers) ∧
      account'.oneTimeKeys.toList = store.keys ∧
      store.keys.Pairwise (fun newer older => older.id < newer.id) ∧
      (∀ publicKey key, account'.lookupKey publicKey = some key ↔ key ∈ store.keys ∧ key.key.publicKey = publicKey) ∧
      ∀ jsonLength, account'.getOneTimeKeysJsonLength ≤ jsonLength →
        ∃ text, account'.WritesUnpublished store jsonLength text := by
  have start : (⟨[], []⟩ : KeyStore).Ok := ⟨by decide, List.nodup_nil, List.nil_sublist _, nofun, .nil⟩
  obtain ⟨account', ran, refines, ok⟩ := (newAccount_refines created).run start enough admits
  refine ⟨account', ran, refines.keys, ok.ordered, ?_, fun jsonLength room => refines.writes ok room⟩
  intro publicKey key
  rw [← ok.find_eq_some_iff, lookupKey, refines.keys]
  rfl

/-- Public keys are private keys. -/
def openCrypto : Crypto := { Crypto.plain with curve25519 := fun secret _ => secret }

def repeated (byte : UInt8) : Block 32 := ⟨List.replicate 32 byte, rfl⟩

theorem keys_refine_store_open :
    let ops : List Op := [.generate 2 ((repeated 1).val ++ (repeated 2).val), .markAsPublished,
      .generate 1 (repeated 3).val, .remove (repeated 2)]
    let account := ((new clearAccount).newAccount openCrypto (Block.zero 64).val).1
    ∃ account' answers, account.run openCrypto (2 ^ 32) ops = some (account', answers) ∧
      account'.oneTimeKeys.toList.map OneTimeKey.id = [3, 1] := by
  intro ops account
  have created : (new clearAccount).newAccount openCrypto (Block.zero 64).val = (account, some ()) := rfl
  have admits : (⟨[], []⟩ : KeyStore).AdmitsAll openCrypto ops :=
    ⟨⟨by decide, by decide, by decide, by decide⟩, trivial, ⟨by decide, by decide, by decide, by decide⟩, trivial, trivial⟩
  obtain ⟨account', ran, keys, -⟩ := keys_refine_store created (Nat.le_refl _) admits
  refine ⟨account', _, ran, ?_⟩
  rw [keys]
  rfl

end Account

end RubyOlm
