import RubyOlm.DoubleRatchet.Decrypted
import RubyOlm.Theory.Exchange

/-!
# The key schedule

The keys of every chain and place of an exchange, from the shared secret and the ratchet keys, and what a
ratchet holds when it stands for a party of an exchange. With free key derivation, places of one
exchange never share a key.
-/

namespace RubyOlm.Ratchet

open Exchange

variable {Key Msg : Type} (ops : RatchetOps Key Msg) (secret : Bytes)

/-- The root key after a chain was started, and the first key of the chain. -/
def derived : (chain : List Curve25519KeyPair) → Key × Key
  | [] => (ops.zeroKey, ops.zeroKey)
  | [_] => ops.hkdf secret none ops.kdfInfo.rootInfo
  | pair :: last :: before =>
    ops.hkdf (sharedSecret ops.curve25519 pair last.publicKey).val (some (derived (last :: before)).1)
      ops.kdfInfo.ratchetInfo

def chainKeyAt (place : Place Curve25519KeyPair) : Key :=
  ops.chain chainKeySeed place.position (derived ops secret place.chain).2

def placeKey (place : Place Curve25519KeyPair) : Key := ops.hmac (chainKeyAt ops secret place) messageKeySeed

def ratchetKeyOf : (chain : List Curve25519KeyPair) → PublicKey
  | [] => Block.zero 32
  | pair :: _ => pair.publicKey

def counterOf (place : Place Curve25519KeyPair) : UInt32 := UInt32.ofNat place.position

theorem messageKeyAt_chainKeyAt (place : Place Curve25519KeyPair) (distance : Nat) :
    messageKeyAt ops (chainKeyAt ops secret place) distance =
      placeKey ops secret ⟨place.chain, place.position + distance⟩ := by
  unfold messageKeyAt
  rw [placeKey, chainKeyAt, chainKeyAt, ← ops.chain_add, Nat.add_comm]

theorem chain_chainKeyAt (place : Place Curve25519KeyPair) (distance : Nat) :
    ops.chain chainKeySeed distance (chainKeyAt ops secret place) =
      chainKeyAt ops secret ⟨place.chain, place.position + distance⟩ := by
  rw [chainKeyAt, chainKeyAt, ← ops.chain_add, Nat.add_comm]

theorem chainKeyAt_succ (chain : List Curve25519KeyPair) (position : Nat) :
    chainKeyAt ops secret ⟨chain, position + 1⟩ = ops.hmac (chainKeyAt ops secret ⟨chain, position⟩) chainKeySeed :=
  ops.chain_succ _ _ _

theorem counterOf_add (chain : List Curve25519KeyPair) (position distance : Nat) :
    counterOf ⟨chain, position + distance⟩ = counterOf ⟨chain, position⟩ + UInt32.ofNat distance :=
  UInt32.ofNat_add _ _

theorem toNat_counterOf {place : Place Curve25519KeyPair} (small : place.position < 2 ^ 32) :
    (counterOf place).toNat = place.position := UInt32.toNat_ofNat_of_lt' small

/-! ### Different places, different keys -/

section Free

variable {ops} (free : ops.Free)
include free

theorem derived_root {chain : List Curve25519KeyPair} (started : chain ≠ []) :
    ops.Root (derived ops secret chain).2 := by
  rcases chain with _ | ⟨pair, _ | ⟨last, before⟩⟩
  · exact absurd rfl started
  · exact free.snd_root _ _ _
  · exact free.snd_root _ _ _

theorem root_depth : ∃ depth : Key → Nat, ∀ {chain : List Curve25519KeyPair} (newer : List Curve25519KeyPair),
    chain ≠ [] → newer ≠ [] →
      depth (derived ops secret chain).1 < depth (derived ops secret (newer ++ chain)).1 := by
  obtain ⟨depth, -, deeper, -⟩ := free.depth
  refine ⟨depth, ?_⟩
  intro chain newer started some
  induction newer with
  | nil => exact absurd rfl some
  | cons pair newer ih =>
    obtain ⟨last, before, whole⟩ : ∃ last before, newer ++ chain = last :: before :=
      List.exists_cons_of_ne_nil (by simp [started])
    have step : depth (derived ops secret (newer ++ chain)).1 <
        depth (derived ops secret (pair :: newer ++ chain)).1 := by
      rw [List.cons_append, whole]
      exact deeper _ _ _
    rcases newer with _ | ⟨next, newer⟩
    · exact step
    · exact Nat.lt_trans (ih (List.cons_ne_nil _ _)) step

/-- Among the histories of one exchange, the root key tells which it is. -/
theorem root_inj {whole chain chain' : List Curve25519KeyPair} (started : chain ≠ []) (started' : chain' ≠ [])
    (suffix : chain <:+ whole) (suffix' : chain' <:+ whole)
    (same : (derived ops secret chain).1 = (derived ops secret chain').1) : chain = chain' := by
  obtain ⟨depth, deeper⟩ := root_depth secret free
  have longer {a b : List Curve25519KeyPair} (started : a ≠ []) (suffix : a <:+ b)
      (same : (derived ops secret a).1 = (derived ops secret b).1) : a = b := by
    obtain ⟨newer, rfl⟩ := suffix
    rcases newer with _ | ⟨pair, newer⟩
    · rfl
    · have := deeper (pair :: newer) started (List.cons_ne_nil _ _)
      rw [same] at this
      omega
  rcases List.suffix_or_suffix_of_suffix suffix suffix' with h | h
  · exact longer started h same
  · exact (longer started' h same.symm).symm

/-- A chain key made from a root key of the exchange starts the chain after that root key. -/
theorem chain_follows {chain rest : List Curve25519KeyPair} {whole : List Curve25519KeyPair} {input : Bytes}
    (started : chain ≠ []) (before : rest ≠ []) (suffix : chain <:+ whole) (suffix' : rest <:+ whole)
    (same : (ops.hkdf input (some (derived ops secret rest).1) ops.kdfInfo.ratchetInfo).2 =
      (derived ops secret chain).2) :
    chain.tail = rest ∧
      ops.hkdf input (some (derived ops secret rest).1) ops.kdfInfo.ratchetInfo = derived ops secret chain := by
  rcases chain with _ | ⟨pair, _ | ⟨last, older⟩⟩
  · exact absurd rfl started
  · obtain ⟨-, salt, -⟩ := free.snd_inj same
    cases salt
  · obtain ⟨input, salt, -⟩ := free.snd_inj same
    have root := root_inj secret free before (List.cons_ne_nil _ _) suffix'
      ((List.suffix_cons pair (last :: older)).trans suffix) (Option.some.inj salt)
    subst root
    subst input
    exact ⟨rfl, rfl⟩

theorem start_inj {whole chain chain' : List Curve25519KeyPair} (started : chain ≠ []) (started' : chain' ≠ [])
    (suffix : chain <:+ whole) (suffix' : chain' <:+ whole)
    (same : (derived ops secret chain).2 = (derived ops secret chain').2) : chain = chain' := by
  have of_length (length : chain.length = chain'.length) : chain = chain' :=
    (List.suffix_of_suffix_length_le suffix suffix' (Nat.le_of_eq length)).eq_of_length length
  rcases chain with _ | ⟨pair, _ | ⟨last, older⟩⟩
  · exact absurd rfl started
  · rcases chain' with _ | ⟨pair', _ | ⟨last', older'⟩⟩
    · exact absurd rfl started'
    · exact of_length rfl
    · obtain ⟨-, salt, -⟩ := free.snd_inj same
      cases salt
  · obtain ⟨follows, -⟩ := chain_follows secret free started' (List.cons_ne_nil last older) suffix'
      ((List.suffix_cons pair (last :: older)).trans suffix) same
    apply of_length
    obtain ⟨pair', rest, rfl⟩ := List.exists_cons_of_ne_nil started'
    rw [List.tail_cons] at follows
    rw [follows]
    rfl

theorem placeKey_inj {whole : List Curve25519KeyPair} {place place' : Place Curve25519KeyPair}
    (started : place.chain ≠ []) (started' : place'.chain ≠ []) (suffix : place.chain <:+ whole)
    (suffix' : place'.chain <:+ whole) (same : placeKey ops secret place = placeKey ops secret place') :
    place = place' := by
  obtain ⟨position, start⟩ := free.hmac_chain_inj (derived_root secret free started)
    (derived_root secret free started') same
  obtain ⟨chain, position⟩ := place
  obtain ⟨chain', position'⟩ := place'
  simp only at position start
  obtain rfl := start_inj secret free started started' suffix suffix' start
  subst position
  rfl

end Free

end RubyOlm.Ratchet
