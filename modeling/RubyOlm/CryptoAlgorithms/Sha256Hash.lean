import Mathlib.Data.List.GetD
import Mathlib.Tactic.IntervalCases
import RubyOlm.CryptoAlgorithms.Sha256

/-!
# The context hashes what it is fed

`sha256.c` against the standard: its constants, the hash of a block, and the whole of what a context was fed in however
many pieces.
-/

namespace RubyOlm

/-! ### Constants -/

theorem sha256K_roots : ∀ t < 64, ∃ whole < 8,
    (whole * 2 ^ 32 + (sha256K.getD t 0).toNat) ^ 3 ≤ (Sha2.trialDivision 312 18).getD t 0 * 2 ^ (32 * 3) ∧
      (Sha2.trialDivision 312 18).getD t 0 * 2 ^ (32 * 3) < (whole * 2 ^ 32 + (sha256K.getD t 0).toNat + 1) ^ 3 := by
  decide +kernel

theorem sha256K_eq {t : Nat} (below : t < 64) : sha256K.getD t 0 = Sha2.k t := by
  obtain ⟨whole, -, low, high⟩ := sha256K_roots t below
  rw [Sha2.k, Sha2.primes_eq (by decide : 312 ≤ 18 * 18), Sha2.fractionalRoot_eq (by decide) low high]

theorem initial_roots : ∀ t < 8, ∃ whole < 8,
    let bits := [0x6a09e667, 0xbb67ae85, 0x3c6ef372, 0xa54ff53a, 0x510e527f, 0x9b05688c, 0x1f83d9ab, 0x5be0cd19].getD t 0
    (whole * 2 ^ 32 + bits) ^ 2 ≤ (Sha2.trialDivision 20 5).getD t 0 * 2 ^ (32 * 2) ∧
      (Sha2.trialDivision 20 5).getD t 0 * 2 ^ (32 * 2) < (whole * 2 ^ 32 + bits + 1) ^ 2 := by
  decide +kernel

theorem sha256Init_state (ctx : Sha256Ctx) : (sha256Init ctx).state = Sha2.initial := by
  have root (t : Nat) (below : t < 8) {bits : UInt32}
      (same : bits.toNat = [0x6a09e667, 0xbb67ae85, 0x3c6ef372, 0xa54ff53a, 0x510e527f, 0x9b05688c, 0x1f83d9ab,
        0x5be0cd19].getD t 0) : bits = Sha2.fractionalRoot 2 ((Sha2.primes 20).getD t 0) := by
    obtain ⟨whole, -, low, high⟩ := initial_roots t below
    rw [← same] at low high
    rw [Sha2.primes_eq (by decide : 20 ≤ 5 * 5), Sha2.fractionalRoot_eq (by decide) low high]
  apply Sha2.State.ext
  · exact root 0 (by decide) rfl
  · exact root 1 (by decide) rfl
  · exact root 2 (by decide) rfl
  · exact root 3 (by decide) rfl
  · exact root 4 (by decide) rfl
  · exact root 5 (by decide) rfl
  · exact root 6 (by decide) rfl
  · exact root 7 (by decide) rfl

/-! ### The hash of a block -/

theorem word_eq (a b c d : UInt8) : word a b c d = Sha2.bigEndianWord [a, b, c, d] := by
  apply UInt32.toNat_inj.mp
  have ha := a.toNat_lt
  have hb := b.toNat_lt
  have hc := c.toNat_lt
  have hd := d.toNat_lt
  rw [toNat_word, Sha2.bigEndianWord, UInt32.toNat_ofNat']
  simp only [List.foldl_cons, List.foldl_nil]
  omega

theorem loadedWord_eq {data : Bytes} (block : data.length = 64) {t : Nat} (below : t < 16) :
    loadedWord data t = Sha2.schedule data t := by
  rw [Sha2.schedule_of_lt data below, loadedWord, word_eq, List.drop_eq_getElem_cons (by omega),
    List.drop_eq_getElem_cons (by omega), List.drop_eq_getElem_cons (by omega), List.drop_eq_getElem_cons (by omega),
    List.getD_eq_getElem _ _ (by omega), List.getD_eq_getElem _ _ (by omega), List.getD_eq_getElem _ _ (by omega),
    List.getD_eq_getElem _ _ (by omega)]
  rfl

theorem extendedWord_eq {m : List UInt32} {data : Bytes} {t : Nat} (above : 16 ≤ t)
    (done : ∀ i < t, m.getD i 0 = Sha2.schedule data i) : extendedWord m t = Sha2.schedule data t := by
  rw [Sha2.schedule_of_le data above, ← done (t - 2) (by omega), ← done (t - 7) (by omega), ← done (t - 15) (by omega),
    ← done (t - 16) (by omega)]
  rfl

theorem messageSchedule_words {m : List UInt32} {data : Bytes} (array : m.length = 64) (block : data.length = 64) :
    ∀ t < 64, (messageSchedule m data).getD t 0 = Sha2.schedule data t := by
  have loaded : ∀ t < 0 + 16, (storeWords (fun _ i => loadedWord data i) m 0 16).getD t 0 = Sha2.schedule data t :=
    storeWords_getD 0 (Nat.le_refl 0) (by omega) (fun t below => absurd below (Nat.not_lt_zero t))
      fun _ t _ below _ => loadedWord_eq block (by omega)
  have length := (storeWords_keeps (fun _ i => loadedWord data i) m 0 16).1
  have extended : ∀ t < 16 + 48, (storeWords extendedWord (storeWords (fun _ i => loadedWord data i) m 0 16) 16 48).getD t 0 =
      Sha2.schedule data t :=
    storeWords_getD 16 (Nat.le_refl 16) (by omega) loaded fun _ t above _ done => extendedWord_eq above done
  exact extended

theorem foldl_sha256Turn {m : List UInt32} {words : Nat → UInt32} {n : Nat} (within : n ≤ 64)
    (same : ∀ t < 64, m.getD t 0 = words t) (s : Sha2.State) :
    (List.range n).foldl (sha256Turn m) s = Sha2.rounds words s n := by
  induction n with
  | zero => rfl
  | succ n ih =>
    rw [List.range_succ, List.foldl_append, ih (by omega), List.foldl_cons, List.foldl_nil, sha256Turn, Sha2.rounds,
      sha256K_eq (by omega), same n (by omega)]
    rfl

/-- Only the state changes. -/
theorem sha256Transform_eq (ctx : Sha256Ctx) :
    sha256Transform ctx = { ctx with state := Sha2.sha256.compress ctx.state ctx.data.val } := by
  have words := messageSchedule_words (List.length_replicate (a := (0 : UInt32)) (n := 64)) ctx.data.property
  have rounds := foldl_sha256Turn (Nat.le_refl 64) words ctx.state
  unfold sha256Transform
  dsimp only
  rw [rounds]
  rfl

/-! ### Stores into the block -/

namespace Block

variable {n : Nat}

theorem val_set {data : Block n} {before rest : Bytes} {old : UInt8} (split : data.val = before ++ old :: rest)
    (byte : UInt8) : (data.set before.length byte).val = before ++ byte :: rest := by
  show data.val.set before.length byte = before ++ byte :: rest
  rw [split, List.set_append_right _ _ (Nat.le_refl _), Nat.sub_self, List.set_cons_zero]

theorem val_setAll {data : Block n} {before rest bytes : Bytes} (split : data.val = before ++ rest)
    (fits : bytes.length ≤ rest.length) :
    (data.setAll before.length bytes).val = before ++ bytes ++ rest.drop bytes.length := by
  induction bytes generalizing data before rest with
  | nil => rw [List.append_nil]; exact split
  | cons byte bytes ih =>
    cases rest with
    | nil => exact absurd fits (Nat.not_succ_le_zero _)
    | cons old rest =>
      have stored : (data.set before.length byte).val = (before ++ [byte]) ++ rest := by
        rw [val_set split, List.append_assoc]
        rfl
      have others := ih stored (Nat.le_of_succ_le_succ fits)
      rw [List.length_append, List.length_singleton] at others
      rw [setAll, others, List.append_assoc before]
      rfl

/-- All that was behind is stored over. -/
theorem val_setAll_end {data : Block n} {before rest bytes : Bytes} (split : data.val = before ++ rest)
    (same : bytes.length = rest.length) : (data.setAll before.length bytes).val = before ++ bytes := by
  rw [val_setAll split (Nat.le_of_eq same), same, List.drop_length, List.append_nil]

end Block

/-! ### Feeding the context -/

namespace Sha256Ctx

/-- What of the data is there to be hashed. -/
def pending (ctx : Sha256Ctx) : Bytes := ctx.data.val.take ctx.datalen.toNat

/-- The context after `fed`, which made `count` blocks. -/
structure Hashing (fed : Bytes) (count : Nat) (ctx : Sha256Ctx) : Prop where
  below : ctx.datalen.toNat < 64
  reached : Sha2.sha256.Reached Sha2.initial fed count ⟨ctx.state, ctx.pending⟩
  bits : ctx.bitlen = UInt64.ofNat (512 * count)

variable {ctx : Sha256Ctx} {fed : Bytes} {count : Nat}

theorem length_pending (below : ctx.datalen.toNat < 64) : ctx.pending.length = ctx.datalen.toNat := by
  rw [pending, List.length_take, ctx.data.property]
  omega

theorem hashing_init (ctx : Sha256Ctx) : Hashing [] 0 (sha256Init ctx) where
  below := (by decide : (0 : Nat) < 64)
  reached := by
    rw [sha256Init_state]
    exact BlockHash.reached_start Sha2.initial
  bits := rfl

/-- The block that waits, with the byte stored behind it. -/
theorem data_split (below : ctx.datalen.toNat < 64) :
    ∃ old rest, ctx.data.val = ctx.pending ++ old :: rest ∧ ctx.pending.length = ctx.datalen.toNat := by
  have inside : ctx.datalen.toNat < ctx.data.val.length := by
    rw [ctx.data.property]
    exact below
  refine ⟨ctx.data.val[ctx.datalen.toNat], ctx.data.val.drop (ctx.datalen.toNat + 1), ?_, length_pending below⟩
  rw [pending, ← List.drop_eq_getElem_cons, List.take_append_drop]

theorem hashing_byte (hashing : Hashing fed count ctx) (byte : UInt8) :
    ∃ count', Hashing (fed ++ [byte]) count' (sha256Byte ctx byte) := by
  have below := hashing.below
  obtain ⟨old, rest, split, length⟩ := data_split below
  have stored : (ctx.data.set ctx.datalen.toNat byte).val = (ctx.pending ++ [byte]) ++ rest := by
    rw [← length, Block.val_set split, List.append_assoc]
    rfl
  have next : (ctx.datalen + 1).toNat = ctx.datalen.toNat + 1 := by
    rw [UInt32.toNat_add]
    show (ctx.datalen.toNat + 1) % 2 ^ 32 = _
    omega
  have taken : (ctx.data.set ctx.datalen.toNat byte).val.take (ctx.datalen.toNat + 1) = ctx.pending ++ [byte] := by
    rw [stored, List.take_left' (by rw [List.length_append, length]; rfl)]
  unfold sha256Byte
  dsimp only
  by_cases full : ctx.datalen + 1 = 64
  · rw [if_pos full]
    have last : ctx.pending.length + 1 = 64 := by
      rw [length, ← next, full]
      rfl
    have block : (ctx.data.set ctx.datalen.toNat byte).val = ctx.pending ++ [byte] := by
      have whole := List.take_of_length_le (Nat.le_of_eq (ctx.data.set ctx.datalen.toNat byte).property)
      have all : ctx.datalen.toNat + 1 = 64 := by omega
      rw [← taken, all, whole]
    have bits : ctx.bitlen + 512 = UInt64.ofNat (512 * (count + 1)) := by
      rw [hashing.bits, Nat.mul_succ, UInt64.ofNat_add]
      rfl
    have reached := hashing.reached.feed_block byte last
    rw [sha256Transform_eq]
    refine ⟨count + 1, (by decide : (0 : Nat) < 64), ?_, bits⟩
    dsimp only
    rw [block]
    exact reached
  · rw [if_neg full]
    have more : ctx.pending.length + 1 < 64 := by
      have other : (ctx.datalen + 1).toNat ≠ 64 := fun same => full (UInt32.toNat_inj.mp same)
      omega
    refine ⟨count, by show (ctx.datalen + 1).toNat < 64; omega, ?_, hashing.bits⟩
    have reached := hashing.reached.feed_pending byte more
    rw [pending, next, taken]
    exact reached

theorem hashing_foldl (hashing : Hashing fed count ctx) (bytes : Bytes) :
    ∃ count', Hashing (fed ++ bytes) count' (bytes.foldl sha256Byte ctx) := by
  induction bytes generalizing fed count ctx with
  | nil =>
    rw [List.append_nil]
    exact ⟨count, hashing⟩
  | cons byte bytes ih =>
    obtain ⟨count', next⟩ := hashing_byte hashing byte
    obtain ⟨count'', rest⟩ := ih next
    rw [List.append_assoc] at rest
    exact ⟨count'', rest⟩

/-! ### The last block -/

theorem bitlenBytes_eq (n : Nat) : bitlenBytes (UInt64.ofNat n) = Sha2.bigEndianBytes 8 n := by
  have byte (shift : UInt64) (exponent : Nat) (same : 2 ^ (shift.toNat % 64) = 256 ^ exponent) (small : exponent < 8) :
      ((UInt64.ofNat n) >>> shift).toUInt8 = UInt8.ofNat (n / 256 ^ exponent) := by
    apply UInt8.toNat_inj.mp
    rw [UInt64.toNat_toUInt8, UInt64.toNat_shiftRight, UInt64.toNat_ofNat', Nat.shiftRight_eq_div_pow,
      UInt8.toNat_ofNat', same]
    interval_cases exponent <;> omega
  have last : (UInt64.ofNat n).toUInt8 = UInt8.ofNat (n / 256 ^ 0) := by
    apply UInt8.toNat_inj.mp
    rw [UInt64.toNat_toUInt8, UInt64.toNat_ofNat', UInt8.toNat_ofNat']
    omega
  rw [bitlenBytes, byte 56 7 (by decide) (by decide), byte 48 6 (by decide) (by decide), byte 40 5 (by decide) (by decide),
    byte 32 4 (by decide) (by decide), byte 24 3 (by decide) (by decide), byte 16 2 (by decide) (by decide),
    byte 8 1 (by decide) (by decide), last]
  rfl

theorem bigEndian_eq (value : UInt32) : bigEndian value = Sha2.bigEndianBytes 4 value.toNat := by
  have byte (shift : UInt32) (exponent : Nat) (same : 2 ^ (shift.toNat % 32) = 256 ^ exponent) :
      (value >>> shift).toUInt8 = UInt8.ofNat (value.toNat / 256 ^ exponent) := by
    apply UInt8.toNat_inj.mp
    rw [UInt32.toNat_toUInt8, UInt32.toNat_shiftRight, Nat.shiftRight_eq_div_pow, UInt8.toNat_ofNat', same]
  have last : value.toUInt8 = UInt8.ofNat (value.toNat / 256 ^ 0) := by
    apply UInt8.toNat_inj.mp
    rw [UInt32.toNat_toUInt8, UInt8.toNat_ofNat', Nat.pow_zero, Nat.div_one]
  rw [bigEndian, byte 24 3 (by decide), byte 16 2 (by decide), byte 8 1 (by decide), last]
  rfl

theorem bitlen_final (hashing : Hashing fed count ctx) :
    ctx.bitlen + (ctx.datalen * 8).toUInt64 = UInt64.ofNat (8 * fed.length) := by
  have below := hashing.below
  have length : fed.length = 64 * count + ctx.datalen.toNat := by
    rw [hashing.reached.length, length_pending below]
    rfl
  have bits : (ctx.datalen * 8).toUInt64 = UInt64.ofNat (8 * ctx.datalen.toNat) := by
    apply UInt64.toNat_inj.mp
    rw [UInt32.toNat_toUInt64, UInt32.toNat_mul, UInt64.toNat_ofNat']
    show ctx.datalen.toNat * 8 % 2 ^ 32 = _
    omega
  rw [hashing.bits, bits, ← UInt64.ofNat_add, length]
  congr 1
  omega

/-- The state's words, the highest byte of each first. -/
theorem bytes_eq (s : Sha2.State) : bigEndian s.a ++ bigEndian s.b ++ bigEndian s.c ++ bigEndian s.d ++ bigEndian s.e ++
    bigEndian s.f ++ bigEndian s.g ++ bigEndian s.h = s.bytes := by
  simp only [bigEndian_eq, Sha2.State.bytes, List.flatMap_cons, List.flatMap_nil, List.append_nil, List.append_assoc]

/-- The mark and zeros behind the bytes that wait, up to `stop`. -/
theorem val_marked (below : ctx.datalen.toNat < 64) {stop : Nat} (behind : ctx.datalen.toNat + 1 ≤ stop)
    (within : stop ≤ 64) :
    ∃ rest, ((ctx.data.set ctx.datalen.toNat 0x80).setAll (ctx.datalen.toNat + 1)
        (List.replicate (stop - (ctx.datalen.toNat + 1)) 0)).val =
        (ctx.pending ++ 0x80 :: List.replicate (stop - 1 - ctx.pending.length) 0) ++ rest ∧
      (ctx.pending ++ 0x80 :: List.replicate (stop - 1 - ctx.pending.length) (0 : UInt8)).length = stop ∧
      stop + rest.length = 64 := by
  obtain ⟨old, rest, split, length⟩ := data_split below
  have whole : ctx.pending.length + 1 + rest.length = 64 := by
    have size := ctx.data.property
    rw [split, List.length_append, List.length_cons] at size
    omega
  have marked : (ctx.data.set ctx.datalen.toNat 0x80).val = (ctx.pending ++ [0x80]) ++ rest := by
    rw [← length, Block.val_set split, List.append_assoc]
    rfl
  have mark : (ctx.pending ++ [(0x80 : UInt8)]).length = ctx.datalen.toNat + 1 := by
    rw [List.length_append, length]
    rfl
  have zeros : stop - (ctx.datalen.toNat + 1) = stop - 1 - ctx.pending.length := by omega
  refine ⟨rest.drop (stop - 1 - ctx.pending.length), ?_, ?_, ?_⟩
  · rw [zeros, ← mark, Block.val_setAll marked (by rw [List.length_replicate]; omega), List.length_replicate,
      List.append_assoc ctx.pending]
    rfl
  · rw [List.length_append, List.length_cons, List.length_replicate]
    omega
  · rw [List.length_drop]
    omega

/-- The state after the last block is the digest. -/
theorem sha256Final_state (hashing : Hashing fed count ctx) :
    (sha256Final ctx).1.state = Sha2.sha256.digest Sha2.initial fed := by
  have below := hashing.below
  have length : ctx.pending.length = ctx.datalen.toNat := length_pending below
  have bits := bitlen_final hashing
  have lengthBytes : (bitlenBytes (UInt64.ofNat (8 * fed.length))).length = 8 := rfl
  unfold sha256Final
  dsimp only
  by_cases room : ctx.datalen < 56
  · have fits : ctx.datalen.toNat < 56 := room
    obtain ⟨rest, marked, start, size⟩ := val_marked below (by omega : ctx.datalen.toNat + 1 ≤ 56) (by decide)
    have block := Block.val_setAll_end marked (lengthBytes.trans (by omega))
    rw [start] at block
    rw [if_pos room]
    dsimp only
    rw [bits, sha256Transform_eq]
    dsimp only
    rw [block, bitlenBytes_eq]
    exact (hashing.reached.digest_one (show ctx.pending.length + 1 + 8 ≤ 64 by omega)).symm
  · have full : ¬ctx.datalen.toNat < 56 := room
    obtain ⟨rest, marked, start, size⟩ := val_marked below (by omega : ctx.datalen.toNat + 1 ≤ 64) (by decide)
    rw [if_neg room]
    dsimp only
    obtain rfl := List.eq_nil_of_length_eq_zero (by omega : rest.length = 0)
    rw [List.append_nil] at marked
    generalize (ctx.data.set ctx.datalen.toNat 0x80).setAll (ctx.datalen.toNat + 1)
      (List.replicate (64 - (ctx.datalen.toNat + 1)) 0) = data at marked ⊢
    -- the block that is full goes first, and is zeroed for the length
    have fits : (List.replicate 56 (0 : UInt8)).length ≤ data.val.length := by
      rw [data.property, List.length_replicate]
      decide
    have cleared := Block.val_setAll (List.nil_append data.val).symm fits
    rw [List.nil_append, List.length_replicate, List.length_nil] at cleared
    have block := Block.val_setAll_end cleared (lengthBytes.trans (by rw [List.length_drop, data.property]))
    rw [List.length_replicate] at block
    rw [sha256Transform_eq, sha256Transform_eq]
    dsimp only
    rw [bits, block, bitlenBytes_eq, marked]
    exact (hashing.reached.digest_two (show 64 < ctx.pending.length + 1 + 8 by omega)).symm

theorem sha256Final_hash (hashing : Hashing fed count ctx) : (sha256Final ctx).2 = Sha2.hash fed := by
  apply Subtype.ext
  show _ = (Sha2.sha256.digest Sha2.initial fed).bytes
  rw [← sha256Final_state hashing, ← bytes_eq]
  rfl

end Sha256Ctx

/-! ### The loop over the input -/

/-- A counter of 32 bits gets through inputs of fewer than `2 ^ 32` bytes. -/
theorem sha256Update_from {data : Bytes} (short : data.length < 2 ^ 32) (ctx : Sha256Ctx) (more : Nat) {i : Nat}
    (within : i ≤ data.length) :
    sha256Update ctx data (data.length - i + 1 + more) (UInt32.ofNat i) =
      some ((data.drop i).foldl sha256Byte ctx) := by
  obtain ⟨left, hleft⟩ : ∃ left, data.length - i = left := ⟨_, rfl⟩
  induction left generalizing i ctx with
  | zero =>
    have counter : (UInt32.ofNat i).toNat = i := by
      rw [UInt32.toNat_ofNat']
      omega
    have read : data.drop i = [] := List.drop_of_length_le (by omega)
    have done : ¬i < data.length := by omega
    rw [hleft, Nat.zero_add, Nat.add_comm, sha256Update, counter, if_neg done, read]
    rfl
  | succ left ih =>
    have counter : (UInt32.ofNat i).toNat = i := by
      rw [UInt32.toNat_ofNat']
      omega
    have next : UInt32.ofNat i + 1 = UInt32.ofNat (i + 1) := (UInt32.ofNat_add i 1).symm
    have rest := ih (sha256Byte ctx (data.getD i 0)) (i := i + 1) (by omega) (by omega)
    have turns : data.length - i + 1 + more = data.length - (i + 1) + 1 + more + 1 := by omega
    have inside : i < data.length := by omega
    rw [turns, sha256Update, counter, if_pos inside, next, rest, List.drop_eq_getElem_cons inside,
      List.getD_eq_getElem _ _ inside]
    rfl

/-- It never gets through others, however long the loop runs. -/
theorem sha256Update_endless {data : Bytes} (long : 2 ^ 32 ≤ data.length) (ctx : Sha256Ctx) (turns : Nat) (i : UInt32) :
    sha256Update ctx data turns i = none := by
  induction turns generalizing ctx i with
  | zero => rfl
  | succ turns ih =>
    have below := i.toNat_lt
    rw [sha256Update, if_pos (by omega), ih]

/-- A loop that returns does so with more turns as well. -/
theorem sha256Update_more {data : Bytes} {ctx next : Sha256Ctx} {turns : Nat} {i : UInt32} (more : Nat)
    (returned : sha256Update ctx data turns i = some next) : sha256Update ctx data (turns + more) i = some next := by
  induction turns generalizing ctx i with
  | zero => cases returned
  | succ turns ih =>
    rw [sha256Update] at returned
    rw [Nat.add_right_comm, sha256Update]
    split at returned
    case isTrue inside => rw [if_pos inside, ih returned]
    case isFalse done => rw [if_neg done, returned]

theorem sha256Update_short {data : Bytes} (short : data.length < 2 ^ 32) (ctx : Sha256Ctx) (more : Nat) :
    sha256Update ctx data (data.length + 1 + more) 0 = some (data.foldl sha256Byte ctx) :=
  sha256Update_from short ctx more (Nat.zero_le data.length)

theorem sha256Update_returned {data : Bytes} {ctx next : Sha256Ctx} {turns : Nat}
    (returned : sha256Update ctx data turns 0 = some next) :
    data.length < 2 ^ 32 ∧ next = data.foldl sha256Byte ctx := by
  have short : data.length < 2 ^ 32 := by
    by_contra long
    rw [sha256Update_endless (Nat.le_of_not_lt long)] at returned
    cases returned
  have whole := sha256Update_more (data.length + 1) returned
  rw [Nat.add_comm, sha256Update_short short ctx turns] at whole
  exact ⟨short, (Option.some.inj whole).symm⟩

/-- The calls of `sha256_update` for the pieces, each for so many turns at most. -/
def sha256Updates (turns : Nat) (pieces : List Bytes) (ctx : Sha256Ctx) : Option Sha256Ctx :=
  pieces.foldlM (fun ctx data => sha256Update ctx data turns 0) ctx

theorem sha256Updates_returned {pieces : List Bytes} {ctx fed : Sha256Ctx} {turns : Nat}
    (returned : sha256Updates turns pieces ctx = some fed) :
    (∀ data ∈ pieces, data.length < 2 ^ 32) ∧ fed = pieces.flatten.foldl sha256Byte ctx := by
  induction pieces generalizing ctx with
  | nil =>
    cases returned
    exact ⟨fun data member => absurd member List.not_mem_nil, rfl⟩
  | cons first pieces ih =>
    rw [sha256Updates, List.foldlM_cons, Option.bind_eq_bind, Option.bind_eq_some_iff] at returned
    obtain ⟨next, update, rest⟩ := returned
    obtain ⟨short, rfl⟩ := sha256Update_returned update
    obtain ⟨others, rfl⟩ := ih rest
    rw [List.flatten_cons, List.foldl_append]
    exact ⟨List.forall_mem_cons.mpr ⟨short, others⟩, rfl⟩

theorem sha256Update_within {data : Bytes} (short : data.length < 2 ^ 32) (ctx : Sha256Ctx) :
    sha256Update ctx data (2 ^ 32) 0 = some (data.foldl sha256Byte ctx) := by
  have whole := sha256Update_short short ctx (2 ^ 32 - (data.length + 1))
  rwa [Nat.add_sub_cancel' short] at whole

theorem sha256Updates_short {pieces : List Bytes} (short : ∀ data ∈ pieces, data.length < 2 ^ 32) (ctx : Sha256Ctx) :
    sha256Updates (2 ^ 32) pieces ctx = some (pieces.flatten.foldl sha256Byte ctx) := by
  induction pieces generalizing ctx with
  | nil => rfl
  | cons first pieces ih =>
    obtain ⟨below, others⟩ := List.forall_mem_cons.mp short
    rw [sha256Updates, List.foldlM_cons, sha256Update_within below, List.flatten_cons, List.foldl_append]
    exact ih others (first.foldl sha256Byte ctx)

/-- Whatever the context held before, and however the message is cut up: the calls return if each piece has fewer than
`2 ^ 32` bytes, and then the hash of the standard comes out. -/
theorem sha256_hashes (ctx : Sha256Ctx) (pieces : List Bytes) :
    (∀ turns fed, sha256Updates turns pieces (sha256Init ctx) = some fed →
        (sha256Final fed).2 = Sha2.hash pieces.flatten) ∧
      ((∃ turns fed, sha256Updates turns pieces (sha256Init ctx) = some fed) ↔
        ∀ data ∈ pieces, data.length < 2 ^ 32) := by
  refine ⟨?hash, ?returns, ?short⟩
  case hash =>
    intro turns fed returned
    obtain ⟨-, rfl⟩ := sha256Updates_returned returned
    obtain ⟨count, hashing⟩ := Sha256Ctx.hashing_foldl (Sha256Ctx.hashing_init ctx) pieces.flatten
    exact Sha256Ctx.sha256Final_hash hashing
  case returns =>
    intro returned
    obtain ⟨turns, fed, returned⟩ := returned
    exact (sha256Updates_returned returned).1
  case short =>
    intro short
    exact ⟨2 ^ 32, _, sha256Updates_short short (sha256Init ctx)⟩

end RubyOlm
